import VidbyteSdk.Harnesses.Hostkit.BrowserCall

/-!
# Which calls leave their folder behind

A call gives up the folder in two ways only: `_make_folder` makes it for a call that was cancelled while it
waited, or a file write that outlived its await makes it again once it was removed. In a run without these
steps the folder is gone when the call and its clean-up are over, unless the call returned saved files.
-/

namespace VidbyteSdk.Harnesses.Hostkit

open VidbyteSdk.Lib

namespace BrowserCall

def NoProfiles (folder : Option CallFolder) : Prop := ∀ f ∈ folder, f.profiles = false

def Ended (call : BrowserCall) : Prop :=
  (call.phase = .raised ∨ ∃ artifacts, call.phase = .returned artifacts) ∧
    (call.cleanup = .idle ∨ call.cleanup = .done)

/-- A folder is there only for a call that returned saved files, and holds no profile. -/
def LeavesNothing (call : BrowserCall) : Prop :=
  ∀ f ∈ call.folder,
    (∃ name names, call.phase = .returned (name :: names)) ∧ f.profiles = false

/-- The step that loses the folder: it is made although its call was cancelled, the cancellation drops it
before the call has taken it, or a write that nothing waits for makes it again. -/
def LosesFolder (call : BrowserCall) : CallEvent → Prop
  | .strayEnds .makeFolder how => how = .succeeds
  | .strayEnds .writeFile how => how ≠ .fails ∧ call.folder = none
  | .cancel => call.phase = .awaiting .makeFolder (.finished .done)
  | _ => False

instance (call : BrowserCall) (event : CallEvent) : Decidable (call.LosesFolder event) := by
  unfold LosesFolder
  split <;> infer_instance

/-- The removals that something waits for succeed. -/
def RemovalSucceeds (call : BrowserCall) (event : CallEvent) : Prop :=
  match event, call.phase, call.cleanup with
  | .threadEnds how, .awaiting (.remove _ _) _, _ => how = .succeeds
  | .cleanupThreadEnds how, _, .awaiting (.remove _ _) _ => how = .succeeds
  | _, _, _ => True

instance (call : BrowserCall) (event : CallEvent) : Decidable (call.RemovalSucceeds event) := by
  cases call
  unfold RemovalSucceeds
  split <;> infer_instance

/-! ### The invariant -/

def FolderAt (folder : Option CallFolder) : Phase → Prop
  | .preparing => folder = none
  | .awaiting .makeFolder progress => progress ≠ .finished .done → folder = none
  | .awaiting (.remove .profiles _) (.finished _) | .awaiting (.isThere .profiles _) _
  | .pausing .profiles _ | .awaiting .artifacts _ => NoProfiles folder
  | .awaiting (.remove .folder _) (.finished _) | .awaiting (.isThere .folder _) _
  | .pausing .folder _ => folder = none
  | .returned artifacts => NoProfiles folder ∧ (artifacts = [] → folder = none)
  | .awaiting .writeFile _ | .awaiting (.remove _ _) _ | .harness | .reaping | .discarding | .raised => True

/-- What is known of it where the clean-up is. -/
def FolderAtCleanup (folder : Option CallFolder) : Cleanup → Prop
  | .idle | .reaping => True
  | .awaiting (.remove .folder _) progress => ∀ result, progress = .finished result → folder = none
  | .awaiting (.isThere .folder _) _ | .pausing _ | .done => folder = none
  | .awaiting _ _ => False

structure Inv (call : BrowserCall) : Prop where
  folder : FolderAt call.folder call.phase
  cleanup : FolderAtCleanup call.folder call.cleanup
  idle : call.cleanup = .idle → call.phase ≠ .discarding ∧ (call.phase = .raised → call.folder = none)
  busy : call.cleanup ≠ .idle → call.phase = .discarding ∨ call.phase = .raised

variable {profiled : Bool} {call call' : BrowserCall}

theorem Inv.leavesNothing (h : Inv call) (hended : call.Ended) : call.LeavesNothing := by
  intro f hf
  obtain ⟨hphase | ⟨artifacts, hphase⟩, hcleanup⟩ := hended
  · have hnone : call.folder = none := by
      rcases hcleanup with hcleanup | hcleanup
      · exact (h.idle hcleanup).2 hphase
      · simpa [hcleanup, FolderAtCleanup] using h.cleanup
    rw [hnone] at hf
    cases hf
  · have hfolder := h.folder
    rw [hphase] at hfolder
    obtain ⟨hprofiles, hempty⟩ := hfolder
    cases artifacts with
    | nil =>
      rw [hempty rfl] at hf
      cases hf
    | cons name names => exact ⟨⟨name, names, hphase⟩, hprofiles f hf⟩

/-! ### Folders only shrink -/

def Shrinks (folder folder' : Option CallFolder) : Prop :=
  folder' = folder ∨ ∃ target : Target, folder' = target.removed folder

variable {folder folder' : Option CallFolder}

theorem Shrinks.eq_none (h : Shrinks folder folder')
    (hnone : folder = none) : folder' = none := by
  subst hnone
  rcases h with rfl | ⟨target, rfl⟩
  · rfl
  · cases target <;> rfl

theorem noProfiles_removed (folder : Option CallFolder) (target : Target) :
    NoProfiles (target.removed folder) := by
  cases target with
  | profiles =>
    intro f hf
    obtain ⟨f', -, rfl⟩ := Option.map_eq_some_iff.mp hf
    rfl
  | folder => exact fun f hf => absurd hf (Option.not_mem_none f)

theorem Shrinks.noProfiles (h : Shrinks folder folder')
    (hprofiles : NoProfiles folder) : NoProfiles folder' := by
  rcases h with rfl | ⟨target, rfl⟩
  · exact hprofiles
  · exact noProfiles_removed folder target

theorem Shrinks.folderAt (h : Shrinks folder folder') {phase : Phase}
    (hphase : FolderAt folder phase) : FolderAt folder' phase := by
  unfold FolderAt at hphase ⊢
  split at hphase
  · exact h.eq_none hphase
  · exact fun hne => h.eq_none (hphase hne)
  · exact h.noProfiles hphase
  · exact h.noProfiles hphase
  · exact h.noProfiles hphase
  · exact h.noProfiles hphase
  · exact h.eq_none hphase
  · exact h.eq_none hphase
  · exact h.eq_none hphase
  · exact ⟨h.noProfiles hphase.1, fun hnil => h.eq_none (hphase.2 hnil)⟩
  all_goals trivial

theorem Shrinks.folderAtCleanup (h : Shrinks folder folder')
    {cleanup : Cleanup} (hcleanup : FolderAtCleanup folder cleanup) :
    FolderAtCleanup folder' cleanup := by
  unfold FolderAtCleanup at hcleanup ⊢
  split at hcleanup
  · trivial
  · trivial
  · exact fun result hresult => h.eq_none (hcleanup result hresult)
  · exact h.eq_none hcleanup
  · exact h.eq_none hcleanup
  · exact h.eq_none hcleanup
  · exact hcleanup

variable {work : WorkerStep}

variable {how : WorkerEnd}

theorem shrinks_of_stray (hkeeps : ¬call.LosesFolder (.strayEnds work how)) :
    Shrinks call.folder (work.run profiled call.folder how).2 := by
  cases work with
  | makeFolder =>
    cases how with
    | succeeds => exact absurd rfl hkeeps
    | fails => exact .inl rfl
    | failsHalfway => exact .inl rfl
  | writeFile =>
    cases how with
    | fails => exact .inl rfl
    | succeeds | failsHalfway =>
      cases hfolder : call.folder with
      | none => exact absurd ⟨by decide, hfolder⟩ hkeeps
      | some f => exact .inl rfl
  | remove target attempt =>
    cases how with
    | succeeds => exact .inr ⟨target, rfl⟩
    | fails => exact .inl rfl
    | failsHalfway => exact .inl rfl
  | isThere target attempt => cases how <;> exact .inl rfl
  | artifacts => cases how <;> exact .inl rfl

/-! ### Steps of the call -/

theorem Inv.move (h : Inv call) (hidle : call.cleanup = .idle) {phase : Phase}
    (hfolder : FolderAt call.folder phase) (hphase : phase ≠ .discarding)
    (hraised : phase = .raised → call.folder = none) : Inv { call with phase := phase } :=
  ⟨hfolder, h.cleanup, fun _ => ⟨hphase, hraised⟩, fun hbusy => absurd hidle hbusy⟩

theorem Inv.discard (call : BrowserCall) : Inv call.discard :=
  ⟨trivial, trivial, fun hidle => (by cases hidle), fun _ => .inl rfl⟩

theorem Inv.cleanup_idle (h : Inv call) (hphase : call.phase ≠ .discarding) (hraised : call.phase ≠ .raised) :
    call.cleanup = .idle := by
  by_contra hbusy
  rcases h.busy hbusy with hdiscarding | hisRaised
  · exact hphase hdiscarding
  · exact hraised hisRaised

theorem Inv.strays (h : Inv call) (strays : List WorkerStep) : Inv { call with strays := strays } :=
  ⟨h.folder, h.cleanup, h.idle, h.busy⟩

theorem Inv.finish (h : Inv call) (hidle : call.cleanup = .idle) (hprofiles : NoProfiles call.folder)
    (raises : Bool) {files : List String} (hfiles : files = [] → call.folder = none) :
    Inv (call.finish raises files) := by
  unfold BrowserCall.finish
  split
  · exact Inv.discard call
  · refine h.move hidle ⟨hprofiles, fun hnil => ?_⟩ nofun nofun
    cases files with
    | nil => exact hfiles rfl
    | cons name names => cases hnil

theorem NoProfiles.of_none {folder : Option CallFolder} (h : folder = none) : NoProfiles folder := by
  subst h
  exact fun f hf => absurd hf (Option.not_mem_none f)

/-- What is known of the folder once `_remove` is over. -/
def RemovedAt (folder : Option CallFolder) : Target → Prop
  | .profiles => NoProfiles folder
  | .folder => folder = none

theorem Inv.afterRemoval (h : Inv call) (hidle : call.cleanup = .idle) (raises : Bool) {target : Target}
    (hremoved : RemovedAt call.folder target) : Inv (call.afterRemoval raises target) := by
  cases target with
  | profiles => exact h.move hidle hremoved nofun nofun
  | folder => exact h.finish hidle (.of_none hremoved) raises fun _ => hremoved

theorem Inv.resume (h : Inv call) (late raises : Bool) {result : WorkerResult}
    (hphase : call.phase = .awaiting work (.finished result)) :
    Inv (call.resume late raises work result) := by
  have hidle : call.cleanup = .idle := h.cleanup_idle (by simp [hphase]) (by simp [hphase])
  have hfolder := h.folder
  rw [hphase] at hfolder
  cases work with
  | makeFolder =>
    cases result with
    | done => exact h.move hidle trivial nofun nofun
    | failed | there value | files names =>
      exact h.move hidle trivial nofun fun _ => hfolder (by simp)
  | writeFile => exact h.move hidle trivial nofun nofun
  | remove target attempt => cases target <;> exact h.move hidle hfolder nofun nofun
  | isThere target attempt =>
    cases result with
    | there value =>
      have hremoved : RemovedAt call.folder target := by cases target <;> exact hfolder
      show Inv (if value = false ∨ late then call.afterRemoval raises target else _)
      split
      · exact h.afterRemoval hidle raises hremoved
      · cases target <;> exact h.move hidle hfolder nofun nofun
    | done | failed | files names => exact Inv.discard call
  | artifacts =>
    cases result with
    | files names =>
      cases names with
      | nil => exact h.move hidle trivial nofun nofun
      | cons name names => exact h.finish hidle hfolder raises nofun
    | done | failed | there value => exact Inv.discard call

theorem Inv.cancel (h : Inv call) (hkeeps : ¬call.LosesFolder .cancel)
    (hcancel : call.cancel = some call') : Inv call' := by
  have hfolder := h.folder
  unfold BrowserCall.cancel at hcancel
  split at hcancel
  next hphase =>
    cases hcancel
    rw [hphase] at hfolder
    exact h.move (h.cleanup_idle (by simp [hphase]) (by simp [hphase])) trivial nofun fun _ => hfolder
  next progress hphase =>
    cases hcancel
    rw [hphase] at hfolder
    have hnone : call.folder = none := hfolder fun hfinished => hkeeps (hphase.trans (by rw [hfinished]))
    have hmoved : Inv { call with phase := .raised } :=
      h.move (h.cleanup_idle (by simp [hphase]) (by simp [hphase])) trivial nofun fun _ => hnone
    exact hmoved.strays _
  next progress hphase =>
    cases hcancel
    have hmoved : Inv { call with phase := .harness } :=
      h.move (h.cleanup_idle (by simp [hphase]) (by simp [hphase])) trivial nofun nofun
    exact hmoved.strays _
  next => cases hcancel; exact (Inv.discard call).strays _
  next => cases hcancel; exact h
  next => cases hcancel; exact Inv.discard call
  next => cases hcancel; exact Inv.discard call
  next hphase =>
    cases hcancel
    refine ⟨trivial, h.cleanup, fun hidle => absurd hphase (h.idle hidle).1, fun _ => .inr rfl⟩
  next => cases hcancel
  next => cases hcancel

theorem Inv.threadEnds (h : Inv call)
    (hphase : call.phase = .awaiting work .running)
    (hremoval : ∀ target attempt, work = .remove target attempt → how = .succeeds) :
    Inv { call with
      phase := .awaiting work (.finished (work.run profiled call.folder how).1)
      folder := (work.run profiled call.folder how).2 } := by
  have hidle : call.cleanup = .idle := h.cleanup_idle (by simp [hphase]) (by simp [hphase])
  have hfolder := h.folder
  rw [hphase] at hfolder
  refine ⟨?_, ?_, fun _ => ⟨nofun, nofun⟩, fun hbusy => absurd hidle hbusy⟩
  · cases work with
    | makeFolder =>
      cases how with
      | succeeds => exact fun hne => absurd rfl hne
      | fails | failsHalfway => exact fun _ => hfolder nofun
    | writeFile => trivial
    | remove target attempt =>
      cases hremoval target attempt rfl
      cases target with
      | profiles => exact noProfiles_removed call.folder .profiles
      | folder => rfl
    | isThere target attempt => cases how <;> cases target <;> exact hfolder
    | artifacts => cases how <;> exact hfolder
  · show FolderAtCleanup _ call.cleanup
    rw [hidle]
    trivial

/-! ### Steps of the clean-up -/

theorem Inv.moveCleanup (h : Inv call) (hbusy : call.cleanup ≠ .idle) {cleanup : Cleanup}
    {folder : Option CallFolder} (hfolder : FolderAtCleanup folder cleanup) (hcleanup : cleanup ≠ .idle) :
    Inv { call with cleanup := cleanup, folder := folder } := by
  refine ⟨?_, hfolder, fun hidle => absurd hidle hcleanup, fun _ => h.busy hbusy⟩
  show FolderAt folder call.phase
  rcases h.busy hbusy with hphase | hphase <;> rw [hphase] <;> trivial

theorem Inv.cleanupThreadEnds (h : Inv call)
    (hcleanup : call.cleanup = .awaiting work .running)
    (hremoval : ∀ target attempt, work = .remove target attempt → how = .succeeds) :
    Inv { call with
      cleanup := .awaiting work (.finished (work.run profiled call.folder how).1)
      folder := (work.run profiled call.folder how).2 } := by
  have hfolder := h.cleanup
  rw [hcleanup] at hfolder
  refine h.moveCleanup (by simp [hcleanup]) ?_ nofun
  cases work with
  | makeFolder | writeFile | artifacts => exact hfolder.elim
  | remove target attempt =>
    cases hremoval target attempt rfl
    cases target with
    | profiles => exact hfolder.elim
    | folder => exact fun _ _ => rfl
  | isThere target attempt =>
    cases target with
    | profiles => exact hfolder.elim
    | folder => cases how <;> exact hfolder

theorem Inv.resumeCleanup (h : Inv call) (late : Bool) {result : WorkerResult}
    (hcleanup : call.cleanup = .awaiting work (.finished result)) :
    Inv { call with cleanup := BrowserCall.resumeCleanup late work result } := by
  have hfolder := h.cleanup
  rw [hcleanup] at hfolder
  have hbusy : call.cleanup ≠ .idle := by simp [hcleanup]
  cases work with
  | makeFolder | writeFile | artifacts => exact hfolder.elim
  | remove target attempt =>
    cases target with
    | profiles => exact hfolder.elim
    | folder => exact h.moveCleanup hbusy (hfolder result rfl) nofun
  | isThere target attempt =>
    cases target with
    | profiles => exact hfolder.elim
    | folder =>
      cases result with
      | there value =>
        by_cases hover : value = false ∨ late = true
        · have hdone : BrowserCall.resumeCleanup late (.isThere .folder attempt) (.there value) = .done :=
            if_pos hover
          rw [hdone]
          exact h.moveCleanup hbusy hfolder nofun
        · have hpausing : BrowserCall.resumeCleanup late (.isThere .folder attempt) (.there value) =
              .pausing attempt := if_neg hover
          rw [hpausing]
          exact h.moveCleanup hbusy hfolder nofun
      | done | failed | files names => exact h.moveCleanup hbusy hfolder nofun

theorem Inv.toolsRun (h : Inv call) (htools : call.ToolsRun) (folder : Option CallFolder) :
    Inv { call with folder := folder } := by
  unfold ToolsRun at htools
  split at htools
  case h_1 hcleanup =>
    have hmoved : Inv { call with cleanup := call.cleanup, folder := folder } :=
      h.moveCleanup (by simp [hcleanup]) (by rw [hcleanup]; trivial) (by simp [hcleanup])
    exact hmoved
  case h_2 hcleanup hphase | h_3 hcleanup hphase | h_4 hcleanup hphase =>
    refine ⟨by rw [hphase]; trivial, by rw [hcleanup]; trivial, fun _ => by simp [hphase],
      fun hbusy => absurd hcleanup hbusy⟩
  case h_5 => exact htools.elim

/-! ### Runs -/

theorem Inv.step (h : Inv call) {event : CallEvent} (hkeeps : ¬call.LosesFolder event)
    (hremoval : call.RemovalSucceeds event) (hstep : call.step profiled event = some call') : Inv call' := by
  cases event with
  | prepared =>
    simp only [BrowserCall.step] at hstep
    split at hstep <;> cases hstep
    next hphase =>
    have hfolder := h.folder
    rw [hphase] at hfolder
    exact h.move (h.cleanup_idle (by simp [hphase]) (by simp [hphase])) (fun _ => hfolder) nofun nofun
  | raises =>
    simp only [BrowserCall.step] at hstep
    split at hstep <;> cases hstep
    next hphase =>
      have hfolder := h.folder
      rw [hphase] at hfolder
      exact h.move (h.cleanup_idle (by simp [hphase]) (by simp [hphase])) trivial nofun fun _ => hfolder
    next => exact Inv.discard call
  | harnessWrites | harnessReturns | reaped =>
    simp only [BrowserCall.step] at hstep
    split at hstep <;> cases hstep
    next hphase =>
    exact h.move (h.cleanup_idle (by simp [hphase]) (by simp [hphase])) trivial nofun nofun
  | toolSaves name | toolWritesProfile =>
    simp only [BrowserCall.step] at hstep
    split at hstep <;> cases hstep
    next htools => exact h.toolsRun htools _
  | threadStarts =>
    simp only [BrowserCall.step] at hstep
    split at hstep <;> cases hstep
    next work hphase =>
    have hfolder := h.folder
    rw [hphase] at hfolder
    refine h.move (h.cleanup_idle (by simp [hphase]) (by simp [hphase])) ?_ nofun nofun
    cases work with
    | makeFolder => exact fun _ => hfolder nofun
    | writeFile => trivial
    | remove target attempt => cases target <;> trivial
    | isThere target attempt => cases target <;> exact hfolder
    | artifacts => exact hfolder
  | threadEnds how =>
    simp only [BrowserCall.step] at hstep
    split at hstep <;> cases hstep
    next work hphase =>
    refine h.threadEnds hphase fun target attempt hwork => ?_
    subst hwork
    simpa only [RemovalSucceeds, hphase] using hremoval
  | resumes late raises =>
    simp only [BrowserCall.step] at hstep
    split at hstep <;> cases hstep
    next work result hphase => exact h.resume late raises hphase
  | pauseEnds raises =>
    simp only [BrowserCall.step] at hstep
    split at hstep
    next target attempt hphase =>
      have hidle : call.cleanup = .idle := h.cleanup_idle (by simp [hphase]) (by simp [hphase])
      have hfolder := h.folder
      rw [hphase] at hfolder
      split at hstep <;> cases hstep
      · cases target <;> exact h.move hidle trivial nofun nofun
      · exact h.afterRemoval hidle raises (by cases target <;> exact hfolder)
    next => cases hstep
  | cancel => exact h.cancel hkeeps hstep
  | strayEnds work how =>
    simp only [BrowserCall.step] at hstep
    split at hstep <;> cases hstep
    have hshrinks : Shrinks call.folder (work.run profiled call.folder how).2 := shrinks_of_stray hkeeps
    exact ⟨hshrinks.folderAt h.folder, hshrinks.folderAtCleanup h.cleanup,
      fun hidle => ⟨(h.idle hidle).1, fun hraised => hshrinks.eq_none ((h.idle hidle).2 hraised)⟩, h.busy⟩
  | cleanupReaped =>
    simp only [BrowserCall.step] at hstep
    split at hstep <;> cases hstep
    next hcleanup => exact h.moveCleanup (by simp [hcleanup]) (fun _ hfinished => by cases hfinished) nofun
  | cleanupThreadStarts =>
    simp only [BrowserCall.step] at hstep
    split at hstep <;> cases hstep
    next work hcleanup =>
    have hfolder := h.cleanup
    rw [hcleanup] at hfolder
    refine h.moveCleanup (by simp [hcleanup]) ?_ nofun
    cases work with
    | makeFolder | writeFile | artifacts => exact hfolder.elim
    | remove target attempt =>
      cases target with
      | profiles => exact hfolder.elim
      | folder => exact fun _ hfinished => by cases hfinished
    | isThere target attempt =>
      cases target with
      | profiles => exact hfolder.elim
      | folder => exact hfolder
  | cleanupThreadEnds how =>
    simp only [BrowserCall.step] at hstep
    split at hstep <;> cases hstep
    next work hcleanup =>
    refine h.cleanupThreadEnds hcleanup fun target attempt hwork => ?_
    subst hwork
    simpa only [RemovalSucceeds, hcleanup] using hremoval
  | cleanupResumes late =>
    simp only [BrowserCall.step] at hstep
    split at hstep <;> cases hstep
    next work result hcleanup => exact h.resumeCleanup late hcleanup
  | cleanupPauseEnds =>
    simp only [BrowserCall.step] at hstep
    split at hstep <;> cases hstep
    next attempt hcleanup =>
    have hfolder := h.cleanup
    rw [hcleanup] at hfolder
    have hbusy : call.cleanup ≠ .idle := by simp [hcleanup]
    split
    · exact h.moveCleanup hbusy (fun _ hfinished => by cases hfinished) nofun
    · exact h.moveCleanup hbusy hfolder nofun
  | cleanupAwaited =>
    simp only [BrowserCall.step] at hstep
    split at hstep <;> cases hstep
    next hphase hcleanup =>
    exact ⟨trivial, h.cleanup, fun hidle => absurd hidle (by simp [hcleanup]), fun _ => .inr rfl⟩

/-- In every run without a step that loses the folder, and whose awaited removals succeed, nothing is left
once the call and its clean-up have ended: the folder is there only with saved files that the call returned,
and then without profiles. -/
theorem leavesNothing_of_run (profiled : Bool) (events : List CallEvent) (call : BrowserCall)
    (hrun : runFrom (BrowserCall.step profiled) {} events = some call)
    (hremovals : Throughout (BrowserCall.step profiled) RemovalSucceeds {} events)
    (hkeeps : Throughout (BrowserCall.step profiled) (fun call event => ¬call.LosesFolder event) {} events)
    (hended : call.Ended) : call.LeavesNothing := by
  have hstart : Inv ({} : BrowserCall) := ⟨rfl, trivial, fun _ => ⟨nofun, nofun⟩, fun hbusy => absurd rfl hbusy⟩
  have hinv : Inv call := runFrom_invariant
    (fun call event call' h hsteps hstep => h.step hsteps.2 hsteps.1 hstep) hstart
    (hremovals.and hkeeps) hrun
  exact hinv.leavesNothing hended

def failedCall : List CallEvent :=
  [.prepared, .threadStarts, .threadEnds .succeeds, .resumes false false, .toolSaves "shot.png", .raises,
    .cleanupReaped, .cleanupThreadStarts, .cleanupThreadEnds .succeeds, .cleanupResumes false,
    .cleanupThreadStarts, .cleanupThreadEnds .succeeds, .cleanupResumes false, .cleanupAwaited]

theorem leavesNothing_of_failedCall : LeavesNothing ⟨.raised, .done, [], none⟩ :=
  leavesNothing_of_run true failedCall _ rfl (by decide) (by decide) ⟨.inl rfl, .inr rfl⟩

/-- The call is cancelled while its folder is being made: it goes on, and nothing removes it. -/
theorem cancelled_call_keeps_folder : ¬∀ (profiled : Bool) (events : List CallEvent) (call : BrowserCall),
    runFrom (BrowserCall.step profiled) {} events = some call →
      Throughout (BrowserCall.step profiled) RemovalSucceeds {} events → call.Ended → call.strays = [] →
        call.LeavesNothing := by
  intro h
  obtain ⟨⟨name, names, hphase⟩, -⟩ := h true
    [.prepared, .threadStarts, .cancel, .strayEnds .makeFolder .succeeds]
    ⟨.raised, .idle, [], some ⟨true, []⟩⟩ rfl (by decide) ⟨.inl rfl, .inl rfl⟩ rfl _ rfl
  cases hphase

end BrowserCall

end VidbyteSdk.Harnesses.Hostkit
