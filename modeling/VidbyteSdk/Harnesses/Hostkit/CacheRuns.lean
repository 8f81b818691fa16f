import Mathlib.Data.List.Nodup
import VidbyteSdk.Harnesses.Hostkit.ToolCache

/-!
# Whole installs only

The invariant of the tool cache is stated for one call at a time (`CallOk`): what its folder holds where the
call is, and which of its worker steps may still run. A step changes the folder of its own call only, so the
other calls keep theirs by one frame lemma.
-/

namespace VidbyteSdk.Harnesses.Hostkit

open VidbyteSdk.Lib

namespace ToolCache

variable {T : Type} [DecidableEq T] (entry : T → String)

def Whole (tool : T) (folder : ToolFolder T) : Prop :=
  folder.installed = some folder.files ∧ entry tool ∈ folder.files

/-- The call waits with a staging folder that it has not taken. -/
def MadeUntaken : EnsurePhase → Prop
  | .awaiting .makeStaging (.finished (.made _)) => True
  | _ => False

instance (phase : EnsurePhase) : Decidable (MadeUntaken phase) := by
  unfold MadeUntaken
  split <;> infer_instance

/-- The call waits for a thread to remove its folder. -/
def RemovalQueued : EnsurePhase → Prop
  | .removing _ .queued => True
  | _ => False

instance (phase : EnsurePhase) : Decidable (RemovalQueued phase) := by
  unfold RemovalQueued
  split <;> infer_instance

/-- The step that breaks the cache: a staging folder is made although its call was cancelled, or dropped
before the call has taken it; its removal is cancelled before a thread has taken it up, or fails; or a rename
that outlived its await publishes the folder while it is being removed. -/
def Breaks (cache : ToolCache T) : CacheEvent T → Prop
  | .threadEnds caller .makeStaging succeeds => succeeds = true ∧
    ∀ call ∈ cache.calls[caller]?, call.phase ≠ .awaiting .makeStaging .running
  | .threadEnds caller .publish succeeds => succeeds = true ∧ (caller, .remove) ∈ cache.jobs ∧
    ∃ call ∈ cache.calls[caller]?, ∃ name ∈ call.staging, cache.CanRename call.tool name
  | .threadEnds _ .remove succeeds => succeeds = false
  | .cancel caller => ∃ call ∈ cache.calls[caller]?, MadeUntaken call.phase ∨
    RemovalQueued call.phase ∧ (call.staging.bind cache.staged).isSome = true
  | _ => False

instance (cache : ToolCache T) (event : CacheEvent T) : Decidable (cache.Breaks event) := by
  unfold Breaks
  split <;> infer_instance

/-! ### The invariant -/

def Named (call : EnsureCall T) (name : ℕ) : Prop :=
  call.staging = some name ∨ call.phase = .awaiting .makeStaging (.finished (.made name))

/-- The call has yet to remove the folder that it knows. -/
def HeldAt : EnsurePhase → Prop
  | .awaiting .makeStaging (.finished (.made _)) | .installing | .awaiting .stagedEntryIsFile _
  | .awaiting .publish _ | .removing _ .queued => True
  | _ => False

/-- The call has yet to remove its folder, or a worker thread does. -/
def Held (cache : ToolCache T) (caller : ℕ) (call : EnsureCall T) (name : ℕ) : Prop :=
  Named call name ∧ HeldAt call.phase ∨ call.staging = some name ∧ (caller, .remove) ∈ cache.jobs

def PhaseOk (staging : Option ℕ) : EnsurePhase → Prop
  | .awaiting .remove _ => False
  | .installing | .awaiting .stagedEntryIsFile _ | .awaiting .publish _ | .removing _ _ => staging.isSome
  | .awaiting _ _ => staging = none
  | .returned | .raised => True

/-- What is known of the call's folder where the call is. -/
def ContentAt (tool : T) (folder : ToolFolder T) : EnsurePhase → Prop
  | .awaiting .makeStaging (.finished (.made _)) | .installing => folder.place = .staging
  | .awaiting .stagedEntryIsFile progress => folder.place = .staging ∧
    folder.installed = some folder.files ∧
      (progress = .finished (.answer true) → entry tool ∈ folder.files)
  | .awaiting .publish progress =>
    (progress = .queued → folder.place = .staging) ∧ Whole entry tool folder
  | _ => True

def RemovalBegun : EnsurePhase → Prop
  | .removing _ progress => progress ≠ .queued
  | .returned | .raised => True
  | _ => False

def RenameBegun : EnsurePhase → Prop
  | .awaiting .publish progress => progress ≠ .queued
  | .removing _ _ | .returned | .raised => True
  | _ => False

def Returns : EnsurePhase → Prop
  | .returned | .removing true _ | .awaiting .entryIsFile (.finished (.answer true))
  | .awaiting .publish (.finished .ok) => True
  | _ => False

structure CallOk (cache : ToolCache T) (caller : ℕ) (call : EnsureCall T) : Prop where
  phase : PhaseOk call.staging call.phase
  named : ∀ name, Named call name → name < cache.nextName
  content : ∀ folder ∈ cache.folders, Named call folder.name →
    ContentAt entry call.tool folder call.phase
  removes : (caller, .remove) ∈ cache.jobs → RemovalBegun call.phase ∧
    ∀ folder ∈ cache.folders, call.staging = some folder.name → folder.place = .staging
  publishes : (caller, .publish) ∈ cache.jobs → RenameBegun call.phase ∧
    ∀ folder ∈ cache.folders, call.staging = some folder.name → folder.place = .staging →
      (caller, .remove) ∈ cache.jobs ∨ Whole entry call.tool folder
  returns : Returns call.phase → cache.entryIsFile entry call.tool = true

structure FoldersOk (cache : ToolCache T) : Prop where
  names : ∀ folder ∈ cache.folders, folder.name < cache.nextName
  nodup : (cache.folders.map ToolFolder.name).Nodup
  whole : ∀ folder ∈ cache.folders, ∀ tool, folder.place = .published tool → Whole entry tool folder
  unique : ∀ folder ∈ cache.folders, ∀ folder' ∈ cache.folders, ∀ tool,
    folder.place = .published tool → folder'.place = .published tool → folder = folder'

structure Inv (cache : ToolCache T) : Prop where
  folders : FoldersOk entry cache
  calls : ∀ caller call, cache.calls[caller]? = some call → CallOk entry cache caller call
  own : ∀ (caller caller' : ℕ) call call' name, cache.calls[caller]? = some call →
    cache.calls[caller']? = some call' → Named call name → Named call' name → caller = caller'
  held : ∀ folder ∈ cache.folders, folder.place = .staging →
    ∃ caller call, cache.calls[caller]? = some call ∧ Held cache caller call folder.name
  callers : ∀ caller job, (caller, job) ∈ cache.jobs → caller < cache.calls.length

def Keeps (cache cache' : ToolCache T) : Prop :=
  ∀ tool folder, cache.published tool = some folder → cache'.published tool = some folder

variable {entry} {cache cache' : ToolCache T}

/-! ### Folders -/

omit [DecidableEq T] in
theorem FoldersOk.eq_of_name (h : FoldersOk entry cache) {folder folder' : ToolFolder T}
    (hmem : folder ∈ cache.folders) (hmem' : folder' ∈ cache.folders) (hname : folder.name = folder'.name) :
    folder = folder' :=
  List.inj_on_of_nodup_map h.nodup hmem hmem' hname

variable {folder : ToolFolder T}

theorem FoldersOk.published_eq_some (h : FoldersOk entry cache) {tool : T} :
    cache.published tool = some folder ↔ folder ∈ cache.folders ∧ folder.place = .published tool := by
  constructor
  · intro hsome
    exact ⟨List.mem_of_find?_eq_some hsome, by simpa using List.find?_some hsome⟩
  · rintro ⟨hmem, hplace⟩
    have hsome : (cache.published tool).isSome :=
      List.find?_isSome.mpr ⟨folder, hmem, decide_eq_true hplace⟩
    obtain ⟨found, hfound⟩ := Option.isSome_iff_exists.mp hsome
    have hfoundPlace : found.place = .published tool := by simpa using List.find?_some hfound
    rw [hfound, h.unique found (List.mem_of_find?_eq_some hfound) folder hmem tool hfoundPlace hplace]

variable {name : ℕ}

theorem FoldersOk.staged_eq_some (h : FoldersOk entry cache) :
    cache.staged name = some folder ↔
      folder ∈ cache.folders ∧ folder.name = name ∧ folder.place = .staging := by
  constructor
  · intro hsome
    exact ⟨List.mem_of_find?_eq_some hsome, by simpa using List.find?_some hsome⟩
  · rintro ⟨hmem, hname, hplace⟩
    have hsome : (cache.staged name).isSome :=
      List.find?_isSome.mpr ⟨folder, hmem, decide_eq_true ⟨hname, hplace⟩⟩
    obtain ⟨found, hfound⟩ := Option.isSome_iff_exists.mp hsome
    have hfoundName : found.name = name := by
      have hboth : found.name = name ∧ found.place = .staging := by simpa using List.find?_some hfound
      exact hboth.1
    rw [hfound, h.eq_of_name (List.mem_of_find?_eq_some hfound) hmem (hfoundName.trans hname.symm)]

theorem FoldersOk.entryIsFile_iff (h : FoldersOk entry cache) {tool : T} :
    cache.entryIsFile entry tool = true ↔ ∃ folder ∈ cache.folders, folder.place = .published tool := by
  unfold entryIsFile
  constructor
  · intro hany
    obtain ⟨folder, hfolder, -⟩ := (Option.any_eq_true _ _).mp hany
    obtain ⟨hmem, hplace⟩ := h.published_eq_some.mp hfolder
    exact ⟨folder, hmem, hplace⟩
  · rintro ⟨folder, hmem, hplace⟩
    rw [h.published_eq_some.mpr ⟨hmem, hplace⟩]
    exact decide_eq_true (h.whole folder hmem tool hplace).2

theorem FoldersOk.keeps (h : FoldersOk entry cache) (h' : FoldersOk entry cache')
    (hmem : ∀ folder ∈ cache.folders, ∀ tool, folder.place = .published tool →
      folder ∈ cache'.folders) : Keeps cache cache' := by
  intro tool folder hfolder
  obtain ⟨hold, hplace⟩ := h.published_eq_some.mp hfolder
  exact h'.published_eq_some.mpr ⟨hmem folder hold tool hplace, hplace⟩

theorem Keeps.entryIsFile (h : Keeps cache cache') {tool : T} (hentry : cache.entryIsFile entry tool = true) :
    cache'.entryIsFile entry tool = true := by
  unfold ToolCache.entryIsFile at hentry ⊢
  obtain ⟨folder, hfolder, hfile⟩ := (Option.any_eq_true _ _).mp hentry
  rw [h tool folder hfolder]
  exact hfile

omit [DecidableEq T] in
theorem FoldersOk.change (h : FoldersOk entry cache) {f : ToolFolder T → ToolFolder T}
    (hname : ∀ folder, (f folder).name = folder.name) (hplace : ∀ folder, (f folder).place = folder.place)
    (hstaging : ∀ folder ∈ cache.folders, folder.name = name → folder.place = .staging) :
    FoldersOk entry (cache.change name f) := by
  have hsame : ∀ folder : ToolFolder T,
      (if folder.name = name then f folder else folder).name = folder.name := by
    intro folder
    split
    · exact hname folder
    · rfl
  -- a published folder is as it was
  have hkept : ∀ folder ∈ cache.folders, ∀ tool,
      (if folder.name = name then f folder else folder).place = .published tool →
        (if folder.name = name then f folder else folder) = folder ∧ folder.place = .published tool := by
    intro folder hfolder tool hpublished
    by_cases hthis : folder.name = name
    · rw [if_pos hthis, hplace, hstaging folder hfolder hthis] at hpublished
      cases hpublished
    · rw [if_neg hthis] at hpublished ⊢
      exact ⟨rfl, hpublished⟩
  refine ⟨fun folder' hfolder' => ?_, ?_, fun folder' hfolder' tool hpublished => ?_,
    fun first hfirst second hsecond tool hpublished hpublished' => ?_⟩
  · obtain ⟨folder, hfolder, rfl⟩ := List.mem_map.mp hfolder'
    rw [hsame]
    exact h.names folder hfolder
  · have hnames : (cache.change name f).folders.map ToolFolder.name = cache.folders.map ToolFolder.name := by
      unfold ToolCache.change
      rw [List.map_map]
      exact List.map_congr_left fun folder _ => hsame folder
    rw [hnames]
    exact h.nodup
  · obtain ⟨folder, hfolder, rfl⟩ := List.mem_map.mp hfolder'
    obtain ⟨hsame', hplace'⟩ := hkept folder hfolder tool hpublished
    rw [hsame']
    exact h.whole folder hfolder tool hplace'
  · obtain ⟨folder, hfolder, rfl⟩ := List.mem_map.mp hfirst
    obtain ⟨folder', hfolder', rfl⟩ := List.mem_map.mp hsecond
    obtain ⟨hsame, hplace⟩ := hkept folder hfolder tool hpublished
    obtain ⟨hsame', hplace'⟩ := hkept folder' hfolder' tool hpublished'
    rw [hsame, hsame']
    exact h.unique folder hfolder folder' hfolder' tool hplace hplace'

/-! ### One step changes one call -/

theorem CallOk.frame {caller : ℕ} {call : EnsureCall T} (h : CallOk entry cache caller call)
    (hnames : cache.nextName ≤ cache'.nextName) (hkeeps : Keeps cache cache')
    (hjobs : ∀ job, (caller, job) ∈ cache'.jobs ↔ (caller, job) ∈ cache.jobs)
    (hfolders : ∀ folder ∈ cache'.folders, Named call folder.name → folder ∈ cache.folders) :
    CallOk entry cache' caller call where
  phase := h.phase
  named name hname := Nat.lt_of_lt_of_le (h.named name hname) hnames
  content folder hfolder hname := h.content folder (hfolders folder hfolder hname) hname
  removes hjob := by
    obtain ⟨hphase, hplace⟩ := h.removes ((hjobs _).mp hjob)
    exact ⟨hphase, fun folder hfolder hname => hplace folder (hfolders folder hfolder (.inl hname)) hname⟩
  publishes hjob := by
    obtain ⟨hphase, hwhole⟩ := h.publishes ((hjobs _).mp hjob)
    refine ⟨hphase, fun folder hfolder hname hplace => ?_⟩
    rw [hjobs]
    exact hwhole folder (hfolders folder hfolder (.inl hname)) hname hplace
  returns hreturns := hkeeps.entryIsFile (h.returns hreturns)

omit [DecidableEq T] in
theorem Held.named {caller : ℕ} {call : EnsureCall T} (h : Held cache caller call name) :
    Named call name := by
  rcases h with ⟨hnamed, -⟩ | ⟨hstaging, -⟩
  · exact hnamed
  · exact .inl hstaging

/-- A step of one call: it changes its own folder, or makes a new one. -/
structure Moves (cache cache' : ToolCache T) (caller : ℕ) (call call' : EnsureCall T) : Prop where
  calls : cache'.calls = cache.calls.set caller call'
  jobs : ∀ other job, other ≠ caller → ((other, job) ∈ cache'.jobs ↔ (other, job) ∈ cache.jobs)
  nextName : cache.nextName ≤ cache'.nextName
  changed : ∀ folder ∈ cache'.folders, folder ∈ cache.folders ∨ Named call' folder.name
  published : ∀ folder ∈ cache.folders, ∀ tool, folder.place = .published tool → folder ∈ cache'.folders
  named : ∀ name, Named call name → Named call' name
  fresh : ∀ name, Named call' name → Named call name ∨ cache.nextName ≤ name

theorem Inv.update (h : Inv entry cache) {caller : ℕ} {call call' : EnsureCall T}
    (hcall : cache.calls[caller]? = some call) (hmoves : Moves cache cache' caller call call')
    (hfolders : FoldersOk entry cache') (hok : CallOk entry cache' caller call')
    (hheld : ∀ folder ∈ cache'.folders, folder.place = .staging → Named call' folder.name →
      Held cache' caller call' folder.name) :
    Inv entry cache' ∧ Keeps cache cache' := by
  have hkeeps : Keeps cache cache' := h.folders.keeps hfolders hmoves.published
  have hlength : caller < cache.calls.length := (List.getElem?_eq_some_iff.mp hcall).1
  have hself : cache'.calls[caller]? = some call' := by
    rw [hmoves.calls, List.getElem?_set_self hlength]
  have hother : ∀ other, other ≠ caller → cache'.calls[other]? = cache.calls[other]? := by
    intro other hne
    rw [hmoves.calls, List.getElem?_set_ne hne.symm]
  -- a name of another call is none of this one
  have hapart : ∀ other call'' name, other ≠ caller → cache.calls[other]? = some call'' →
      Named call'' name → ¬Named call' name := by
    intro other call'' name hne hcall'' hname hname'
    rcases hmoves.fresh name hname' with hold | hnew
    · exact hne (h.own other caller call'' call name hcall'' hcall hname hold)
    · exact absurd ((h.calls other call'' hcall'').named name hname) (Nat.not_lt.mpr hnew)
  refine ⟨⟨hfolders, fun other call'' hcall'' => ?_, fun i j calli callj name hi hj hnamei hnamej => ?_,
    fun folder hfolder hplace => ?_, fun other job hjob => ?_⟩, hkeeps⟩
  · by_cases hne : other = caller
    · subst hne
      rw [hself] at hcall''
      cases hcall''
      exact hok
    · rw [hother other hne] at hcall''
      refine (h.calls other call'' hcall'').frame hmoves.nextName hkeeps
        (fun job => hmoves.jobs other job hne) fun folder hfolder hname => ?_
      exact (hmoves.changed folder hfolder).resolve_right
        (hapart other call'' folder.name hne hcall'' hname)
  · by_cases hine : i = caller
    · by_cases hjne : j = caller
      · exact hine.trans hjne.symm
      · subst hine
        rw [hself] at hi
        cases hi
        rw [hother j hjne] at hj
        exact absurd hnamei (hapart j callj name hjne hj hnamej)
    · rw [hother i hine] at hi
      by_cases hjne : j = caller
      · subst hjne
        rw [hself] at hj
        cases hj
        exact absurd hnamej (hapart i calli name hine hi hnamei)
      · rw [hother j hjne] at hj
        exact h.own i j calli callj name hi hj hnamei hnamej
  · by_cases hname : Named call' folder.name
    · exact ⟨caller, call', hself, hheld folder hfolder hplace hname⟩
    · obtain ⟨other, call'', hcall'', hheld''⟩ :=
        h.held folder ((hmoves.changed folder hfolder).resolve_right hname) hplace
      have hne : other ≠ caller := by
        rintro rfl
        rw [hcall] at hcall''
        cases hcall''
        exact hname (hmoves.named _ hheld''.named)
      refine ⟨other, call'', (hother other hne).trans hcall'', ?_⟩
      rcases hheld'' with hphase | ⟨hstaging, hjob⟩
      · exact .inl hphase
      · exact .inr ⟨hstaging, (hmoves.jobs other _ hne).mpr hjob⟩
  · rw [hmoves.calls, List.length_set]
    by_cases hne : other = caller
    · rw [hne]
      exact hlength
    · exact h.callers other job ((hmoves.jobs other job hne).mp hjob)

theorem Inv.heldBy (h : Inv entry cache) {caller : ℕ} {call : EnsureCall T}
    (hcall : cache.calls[caller]? = some call) (hfolder : folder ∈ cache.folders)
    (hplace : folder.place = .staging) (hnamed : Named call folder.name) :
    Held cache caller call folder.name := by
  obtain ⟨other, call', hcall', hheld⟩ := h.held folder hfolder hplace
  obtain rfl := h.own caller other call call' folder.name hcall hcall' hnamed hheld.named
  rw [hcall] at hcall'
  cases hcall'
  exact hheld

theorem Inv.move (h : Inv entry cache) {caller : ℕ} {call call' : EnsureCall T} {jobs : List (ℕ × Job)}
    (hcall : cache.calls[caller]? = some call)
    (hjobs : ∀ other job, other ≠ caller → ((other, job) ∈ jobs ↔ (other, job) ∈ cache.jobs))
    (hnamed : ∀ name, Named call' name ↔ Named call name)
    (hok : CallOk entry { cache.setCall caller call' with jobs := jobs } caller call')
    (hheld : ∀ folder ∈ cache.folders, folder.place = .staging → Held cache caller call folder.name →
      Held { cache.setCall caller call' with jobs := jobs } caller call' folder.name) :
    Inv entry { cache.setCall caller call' with jobs := jobs } ∧
      Keeps cache { cache.setCall caller call' with jobs := jobs } := by
  refine h.update hcall ⟨rfl, hjobs, Nat.le_refl _, fun folder hfolder => .inl hfolder,
    fun folder hfolder _ _ => hfolder, fun name hname => (hnamed name).mpr hname,
    fun name hname => .inl ((hnamed name).mp hname)⟩ ?_ hok fun folder hfolder hplace hname => ?_
  · exact ⟨h.folders.names, h.folders.nodup, h.folders.whole, h.folders.unique⟩
  · exact hheld folder hfolder hplace (h.heldBy hcall hfolder hplace ((hnamed _).mp hname))

/-! ### The steps of a call -/

variable {caller : ℕ} {call : EnsureCall T}

variable {phase : EnsurePhase}

theorem Inv.rephase (h : Inv entry cache) (hcall : cache.calls[caller]? = some call)
    (hmade : ∀ name, call.phase ≠ .awaiting .makeStaging (.finished (.made name)))
    (hmade' : ∀ name, phase ≠ .awaiting .makeStaging (.finished (.made name)))
    (hphase : PhaseOk call.staging phase)
    (hcontent : ∀ folder ∈ cache.folders, call.staging = some folder.name →
      ContentAt entry call.tool folder phase)
    (hremoves : (caller, .remove) ∈ cache.jobs → RemovalBegun phase)
    (hpublishes : (caller, .publish) ∈ cache.jobs → RenameBegun phase)
    (hreturns : Returns phase → cache.entryIsFile entry call.tool = true)
    (hheld : ∀ folder ∈ cache.folders, folder.place = .staging → call.staging = some folder.name →
      HeldAt call.phase → HeldAt phase) :
    Inv entry (cache.setCall caller { call with phase := phase }) ∧
      Keeps cache (cache.setCall caller { call with phase := phase }) := by
  have hok := h.calls caller call hcall
  have hnamed : ∀ name, Named { call with phase := phase } name ↔ call.staging = some name :=
    fun name => or_iff_left (hmade' name)
  have hnamed' : ∀ name, Named call name ↔ call.staging = some name := fun name => or_iff_left (hmade name)
  have hmoved : Inv entry { cache.setCall caller { call with phase := phase } with jobs := cache.jobs } ∧
      Keeps cache { cache.setCall caller { call with phase := phase } with jobs := cache.jobs } := by
    refine h.move hcall (fun _ _ _ => Iff.rfl) (fun name => (hnamed name).trans (hnamed' name).symm)
      ⟨hphase, fun name hname => hok.named name (.inl ((hnamed name).mp hname)),
        fun folder hfolder hname => hcontent folder hfolder ((hnamed _).mp hname), fun hjob => ?_,
        fun hjob => ?_, hreturns⟩ fun folder hfolder hplace hheldBefore => ?_
    · exact ⟨hremoves hjob, (hok.removes hjob).2⟩
    · exact ⟨hpublishes hjob, (hok.publishes hjob).2⟩
    · rcases hheldBefore with ⟨hname, hat⟩ | hjob
      · have hstaging := (hnamed' _).mp hname
        exact .inl ⟨.inl hstaging, hheld folder hfolder hplace hstaging hat⟩
      · exact .inr hjob
  exact hmoved

theorem Inv.startJob (h : Inv entry cache) (hcall : cache.calls[caller]? = some call)
    (hstep : cache.startJob caller call = some cache') : Inv entry cache' ∧ Keeps cache cache' := by
  have hok := h.calls caller call hcall
  have hjobs : ∀ job other job', other ≠ caller →
      ((other, job') ∈ cache.jobs ++ [(caller, job)] ↔ (other, job') ∈ cache.jobs) := by
    intro job other job' hne
    simp [hne]
  unfold ToolCache.startJob at hstep
  split at hstep
  next job hphase =>
    cases hstep
    have hphaseOk := hok.phase
    rw [hphase] at hphaseOk
    refine h.move hcall (hjobs job) (fun name => by simp [Named, hphase]) ⟨?_, ?_, ?_, ?_, ?_, ?_⟩ ?_
    · cases job <;> exact hphaseOk
    · exact fun name hname => hok.named name (.inl (by simpa [Named] using hname))
    · intro folder hfolder hname
      have hcontent := hok.content folder hfolder (.inl (by simpa [Named] using hname))
      rw [hphase] at hcontent
      cases job with
      | stagedEntryIsFile => exact ⟨hcontent.1, hcontent.2.1, nofun⟩
      | publish => exact ⟨nofun, hcontent.2⟩
      | _ => trivial
    · intro hjob
      rcases List.mem_append.mp hjob with hold | hnew
      · have hbegun := (hok.removes hold).1
        rw [hphase] at hbegun
        exact hbegun.elim
      · cases List.mem_singleton.mp hnew
        exact hphaseOk.elim
    · intro hjob
      rcases List.mem_append.mp hjob with hold | hnew
      · have hbegun := (hok.publishes hold).1
        rw [hphase] at hbegun
        cases job with
        | publish => exact absurd rfl hbegun
        | _ => exact hbegun.elim
      · cases List.mem_singleton.mp hnew
        refine ⟨nofun, fun folder hfolder hname _ => .inr ?_⟩
        have hcontent := hok.content folder hfolder (.inl hname)
        rw [hphase] at hcontent
        exact hcontent.2
    · intro hreturns
      cases job <;> exact hreturns.elim
    · intro folder _ _ hheld
      rcases hheld with ⟨hnamed, hphase'⟩ | ⟨hstaging, hjob⟩
      · refine .inl ⟨.inl (by simpa [Named, hphase] using hnamed), ?_⟩
        rw [hphase] at hphase'
        cases job with
        | _ => exact hphase'
      · exact .inr ⟨hstaging, List.mem_append_left _ hjob⟩
  next returns hphase =>
    have hstaging : ∀ name, Named call name ↔ call.staging = some name := by simp [Named, hphase]
    have hreturns : Returns (.removing returns .queued) → cache.entryIsFile entry call.tool = true :=
      fun hreturns => hok.returns (by rw [hphase]; exact hreturns)
    split at hstep
    next hstaged =>
      cases hstep
      obtain ⟨folder, hfolder⟩ := Option.isSome_iff_exists.mp hstaged
      obtain ⟨name, hname, hfound⟩ := Option.bind_eq_some_iff.mp hfolder
      obtain ⟨hmem, hfolderName, hplace⟩ := h.folders.staged_eq_some.mp hfound
      refine h.move hcall (hjobs .remove) (fun name => by simp [Named, hphase])
        ⟨by simp [PhaseOk, hname], ?_, fun _ _ _ => trivial, fun _ => ⟨nofun, ?_⟩, fun _ => ⟨trivial, ?_⟩,
          fun hthis => hreturns (by cases returns <;> exact hthis)⟩ ?_
      · exact fun name hname => hok.named name (.inl (by simpa [Named] using hname))
      · intro folder' hmem' hname'
        have hsame : folder' = folder := h.folders.eq_of_name hmem' hmem
          (by rw [hname] at hname'; exact (Option.some.inj hname').symm.trans hfolderName.symm)
        rw [hsame]
        exact hplace
      · exact fun _ _ _ _ => .inl (List.mem_append_right _ (List.mem_singleton_self _))
      · intro folder' _ _ hheld
        exact .inr ⟨(hstaging _).mp hheld.named, List.mem_append_right _ (List.mem_singleton_self _)⟩
    next hstaged =>
      cases hstep
      refine h.rephase hcall (by simp [hphase]) nofun ?_ (fun _ _ _ => trivial) (fun _ => nofun)
        (fun _ => trivial) (fun hthis => hreturns (by cases returns <;> exact hthis)) ?_
      · have hphaseOk := hok.phase
        rw [hphase] at hphaseOk
        exact hphaseOk
      · intro folder hfolder hplace hname
        have hfound : cache.staged folder.name = some folder :=
          h.folders.staged_eq_some.mpr ⟨hfolder, rfl, hplace⟩
        rw [hname, Option.bind_some, hfound] at hstaged
        exact absurd rfl hstaged
  next => cases hstep

variable {call' : EnsureCall T}

theorem Inv.cancel (h : Inv entry cache) (hcall : cache.calls[caller]? = some call)
    (hkeeps : ¬cache.Breaks (.cancel caller)) (hcancel : call.cancel = some call') :
    Inv entry (cache.setCall caller call') ∧ Keeps cache (cache.setCall caller call') := by
  have hok := h.calls caller call hcall
  have hphaseOk := hok.phase
  have hmade : ∀ name, call.phase ≠ .awaiting .makeStaging (.finished (.made name)) :=
    fun name hphase => hkeeps ⟨call, hcall, .inl (by rw [hphase]; trivial)⟩
  have hgone : ∀ returns, call.phase = .removing returns .queued → ∀ folder ∈ cache.folders,
      folder.place = .staging → call.staging ≠ some folder.name := by
    intro returns hphase folder hfolder hplace hname
    refine hkeeps ⟨call, hcall, .inr ⟨by rw [hphase]; trivial, ?_⟩⟩
    rw [hname, Option.bind_some, h.folders.staged_eq_some.mpr ⟨hfolder, rfl, hplace⟩]
    rfl
  -- the call has not begun to remove its folder, and now waits to
  have hfinally : PhaseOk call.staging (.removing false .queued) →
      ((caller, .remove) ∈ cache.jobs → RemovalBegun (.removing false .queued)) →
      Inv entry (cache.setCall caller { call with phase := .removing false .queued }) ∧
        Keeps cache (cache.setCall caller { call with phase := .removing false .queued }) :=
    fun hstaging hremoves => h.rephase hcall hmade nofun hstaging (fun _ _ _ => trivial) hremoves
      (fun _ => trivial) nofun fun _ _ _ _ _ => trivial
  have hraised : (∀ folder ∈ cache.folders, folder.place = .staging → call.staging = some folder.name →
        ¬HeldAt call.phase) →
      Inv entry (cache.setCall caller { call with phase := .raised }) ∧
        Keeps cache (cache.setCall caller { call with phase := .raised }) :=
    fun hnot => h.rephase hcall hmade nofun trivial (fun _ _ _ => trivial) (fun _ => trivial)
      (fun _ => trivial) nofun fun folder hfolder hplace hname hat =>
        (hnot folder hfolder hplace hname hat).elim
  have hremoves := fun hjob => (hok.removes hjob).1
  unfold EnsureCall.cancel at hcancel
  split at hcancel
  next progress hphase =>
    cases hcancel
    rw [hphase] at hphaseOk hremoves
    exact hfinally hphaseOk fun hjob => (hremoves hjob).elim
  next progress hphase =>
    cases hcancel
    rw [hphase] at hphaseOk hremoves
    exact hfinally hphaseOk fun hjob => (hremoves hjob).elim
  next hphase =>
    cases hcancel
    rw [hphase] at hphaseOk hremoves
    exact hfinally hphaseOk fun hjob => (hremoves hjob).elim
  next job progress hstaged hpublish hphase =>
    cases hcancel
    refine hraised fun folder _ _ _ hat => ?_
    rw [hphase] at hat
    cases job with
    | stagedEntryIsFile => exact hstaged rfl
    | publish => exact hpublish rfl
    | makeStaging =>
      unfold HeldAt at hat
      split at hat
      next name heq => exact hmade name (hphase.trans heq)
      all_goals first | exact hat | (rename_i heq; cases heq)
    | _ => exact hat
  next returns progress hphase =>
    cases hcancel
    refine hraised fun folder hfolder hplace hname hat => ?_
    rw [hphase] at hat
    cases progress with
    | queued => exact hgone returns hphase folder hfolder hplace hname
    | running | finished result => exact hat
  next => cases hcancel
  next => cases hcancel

theorem Inv.resume (h : Inv entry cache) (hcall : cache.calls[caller]? = some call)
    (hresume : call.resume = some call') :
    Inv entry (cache.setCall caller call') ∧ Keeps cache (cache.setCall caller call') := by
  have hok := h.calls caller call hcall
  have hphaseOk := hok.phase
  have hremoves := fun hjob => (hok.removes hjob).1
  have hpublishes := fun hjob => (hok.publishes hjob).1
  have hreturns := hok.returns
  have hcontent := hok.content
  unfold EnsureCall.resume at hresume
  split at hresume
  case h_1 hphase =>
    cases hresume
    rw [hphase] at hreturns
    exact h.rephase hcall (by simp [hphase]) nofun trivial (fun _ _ _ => trivial) (fun _ => trivial)
      (fun _ => trivial) (fun _ => hreturns trivial) (by simp [hphase, HeldAt])
  case h_2 hphase | h_3 hphase | h_4 hphase =>
    cases hresume
    rw [hphase] at hremoves hpublishes hphaseOk
    exact h.rephase hcall (by simp [hphase]) nofun hphaseOk (fun _ _ _ => trivial)
      (fun hjob => (hremoves hjob).elim) (fun hjob => (hpublishes hjob).elim) nofun
      (by simp [hphase, HeldAt])
  case h_5 name hphase =>
    cases hresume
    rw [hphase] at hremoves hpublishes hphaseOk
    have hstaging : call.staging = none := hphaseOk
    have hnamed : ∀ name', Named { call with staging := some name, phase := .installing } name' ↔
        Named call name' := by
      intro name'
      simp [Named, hphase, hstaging]
    have hmoved : Inv entry { cache.setCall caller
          { call with staging := some name, phase := .installing } with jobs := cache.jobs } ∧
        Keeps cache { cache.setCall caller
          { call with staging := some name, phase := .installing } with jobs := cache.jobs } := by
      refine h.move hcall (fun _ _ _ => Iff.rfl) hnamed
        ⟨rfl, fun name' hname => hok.named name' ((hnamed name').mp hname), fun folder hfolder hname => ?_,
          fun hjob => (hremoves hjob).elim, fun hjob => (hpublishes hjob).elim, nofun⟩
        fun folder _ _ hheld => .inl ⟨(hnamed _).mpr hheld.named, trivial⟩
      have hplace := hcontent folder hfolder ((hnamed _).mp hname)
      rw [hphase] at hplace
      exact hplace
    exact hmoved
  case h_6 hphase =>
    cases hresume
    rw [hphase] at hremoves hpublishes hcontent hphaseOk
    refine h.rephase hcall (by simp [hphase]) nofun hphaseOk (fun folder hfolder hname => ?_)
      (fun hjob => (hremoves hjob).elim) (fun hjob => (hpublishes hjob).elim) nofun
      (fun _ _ _ _ _ => trivial)
    obtain ⟨hplace, hinstalled, hentry⟩ := hcontent folder hfolder (.inl hname)
    exact ⟨fun _ => hplace, hinstalled, hentry rfl⟩
  case h_7 hphase =>
    cases hresume
    rw [hphase] at hremoves hreturns hphaseOk
    exact h.rephase hcall (by simp [hphase]) nofun hphaseOk (fun _ _ _ => trivial)
      (fun hjob => (hremoves hjob).elim) (fun _ => trivial) (fun _ => hreturns trivial)
      (fun _ _ _ _ _ => trivial)
  case h_8 hphase | h_9 hphase =>
    cases hresume
    rw [hphase] at hremoves hphaseOk
    exact h.rephase hcall (by simp [hphase]) nofun hphaseOk (fun _ _ _ => trivial)
      (fun hjob => (hremoves hjob).elim) (fun _ => trivial) nofun (fun _ _ _ _ _ => trivial)
  case h_10 job result _ _ _ _ hmade _ _ hstaged hpublish hphase =>
    cases hresume
    have hmade' : ∀ name, call.phase ≠ .awaiting .makeStaging (.finished (.made name)) := by
      intro name heq
      rw [hphase] at heq
      cases heq
      exact hmade name rfl rfl
    refine h.rephase hcall hmade' nofun trivial (fun _ _ _ => trivial) (fun _ => trivial)
      (fun _ => trivial) nofun fun _ _ _ _ hat => ?_
    rw [hphase] at hat
    cases job with
    | makeStaging =>
      cases result with
      | made name => exact (hmade name rfl rfl).elim
      | answer value | ok | failed => exact hat
    | stagedEntryIsFile => exact hstaged rfl
    | publish => exact hpublish rfl
    | _ => exact hat
  case h_11 returns result hphase =>
    cases hresume
    rw [hphase] at hremoves hreturns hphaseOk
    cases returns with
    | true =>
      exact h.rephase hcall (by simp [hphase]) nofun trivial (fun _ _ _ => trivial) (fun _ => trivial)
        (fun _ => trivial) (fun _ => hreturns trivial) (by simp [hphase, HeldAt])
    | false =>
      exact h.rephase hcall (by simp [hphase]) nofun trivial (fun _ _ _ => trivial) (fun _ => trivial)
        (fun _ => trivial) nofun (by simp [hphase, HeldAt])
  case h_12 => cases hresume

omit [DecidableEq T] in
theorem set_getElem? (hcall : cache.calls[caller]? = some call) : cache.calls.set caller call = cache.calls := by
  refine List.ext_getElem? fun i => ?_
  by_cases hi : i = caller
  · rw [hi, List.getElem?_set_self (List.getElem?_eq_some_iff.mp hcall).1, hcall]
  · rw [List.getElem?_set_ne (Ne.symm hi)]

theorem Inv.change (h : Inv entry cache) (hcall : cache.calls[caller]? = some call)
    (f : ToolFolder T → ToolFolder T) (phase : EnsurePhase) (hname : ∀ folder, (f folder).name = folder.name)
    (hplace : ∀ folder, (f folder).place = folder.place) (hstaging : call.staging = some name)
    (hunpublished : ∀ folder ∈ cache.folders, folder.name = name → folder.place = .staging)
    (hphase : PhaseOk (some name) phase)
    (hmade : ∀ name, call.phase ≠ .awaiting .makeStaging (.finished (.made name)))
    (hmade' : ∀ name, phase ≠ .awaiting .makeStaging (.finished (.made name)))
    (hcontent : ∀ folder ∈ cache.folders, folder.name = name → ContentAt entry call.tool (f folder) phase)
    (hremoves : (caller, .remove) ∈ cache.jobs → RemovalBegun phase)
    (hpublishes : (caller, .publish) ∈ cache.jobs → RenameBegun phase ∧ (caller, .remove) ∈ cache.jobs)
    (hreturns : Returns phase → Returns call.phase) (hheld : HeldAt call.phase → HeldAt phase) :
    Inv entry ((cache.change name f).setCall caller { call with phase := phase }) ∧
      Keeps cache ((cache.change name f).setCall caller { call with phase := phase }) := by
  have hok := h.calls caller call hcall
  have hnamed : ∀ name', Named { call with phase := phase } name' ↔ Named call name' :=
    fun name' => (or_iff_left (hmade' name')).trans (or_iff_left (hmade name')).symm
  have hmem : ∀ folder' ∈ (cache.change name f).folders, ∃ folder ∈ cache.folders,
      (if folder.name = name then f folder else folder) = folder' :=
    fun folder' hfolder' => List.mem_map.mp hfolder'
  have hkept : ∀ folder ∈ cache.folders, folder.name ≠ name → folder ∈ (cache.change name f).folders := by
    intro folder hfolder hne
    exact List.mem_map.mpr ⟨folder, hfolder, if_neg hne⟩
  have hfolders : FoldersOk entry (cache.change name f) := h.folders.change hname hplace hunpublished
  have hpublished : ∀ folder ∈ cache.folders, ∀ tool, folder.place = .published tool →
      folder ∈ (cache.change name f).folders := by
    intro folder hfolder tool hpublished
    refine hkept folder hfolder fun hthis => ?_
    rw [hunpublished folder hfolder hthis] at hpublished
    cases hpublished
  have hchanged : ∀ folder' ∈ (cache.change name f).folders, folder'.name = name →
      ∃ folder ∈ cache.folders, folder.name = name ∧ f folder = folder' := by
    intro folder' hfolder' hthis
    obtain ⟨folder, hfolder, rfl⟩ := hmem folder' hfolder'
    by_cases hname' : folder.name = name
    · exact ⟨folder, hfolder, hname', (if_pos hname').symm⟩
    · rw [if_neg hname'] at hthis
      exact absurd hthis hname'
  have hthis : ∀ folder' : ToolFolder T, call.staging = some folder'.name → folder'.name = name := by
    intro folder' hthis
    rw [hstaging] at hthis
    exact (Option.some.inj hthis).symm
  refine h.update hcall ⟨rfl, fun _ _ _ => Iff.rfl, Nat.le_refl _, fun folder' hfolder' => ?_, hpublished,
    fun name' hname' => (hnamed name').mpr hname', fun name' hname' => .inl ((hnamed name').mp hname')⟩
    ⟨hfolders.names, hfolders.nodup, hfolders.whole, hfolders.unique⟩
    ⟨by rw [hstaging]; exact hphase, fun name' hname' => hok.named name' ((hnamed name').mp hname'),
      fun folder' hfolder' hname' => ?_, fun hjob => ⟨hremoves hjob, fun folder' hfolder' hname' => ?_⟩,
      fun hjob => ⟨(hpublishes hjob).1, fun _ _ _ _ => .inl (hpublishes hjob).2⟩,
      fun hthis => (h.folders.keeps hfolders hpublished).entryIsFile (hok.returns (hreturns hthis))⟩
    fun folder' hfolder' hplace' hname' => ?_
  · obtain ⟨folder, hfolder, rfl⟩ := hmem folder' hfolder'
    by_cases hname' : folder.name = name
    · refine .inr (.inl ?_)
      rw [if_pos hname', hname, hname']
      exact hstaging
    · rw [if_neg hname']
      exact .inl hfolder
  · obtain ⟨folder, hfolder, hname'', rfl⟩ := hchanged folder' hfolder'
      (hthis folder' ((or_iff_left (hmade' _)).mp hname'))
    exact hcontent folder hfolder hname''
  · obtain ⟨folder, hfolder, hname'', rfl⟩ := hchanged folder' hfolder' (hthis folder' hname')
    rw [hplace]
    exact hunpublished folder hfolder hname''
  · have hstaging' : call.staging = some folder'.name := (or_iff_left (hmade' _)).mp hname'
    obtain ⟨folder, hfolder, hname'', rfl⟩ := hchanged folder' hfolder' (hthis folder' hstaging')
    rw [hname] at hname' hstaging' ⊢
    rcases h.heldBy hcall hfolder (hunpublished folder hfolder hname'') ((hnamed _).mp hname')
      with ⟨-, hat⟩ | hjob
    · exact .inl ⟨hname', hheld hat⟩
    · exact .inr hjob

/-! ### The ends of worker steps -/

omit [DecidableEq T] in
theorem deliver_cases (call : EnsureCall T) (job : Job) (result : JobResult) :
    call.deliver job result = call ∨
      (call.phase = .awaiting job .running ∧
        call.deliver job result = { call with phase := .awaiting job (.finished result) }) ∨
      ∃ returns, job = .remove ∧ call.phase = .removing returns .running ∧
        call.deliver job result = { call with phase := .removing returns (.finished result) } := by
  unfold EnsureCall.deliver
  split
  next hphase =>
    split
    next hjob => exact .inr (.inl ⟨hjob ▸ hphase, rfl⟩)
    next => exact .inl rfl
  next returns hphase => exact .inr (.inr ⟨returns, rfl, hphase, rfl⟩)
  next => exact .inl rfl

theorem mem_erase_iff {jobs : List (ℕ × Job)} {caller other : ℕ} {job job' : Job} (hne : other ≠ caller) :
    (other, job') ∈ jobs.erase (caller, job) ↔ (other, job') ∈ jobs :=
  List.mem_erase_of_ne fun h => hne (congrArg Prod.fst h)

theorem Inv.deliver (h : Inv entry cache) (hcall : cache.calls[caller]? = some call) {job : Job}
    {result : JobResult} (hmade : job = .makeStaging → ∀ name, result ≠ .made name)
    (hfound : job = .entryIsFile → result = .answer true → cache.entryIsFile entry call.tool = true)
    (hstaged : job = .stagedEntryIsFile → result = .answer true → ∀ folder ∈ cache.folders,
      call.staging = some folder.name → folder.place = .staging → entry call.tool ∈ folder.files)
    (hpublished : job = .publish → result = .ok → cache.entryIsFile entry call.tool = true)
    (hremoved : job = .remove → ∀ folder ∈ cache.folders, folder.place = .staging →
      call.staging ≠ some folder.name) :
    Inv entry { cache.setCall caller (call.deliver job result) with jobs := cache.jobs.erase (caller, job) } ∧
      Keeps cache
        { cache.setCall caller (call.deliver job result) with jobs := cache.jobs.erase (caller, job) } := by
  have hok := h.calls caller call hcall
  have hphaseOk := hok.phase
  have hjobs : ∀ other job', other ≠ caller →
      ((other, job') ∈ cache.jobs.erase (caller, job) ↔ (other, job') ∈ cache.jobs) :=
    fun other job' hne => mem_erase_iff hne
  -- a running removal of a folder that is still staged is not the step that ends
  have hstill : ∀ folder ∈ cache.folders, folder.place = .staging → call.staging = some folder.name →
      (caller, .remove) ∈ cache.jobs → (caller, .remove) ∈ cache.jobs.erase (caller, job) := by
    intro folder hfolder hplace hname hjob
    refine (List.mem_erase_of_ne fun heq => ?_).mpr hjob
    cases heq
    exact hremoved rfl folder hfolder hplace hname
  rcases deliver_cases call job result with hsame | ⟨hphase, hcall'⟩ | ⟨returns, rfl, hphase, hcall'⟩
  · rw [hsame]
    refine h.move hcall hjobs (fun _ => Iff.rfl) ⟨hphaseOk, hok.named, hok.content, fun hjob =>
      hok.removes (List.mem_of_mem_erase hjob), fun hjob => ?_, hok.returns⟩ fun folder hfolder hplace hheld => ?_
    · obtain ⟨hbegun, hwhole⟩ := hok.publishes (List.mem_of_mem_erase hjob)
      refine ⟨hbegun, fun folder hfolder hname hplace => ?_⟩
      exact (hwhole folder hfolder hname hplace).imp_left (hstill folder hfolder hplace hname)
    · rcases hheld with hat | ⟨hname, hjob⟩
      · exact .inl hat
      · exact .inr ⟨hname, hstill folder hfolder hplace hname hjob⟩
  · rw [hcall']
    have hcontent := hok.content
    have hpublishes := hok.publishes
    have hremoves := hok.removes
    rw [hphase] at hphaseOk hcontent hpublishes hremoves
    have hresult : ∀ name, EnsurePhase.awaiting job (.finished result) ≠
        .awaiting .makeStaging (.finished (.made name)) := by
      intro name heq
      cases heq
      exact hmade rfl name rfl
    have hnamed : ∀ name, Named { call with phase := .awaiting job (.finished result) } name ↔
        Named call name := by
      refine fun name => (or_iff_left (hresult name)).trans (or_iff_left ?_).symm
      rw [hphase]
      nofun
    refine h.move hcall hjobs hnamed ⟨?_, fun name hname => hok.named name ((hnamed name).mp hname),
      fun folder hfolder hname => ?_, fun hjob => (hremoves (List.mem_of_mem_erase hjob)).1.elim,
      fun hjob => ?_, fun hreturns => ?_⟩ fun folder hfolder hplace hheld => ?_
    · cases job <;> exact hphaseOk
    · have hbefore := hcontent folder hfolder ((hnamed _).mp hname)
      have hstaging : call.staging = some folder.name := (or_iff_left (hresult _)).mp hname
      cases job with
      | makeStaging =>
        cases result with
        | made name => exact (hmade rfl name rfl).elim
        | answer value | ok | failed => trivial
      | stagedEntryIsFile =>
        refine ⟨hbefore.1, hbefore.2.1, fun hanswer => ?_⟩
        exact hstaged rfl (Progress.finished.inj hanswer) folder hfolder hstaging hbefore.1
      | publish => exact ⟨nofun, hbefore.2⟩
      | _ => trivial
    · obtain ⟨hbegun, hwhole⟩ := hpublishes (List.mem_of_mem_erase hjob)
      cases job with
      | publish =>
        refine ⟨nofun, fun folder hfolder hname hplace => ?_⟩
        exact (hwhole folder hfolder hname hplace).imp_left (hstill folder hfolder hplace hname)
      | _ => exact hbegun.elim
    · unfold Returns at hreturns
      split at hreturns
      next heq => cases heq
      next heq => cases heq
      next heq => cases heq; exact hfound rfl rfl
      next heq => cases heq; exact hpublished rfl rfl
      next => exact hreturns.elim
    · rcases hheld with ⟨hname, hat⟩ | ⟨hname, hjob⟩
      · refine .inl ⟨(hnamed _).mpr hname, ?_⟩
        rw [hphase] at hat
        cases job with
        | stagedEntryIsFile | publish => trivial
        | _ => exact hat.elim
      · exact (hremoves hjob).1.elim
  · rw [hcall']
    have hreturns := hok.returns
    have hpublishes := hok.publishes
    rw [hphase] at hphaseOk hreturns hpublishes
    have hnamed : ∀ name, Named { call with phase := .removing returns (.finished result) } name ↔
        Named call name := by
      intro name
      simp [Named, hphase]
    refine h.move hcall hjobs hnamed ⟨hphaseOk, fun name hname => hok.named name ((hnamed name).mp hname),
      fun _ _ _ => trivial, fun hjob => ⟨nofun, (hok.removes (List.mem_of_mem_erase hjob)).2⟩,
      fun hjob => ⟨trivial, fun folder hfolder hname hplace => ?_⟩, fun hthis => ?_⟩
      fun folder hfolder hplace hheld => ?_
    · exact ((hpublishes (List.mem_of_mem_erase hjob)).2 folder hfolder hname hplace).imp_left
        (hstill folder hfolder hplace hname)
    · cases returns with
      | true => exact hreturns trivial
      | false => exact hthis.elim
    · refine absurd ((or_iff_left ?_).mp hheld.named) (hremoved rfl folder hfolder hplace)
      rw [hphase]
      nofun

theorem Inv.made (h : Inv entry cache) (hcall : cache.calls[caller]? = some call)
    (hphase : call.phase = .awaiting .makeStaging .running)
    (hcall' : call' = { call with phase := .awaiting .makeStaging (.finished (.made cache.nextName)) })
    (hcache' : cache' = { cache with
      calls := cache.calls.set caller call'
      jobs := cache.jobs.erase (caller, .makeStaging)
      folders := cache.folders ++ [{ name := cache.nextName }]
      nextName := cache.nextName + 1 }) :
    Inv entry cache' ∧ Keeps cache cache' := by
  have hok := h.calls caller call hcall
  have hstaging : call.staging = none := by
    have hphaseOk := hok.phase
    rw [hphase] at hphaseOk
    exact hphaseOk
  have hnamed : ∀ name, ¬Named call name := by
    intro name hname
    simp [Named, hstaging, hphase] at hname
  have hnamed' : ∀ name, Named call' name ↔ name = cache.nextName := by
    intro name
    subst hcall'
    simp [Named, hstaging, eq_comm]
  have hremoves := fun hjob => (hok.removes hjob).1
  have hpublishes := fun hjob => (hok.publishes hjob).1
  rw [hphase] at hremoves hpublishes
  have hmem : ∀ folder ∈ cache'.folders, folder ∈ cache.folders ∨ folder = { name := cache.nextName } := by
    intro folder hfolder
    subst hcache'
    exact (List.mem_append.mp hfolder).imp_right List.mem_singleton.mp
  have hfolders : FoldersOk entry cache' := by
    refine ⟨fun folder hfolder => ?_, ?_, fun folder hfolder tool hplace => ?_,
      fun folder hfolder folder' hfolder' tool hplace hplace' => ?_⟩
    · have hnext : cache'.nextName = cache.nextName + 1 := by rw [hcache']
      rw [hnext]
      rcases hmem folder hfolder with hold | rfl
      · exact Nat.lt_succ_of_lt (h.folders.names folder hold)
      · exact Nat.lt_succ_self _
    · subst hcache'
      simp only [List.map_append, List.map_cons, List.map_nil]
      refine List.nodup_append.mpr ⟨h.folders.nodup, List.nodup_singleton _, ?_⟩
      intro name hname name' hname' heq
      obtain ⟨folder, hfolder, rfl⟩ := List.mem_map.mp hname
      have hlt := h.folders.names folder hfolder
      rw [heq, List.mem_singleton.mp hname'] at hlt
      exact Nat.lt_irrefl _ hlt
    · rcases hmem folder hfolder with hold | rfl
      · exact h.folders.whole folder hold tool hplace
      · cases hplace
    · rcases hmem folder hfolder with hold | rfl
      · rcases hmem folder' hfolder' with hold' | rfl
        · exact h.folders.unique folder hold folder' hold' tool hplace hplace'
        · cases hplace'
      · cases hplace
  refine h.update hcall ⟨by rw [hcache'], fun other job hne => ?_, by rw [hcache']; exact Nat.le_succ _,
    fun folder hfolder => ?_, fun folder hfolder _ _ => ?_, fun name hname => (hnamed name hname).elim,
    fun name hname => .inr (Nat.le_of_eq ((hnamed' name).mp hname).symm)⟩ hfolders
    ⟨?_, fun name hname => ?_, fun folder hfolder hname => ?_, fun hjob => ?_, fun hjob => ?_, ?_⟩
    fun folder hfolder hplace hname => .inl ⟨hname, by rw [hcall']; trivial⟩
  · rw [hcache']
    exact mem_erase_iff hne
  · refine (hmem folder hfolder).imp_right fun hnew => (hnamed' _).mpr ?_
    rw [hnew]
  · rw [hcache']
    exact List.mem_append_left _ hfolder
  · subst hcall'
    exact hstaging
  · rw [(hnamed' name).mp hname, hcache']
    exact Nat.lt_succ_self _
  · subst hcall'
    rcases hmem folder hfolder with hold | rfl
    · exact absurd ((hnamed' _).mp hname) (Nat.ne_of_lt (h.folders.names folder hold))
    · rfl
  · rw [hcache'] at hjob
    exact (hremoves (List.mem_of_mem_erase hjob)).elim
  · rw [hcache'] at hjob
    exact (hpublishes (List.mem_of_mem_erase hjob)).elim
  · subst hcall'
    nofun

omit [DecidableEq T] in
theorem deliver_begun {job : Job} {result : JobResult} (hphaseOk : PhaseOk call.staging call.phase) :
    (call.deliver job result).staging = call.staging ∧ (call.deliver job result).tool = call.tool ∧
      PhaseOk call.staging (call.deliver job result).phase ∧
      (RenameBegun call.phase → RenameBegun (call.deliver job result).phase) ∧
      (RemovalBegun call.phase → RemovalBegun (call.deliver job result).phase) ∧
      (RemovalBegun call.phase → Returns (call.deliver job result).phase → Returns call.phase) := by
  rcases deliver_cases call job result with hsame | ⟨hphase, hcall'⟩ | ⟨returns, -, hphase, hcall'⟩
  · rw [hsame]
    exact ⟨rfl, rfl, hphaseOk, id, id, fun _ => id⟩
  · rw [hcall', hphase]
    rw [hphase] at hphaseOk
    refine ⟨rfl, rfl, ?_, fun hbegun => ?_, fun hbegun => hbegun.elim, fun hbegun => hbegun.elim⟩
    · cases job <;> exact hphaseOk
    · cases job with
      | publish => exact nofun
      | _ => exact hbegun.elim
  · rw [hcall', hphase]
    rw [hphase] at hphaseOk
    refine ⟨rfl, rfl, hphaseOk, fun _ => trivial, fun _ => nofun, fun _ hreturns => ?_⟩
    cases returns with
    | true => trivial
    | false => exact hreturns.elim

omit [DecidableEq T] in
theorem RenameBegun.made (h : RenameBegun phase) (name : ℕ) :
    phase ≠ .awaiting .makeStaging (.finished (.made name)) := by
  rintro rfl
  exact h

theorem RemovalBegun.renameBegun (h : RemovalBegun phase) : RenameBegun phase := by
  unfold RemovalBegun at h
  split at h <;> trivial

omit [DecidableEq T] in
theorem RemovalBegun.contentAt (h : RemovalBegun phase) (tool : T)
    (folder : ToolFolder T) : ContentAt entry tool folder phase := by
  unfold RemovalBegun at h
  split at h <;> trivial

theorem Inv.renamed (h : Inv entry cache) (hcall : cache.calls[caller]? = some call)
    (hname : call.staging = some name) (hjob : (caller, .publish) ∈ cache.jobs)
    (hremove : (caller, .remove) ∉ cache.jobs) (hcan : cache.CanRename call.tool name)
    (hcache' : cache' = { (cache.rename call.tool name).setCall caller (call.deliver .publish .ok) with
      jobs := cache.jobs.erase (caller, .publish) }) :
    Inv entry cache' ∧ Keeps cache cache' := by
  have hok := h.calls caller call hcall
  obtain ⟨hbegun, hwholes⟩ := hok.publishes hjob
  obtain ⟨hsome, hempty⟩ := hcan
  obtain ⟨folder, hfolder⟩ := Option.isSome_iff_exists.mp hsome
  obtain ⟨hmem, hfolderName, hplace⟩ := h.folders.staged_eq_some.mp hfolder
  have hwhole : Whole entry call.tool folder :=
    (hwholes folder hmem (by rw [hfolderName]; exact hname) hplace).resolve_left hremove
  -- whatever is published for the tool holds its entry, so that it is not empty
  have hnone : ∀ other ∈ cache.folders, other.place ≠ .published call.tool := by
    intro other hother hpublished
    have hentry := (h.folders.whole other hother call.tool hpublished).2
    rw [hempty other (h.folders.published_eq_some.mpr ⟨hother, hpublished⟩)] at hentry
    cases hentry
  have hfilter : (cache.folders.filter fun other => other.place ≠ .published call.tool) = cache.folders :=
    List.filter_eq_self.mpr fun other hother => decide_eq_true (hnone other hother)
  have heq : cache'.folders = cache.folders.map fun other =>
      if other.name = name then { other with place := .published call.tool } else other := by
    rw [hcache']
    show (cache.folders.filter fun other => other.place ≠ .published call.tool).map _ = _
    rw [hfilter]
  have hnamesKept : cache'.folders.map ToolFolder.name = cache.folders.map ToolFolder.name := by
    rw [heq, List.map_map]
    refine List.map_congr_left fun other _ => ?_
    simp only [Function.comp]
    split <;> rfl
  have hmemNew : ∀ other ∈ cache'.folders, other = { folder with place := .published call.tool } ∨
      other ∈ cache.folders ∧ other.name ≠ name := by
    intro other hother
    rw [heq] at hother
    obtain ⟨old, hold, rfl⟩ := List.mem_map.mp hother
    by_cases hthis : old.name = name
    · rw [if_pos hthis, h.folders.eq_of_name hold hmem (hthis.trans hfolderName.symm)]
      exact .inl rfl
    · rw [if_neg hthis]
      exact .inr ⟨hold, hthis⟩
  have hnew : { folder with place := .published call.tool } ∈ cache'.folders := by
    rw [heq]
    exact List.mem_map.mpr ⟨folder, hmem, if_pos hfolderName⟩
  have hkept : ∀ other ∈ cache.folders, other.name ≠ name → other ∈ cache'.folders := by
    intro other hother hne
    rw [heq]
    exact List.mem_map.mpr ⟨other, hother, if_neg hne⟩
  have hnext : cache'.nextName = cache.nextName := by rw [hcache']; rfl
  have hjobs : cache'.jobs = cache.jobs.erase (caller, .publish) := by rw [hcache']
  have hfolders : FoldersOk entry cache' := by
    refine ⟨fun other hother => ?_, by rw [hnamesKept]; exact h.folders.nodup, fun other hother tool hpublished => ?_,
      fun first hfirst second hsecond tool hpublished hpublished' => ?_⟩
    · rw [hnext]
      rcases hmemNew other hother with rfl | ⟨hold, -⟩
      · exact h.folders.names folder hmem
      · exact h.folders.names other hold
    · rcases hmemNew other hother with rfl | ⟨hold, -⟩
      · cases hpublished
        exact hwhole
      · exact h.folders.whole other hold tool hpublished
    · rcases hmemNew first hfirst with rfl | ⟨hold, -⟩
      · cases hpublished
        rcases hmemNew second hsecond with rfl | ⟨hold', -⟩
        · rfl
        · exact absurd hpublished' (hnone second hold')
      · rcases hmemNew second hsecond with rfl | ⟨hold', -⟩
        · cases hpublished'
          exact absurd hpublished (hnone first hold)
        · exact h.folders.unique first hold second hold' tool hpublished hpublished'
  have hdelivered : (call.deliver .publish .ok).staging = call.staging ∧
      (call.deliver .publish .ok).tool = call.tool ∧
      PhaseOk call.staging (call.deliver .publish .ok).phase ∧
      (RenameBegun call.phase → RenameBegun (call.deliver .publish .ok).phase) ∧ _ ∧ _ :=
    deliver_begun hok.phase
  obtain ⟨hstagingSame, htoolSame, hphaseOk, hrename, -, -⟩ := hdelivered
  have hnamed : ∀ name', Named (call.deliver .publish .ok) name' ↔ Named call name' := by
    intro name'
    unfold Named
    rw [hstagingSame, or_iff_left ((hrename hbegun).made name'), or_iff_left (hbegun.made name')]
  have hnamed' : ∀ name', Named (call.deliver .publish .ok) name' → name' = name := by
    intro name' hname'
    have hstaging := (or_iff_left (hbegun.made name')).mp ((hnamed name').mp hname')
    rw [hname] at hstaging
    exact (Option.some.inj hstaging).symm
  refine h.update hcall ⟨by rw [hcache']; rfl, fun other job hne => by rw [hjobs]; exact mem_erase_iff hne,
    Nat.le_of_eq hnext.symm, fun other hother => ?_, fun other hother tool hpublished => ?_,
    fun name' => (hnamed name').mpr, fun name' hname' => .inl ((hnamed name').mp hname')⟩ hfolders
    ⟨by rw [hstagingSame]; exact hphaseOk, fun name' hname' => ?_, fun other hother hname' => ?_,
      fun hthis => ?_, fun hthis => ⟨hrename hbegun, fun other hother hname' hstaged => ?_⟩, fun _ => ?_⟩
    fun other hother hstaged hname' => ?_
  · rcases hmemNew other hother with rfl | ⟨hold, -⟩
    · exact .inr ((hnamed _).mpr (.inl (by rw [hname]; exact congrArg some hfolderName.symm)))
    · exact .inl hold
  · refine hkept other hother fun hthis => ?_
    rw [h.folders.eq_of_name hother hmem (hthis.trans hfolderName.symm), hplace] at hpublished
    cases hpublished
  · rw [hnext]
    exact hok.named name' ((hnamed name').mp hname')
  · rcases hmemNew other hother with rfl | ⟨-, hne⟩
    · have hthis := hrename hbegun
      rw [htoolSame]
      unfold RenameBegun at hthis
      split at hthis
      next progress hphase =>
        rw [hphase]
        exact ⟨fun hqueued => absurd hqueued hthis, hwhole⟩
      next hphase => rw [hphase]; trivial
      next hphase => rw [hphase]; trivial
      next hphase => rw [hphase]; trivial
      next => exact hthis.elim
    · exact absurd (hnamed' _ hname') hne
  · rw [hjobs] at hthis
    exact absurd (List.mem_of_mem_erase hthis) hremove
  · rcases hmemNew other hother with rfl | ⟨-, hne⟩
    · cases hstaged
    · exact absurd (hnamed' _ (.inl hname')) hne
  · rw [htoolSame]
    exact hfolders.entryIsFile_iff.mpr ⟨_, hnew, rfl⟩
  · rcases hmemNew other hother with rfl | ⟨-, hne⟩
    · cases hstaged
    · exact absurd (hnamed' _ hname') hne

theorem Inv.removed (h : Inv entry cache) (hcall : cache.calls[caller]? = some call)
    (hname : call.staging = some name) (hjob : (caller, .remove) ∈ cache.jobs)
    (hcache' : cache' = { setCall { cache with
      folders := cache.folders.filter fun folder => folder.name ≠ name } caller (call.deliver .remove .ok) with
        jobs := cache.jobs.erase (caller, .remove) }) :
    Inv entry cache' ∧ Keeps cache cache' := by
  have hok := h.calls caller call hcall
  obtain ⟨hbegun, hplaces⟩ := hok.removes hjob
  have hmem : ∀ folder, folder ∈ cache'.folders ↔ folder ∈ cache.folders ∧ folder.name ≠ name := by
    intro folder
    rw [hcache']
    exact List.mem_filter.trans (and_congr_right fun _ => decide_eq_true_iff)
  have hsublist : cache'.folders.Sublist cache.folders := by
    rw [hcache']
    exact List.filter_sublist
  have hnext : cache'.nextName = cache.nextName := by rw [hcache']; rfl
  have hjobs : cache'.jobs = cache.jobs.erase (caller, .remove) := by rw [hcache']
  have hfolders : FoldersOk entry cache' :=
    ⟨fun folder hfolder => hnext ▸ h.folders.names folder (hsublist.subset hfolder),
      h.folders.nodup.sublist (hsublist.map _),
      fun folder hfolder => h.folders.whole folder (hsublist.subset hfolder),
      fun folder hfolder folder' hfolder' => h.folders.unique folder (hsublist.subset hfolder) folder'
        (hsublist.subset hfolder')⟩
  have hkept : ∀ folder ∈ cache.folders, ∀ tool, folder.place = .published tool →
      folder ∈ cache'.folders := by
    intro folder hfolder tool hplace
    refine (hmem folder).mpr ⟨hfolder, fun hthis => ?_⟩
    rw [hplaces folder hfolder (by rw [hthis]; exact hname)] at hplace
    cases hplace
  have hdelivered : (call.deliver .remove .ok).staging = call.staging ∧
      (call.deliver .remove .ok).tool = call.tool ∧
      PhaseOk call.staging (call.deliver .remove .ok).phase ∧ _ ∧
      (RemovalBegun call.phase → RemovalBegun (call.deliver .remove .ok).phase) ∧
      (RemovalBegun call.phase → Returns (call.deliver .remove .ok).phase → Returns call.phase) :=
    deliver_begun hok.phase
  obtain ⟨hstagingSame, htoolSame, hphaseOk, -, hremoval, hreturns⟩ := hdelivered
  have hnamed : ∀ name', Named (call.deliver .remove .ok) name' ↔ Named call name' := by
    intro name'
    unfold Named
    rw [hstagingSame, or_iff_left ((hremoval hbegun).renameBegun.made name'),
      or_iff_left (hbegun.renameBegun.made name')]
  have hnamed' : ∀ name', Named (call.deliver .remove .ok) name' → name' = name := by
    intro name' hname'
    have hstaging := (or_iff_left (hbegun.renameBegun.made name')).mp ((hnamed name').mp hname')
    rw [hname] at hstaging
    exact (Option.some.inj hstaging).symm
  refine h.update hcall ⟨by rw [hcache']; rfl, fun other job hne => by rw [hjobs]; exact mem_erase_iff hne,
    Nat.le_of_eq hnext.symm, fun folder hfolder => .inl (hsublist.subset hfolder), hkept,
    fun name' => (hnamed name').mpr, fun name' hname' => .inl ((hnamed name').mp hname')⟩ hfolders
    ⟨by rw [hstagingSame]; exact hphaseOk, fun name' hname' => ?_,
      fun folder _ _ => (hremoval hbegun).contentAt _ folder, fun _ => ⟨hremoval hbegun, fun folder hfolder hname' => ?_⟩,
      fun _ => ⟨(hremoval hbegun).renameBegun, fun folder hfolder hname' _ => ?_⟩, fun hthis => ?_⟩
    fun folder hfolder _ hname' => ?_
  · rw [hnext]
    exact hok.named name' ((hnamed name').mp hname')
  · exact absurd (hnamed' _ (.inl hname')) ((hmem folder).mp hfolder).2
  · exact absurd (hnamed' _ (.inl hname')) ((hmem folder).mp hfolder).2
  · rw [htoolSame]
    exact (h.folders.keeps hfolders hkept).entryIsFile (hok.returns (hreturns hbegun hthis))
  · exact absurd (hnamed' _ hname') ((hmem folder).mp hfolder).2

theorem Inv.endJob (h : Inv entry cache) (hcall : cache.calls[caller]? = some call) {job : Job}
    {succeeds : Bool} (hjob : (caller, job) ∈ cache.jobs)
    (hkeeps : ¬cache.Breaks (.threadEnds caller job succeeds)) :
    Inv entry (cache.endJob entry caller call job succeeds) ∧
      Keeps cache (cache.endJob entry caller call job succeeds) := by
  have hok := h.calls caller call hcall
  cases job with
  | entryIsFile =>
    refine h.deliver hcall nofun (fun _ hresult => ?_) nofun nofun nofun
    cases succeeds with
    | true => exact JobResult.answer.inj hresult
    | false => cases hresult
  | publishedExists => exact h.deliver hcall nofun nofun nofun nofun nofun
  | npmCliIsFile => exact h.deliver hcall nofun nofun nofun nofun nofun
  | makeStaging =>
    cases succeeds with
    | true =>
      have hphase : call.phase = .awaiting .makeStaging .running := by
        by_contra hphase
        refine hkeeps ⟨rfl, fun call' hcall' => ?_⟩
        rw [hcall] at hcall'
        cases hcall'
        exact hphase
      have hcall' : call.deliver .makeStaging (.made cache.nextName) =
          { call with phase := .awaiting .makeStaging (.finished (.made cache.nextName)) } := by
        unfold EnsureCall.deliver
        rw [hphase]
        exact if_pos rfl
      exact h.made hcall hphase hcall' rfl
    | false => exact h.deliver hcall (fun _ _ => nofun) nofun nofun nofun nofun
  | stagedEntryIsFile =>
    refine h.deliver hcall nofun nofun (fun _ hresult folder hfolder hname hplace => ?_) nofun nofun
    cases succeeds with
    | true =>
      have hany : ((call.staging.bind cache.staged).any fun folder => entry call.tool ∈ folder.files) = true :=
        JobResult.answer.inj hresult
      rw [hname, Option.bind_some, h.folders.staged_eq_some.mpr ⟨hfolder, rfl, hplace⟩] at hany
      exact of_decide_eq_true hany
    | false => cases hresult
  | publish =>
    cases hname : call.staging with
    | none =>
      have hsame : cache.endJob entry caller call .publish succeeds =
          { cache.setCall caller (call.deliver .publish .failed) with
            jobs := cache.jobs.erase (caller, .publish) } := by
        simp [ToolCache.endJob, runJob, hname]
      rw [hsame]
      exact h.deliver hcall nofun nofun nofun nofun nofun
    | some name =>
      by_cases hcan : succeeds = true ∧ cache.CanRename call.tool name
      · refine h.renamed hcall hname hjob (fun hremove => hkeeps ?_) hcan.2 ?_
        · exact ⟨hcan.1, hremove, call, hcall, name, hname, hcan.2⟩
        · simp only [ToolCache.endJob, runJob, hname, publish, if_pos hcan]
      · by_cases hentry : cache.entryIsFile entry call.tool = true
        · have hsame : cache.endJob entry caller call .publish succeeds =
              { cache.setCall caller (call.deliver .publish .ok) with
                jobs := cache.jobs.erase (caller, .publish) } := by
            simp only [ToolCache.endJob, runJob, hname, publish, if_neg hcan, if_pos hentry]
          rw [hsame]
          exact h.deliver hcall nofun nofun nofun (fun _ _ => hentry) nofun
        · have hsame : cache.endJob entry caller call .publish succeeds =
              { cache.setCall caller (call.deliver .publish .failed) with
                jobs := cache.jobs.erase (caller, .publish) } := by
            simp only [ToolCache.endJob, runJob, hname, publish, if_neg hcan, if_neg hentry]
          rw [hsame]
          exact h.deliver hcall nofun nofun nofun nofun nofun
  | remove =>
    have hsucceeds : succeeds = true := by simpa [Breaks] using hkeeps
    cases hname : call.staging with
    | none =>
      have hsame : cache.endJob entry caller call .remove succeeds =
          { cache.setCall caller (call.deliver .remove .failed) with
            jobs := cache.jobs.erase (caller, .remove) } := by
        simp [ToolCache.endJob, runJob, hname]
      rw [hsame]
      exact h.deliver hcall nofun nofun nofun nofun fun _ folder _ _ => by rw [hname]; nofun
    | some name =>
      by_cases hstaged : (cache.staged name).isSome = true
      · refine h.removed hcall hname hjob ?_
        simp only [ToolCache.endJob, runJob, hname, removeFolder, if_pos (And.intro hsucceeds hstaged)]
      · have hsame : cache.endJob entry caller call .remove succeeds =
            { cache.setCall caller (call.deliver .remove .failed) with
              jobs := cache.jobs.erase (caller, .remove) } := by
          simp only [ToolCache.endJob, runJob, hname, removeFolder, if_neg fun h => hstaged (And.right h)]
        rw [hsame]
        refine h.deliver hcall nofun nofun nofun nofun fun _ folder hfolder hplace hthis => hstaged ?_
        rw [hname] at hthis
        rw [h.folders.staged_eq_some.mpr ⟨hfolder, (Option.some.inj hthis).symm, hplace⟩]
        rfl

/-! ### Runs -/

theorem Inv.begins (h : Inv entry cache) (tool : T) :
    Inv entry { cache with calls := cache.calls ++ [{ tool := tool }] } ∧
      Keeps cache { cache with calls := cache.calls ++ [{ tool := tool }] } := by
  have hcalls : ∀ (i : ℕ) call, (cache.calls ++ [{ tool := tool }])[i]? = some call →
      cache.calls[i]? = some call ∨ i = cache.calls.length ∧ call = { tool := tool } := by
    intro i call hcall
    rcases Nat.lt_trichotomy i cache.calls.length with hlt | rfl | hgt
    · rw [List.getElem?_append_left hlt] at hcall
      exact .inl hcall
    · rw [List.getElem?_concat_length] at hcall
      exact .inr ⟨rfl, (Option.some.inj hcall).symm⟩
    · rw [List.getElem?_eq_none (by rw [List.length_append]; exact hgt)] at hcall
      cases hcall
  have hold : ∀ (i : ℕ) call, cache.calls[i]? = some call →
      (cache.calls ++ [{ tool := tool }])[i]? = some call := by
    intro i call hcall
    rw [List.getElem?_append_left (List.getElem?_eq_some_iff.mp hcall).1]
    exact hcall
  have hnew : ∀ job, (cache.calls.length, job) ∉ cache.jobs :=
    fun job hjob => Nat.lt_irrefl _ (h.callers _ job hjob)
  have hfolders : FoldersOk entry { cache with calls := cache.calls ++ [{ tool := tool }] } :=
    ⟨h.folders.names, h.folders.nodup, h.folders.whole, h.folders.unique⟩
  have hkeeps : Keeps cache { cache with calls := cache.calls ++ [{ tool := tool }] } := fun _ _ => id
  refine ⟨⟨hfolders, fun i call hcall => ?_, fun i j call call' name hcall hcall' hname hname' => ?_,
    fun folder hfolder hplace => ?_, fun i job hjob => ?_⟩, hkeeps⟩
  · rcases hcalls i call hcall with hbefore | ⟨rfl, rfl⟩
    · exact (h.calls i call hbefore).frame (Nat.le_refl _) hkeeps (fun _ => Iff.rfl) fun _ hfolder _ => hfolder
    · exact ⟨rfl, fun name hname => by simp [Named] at hname, fun _ _ _ => trivial,
        fun hjob => absurd hjob (hnew _), fun hjob => absurd hjob (hnew _), nofun⟩
  · rcases hcalls i call hcall with hbefore | ⟨rfl, rfl⟩
    · rcases hcalls j call' hcall' with hbefore' | ⟨rfl, rfl⟩
      · exact h.own i j call call' name hbefore hbefore' hname hname'
      · simp [Named] at hname'
    · simp [Named] at hname
  · obtain ⟨i, call, hcall, hheld⟩ := h.held folder hfolder hplace
    exact ⟨i, call, hold i call hcall, hheld⟩
  · exact Nat.lt_of_lt_of_le (h.callers i job hjob) (by simp)

/-- What `npm` and a running removal do to the folder of their call. -/
theorem Inv.stepOf (h : Inv entry cache) (hcall : cache.calls[caller]? = some call) {event : CacheEvent T}
    (hcaller : event.caller = some caller) (hkeeps : ¬cache.Breaks event)
    (hstep : cache.stepOf entry caller call event = some cache') : Inv entry cache' ∧ Keeps cache cache' := by
  have hok := h.calls caller call hcall
  have hinstalling : call.phase = .installing → ∀ name, call.staging = some name →
      ∀ folder ∈ cache.folders, folder.name = name → folder.place = .staging := by
    intro hphase name hname folder hfolder hthis
    have hcontent := hok.content folder hfolder (.inl (by rw [hname, hthis]))
    rw [hphase] at hcontent
    exact hcontent
  have hself : ∀ cache : ToolCache T, cache.calls[caller]? = some call → cache.setCall caller call = cache := by
    intro cache hcall
    unfold setCall
    rw [set_getElem? hcall]
  cases event with
  | begins tool => cases hcaller
  | threadStarts other =>
    cases hcaller
    exact h.startJob hcall hstep
  | threadEnds other job succeeds =>
    cases hcaller
    simp only [ToolCache.stepOf] at hstep
    split at hstep <;> cases hstep
    next hends => exact h.endJob hcall hends.1 hkeeps
  | resumes other =>
    cases hcaller
    obtain ⟨call', hresume, rfl⟩ := Option.map_eq_some_iff.mp hstep
    exact h.resume hcall hresume
  | cancel other =>
    cases hcaller
    obtain ⟨call', hcancel, rfl⟩ := Option.map_eq_some_iff.mp hstep
    exact h.cancel hcall hkeeps hcancel
  | npmWrites other file =>
    cases hcaller
    simp only [ToolCache.stepOf] at hstep
    split at hstep <;> cases hstep
    next name hphase hname =>
    have hchange : Inv entry ((cache.change name fun folder =>
          { folder with files := folder.files ++ [file] }).setCall caller { call with phase := call.phase }) ∧
        Keeps cache ((cache.change name fun folder =>
          { folder with files := folder.files ++ [file] }).setCall caller { call with phase := call.phase }) := by
      have hphaseOk := hok.phase
      rw [hname] at hphaseOk
      refine h.change hcall (fun folder => { folder with files := folder.files ++ [file] }) call.phase
        (fun _ => rfl) (fun _ => rfl) hname (hinstalling hphase name hname) hphaseOk
        (by simp [hphase]) (by simp [hphase]) (fun folder hfolder hthis => ?_)
        (fun hjob => (hok.removes hjob).1) (fun hjob => ?_) id id
      · rw [hphase]
        exact hinstalling hphase name hname folder hfolder hthis
      · have hbegun := (hok.publishes hjob).1
        rw [hphase] at hbegun
        exact hbegun.elim
    rw [hself (cache.change name _) hcall] at hchange
    exact hchange
  | npmEnds other succeeds =>
    cases hcaller
    simp only [ToolCache.stepOf] at hstep
    split at hstep
    next name hphase hname =>
      have hphaseOk := hok.phase
      have hremoves := fun hjob => (hok.removes hjob).1
      have hpublishes := fun hjob => (hok.publishes hjob).1
      rw [hphase] at hphaseOk hremoves hpublishes
      split at hstep <;> cases hstep
      · exact h.change hcall (fun folder => { folder with installed := some folder.files })
          (.awaiting .stagedEntryIsFile .queued) (fun _ => rfl) (fun _ => rfl) hname
          (hinstalling hphase name hname) rfl (by simp [hphase]) nofun
          (fun folder hfolder hthis => ⟨hinstalling hphase name hname folder hfolder hthis, rfl, nofun⟩)
          (fun hjob => (hremoves hjob).elim) (fun hjob => (hpublishes hjob).elim) nofun fun _ => trivial
      · exact h.rephase hcall (by simp [hphase]) nofun hphaseOk (fun _ _ _ => trivial)
          (fun hjob => (hremoves hjob).elim) (fun _ => trivial) nofun fun _ _ _ _ _ => trivial
    next => cases hstep
  | deletes other file =>
    cases hcaller
    simp only [ToolCache.stepOf] at hstep
    split at hstep
    next name hname =>
      split at hstep <;> cases hstep
      next hjob =>
      obtain ⟨hbegun, hplaces⟩ := hok.removes hjob
      have hphaseOk := hok.phase
      rw [hname] at hphaseOk
      have hchange : Inv entry ((cache.change name fun folder =>
            { folder with files := folder.files.erase file }).setCall caller { call with phase := call.phase }) ∧
          Keeps cache ((cache.change name fun folder =>
            { folder with files := folder.files.erase file }).setCall caller
              { call with phase := call.phase }) :=
        h.change hcall (fun folder => { folder with files := folder.files.erase file }) call.phase
          (fun _ => rfl) (fun _ => rfl) hname
          (fun folder hfolder hthis => hplaces folder hfolder (by rw [hname, hthis])) hphaseOk
          (hbegun.renameBegun.made) (hbegun.renameBegun.made)
          (fun folder _ _ => hbegun.contentAt call.tool _) (fun _ => hbegun)
          (fun hpublish => ⟨(hok.publishes hpublish).1, hjob⟩) id id
      rw [hself (cache.change name _) hcall] at hchange
      exact hchange
    next => cases hstep

theorem Inv.step (h : Inv entry cache) {event : CacheEvent T} (hkeeps : ¬cache.Breaks event)
    (hstep : cache.step entry event = some cache') : Inv entry cache' ∧ Keeps cache cache' := by
  have hcases : (∃ tool, event = .begins tool) ∨ ∃ caller call, event.caller = some caller ∧
      cache.calls[caller]? = some call ∧ cache.stepOf entry caller call event = some cache' := by
    cases event with
    | begins tool => exact .inl ⟨tool, rfl⟩
    | _ =>
      simp only [ToolCache.step, CacheEvent.caller, Option.bind_eq_bind, Option.bind_some] at hstep
      obtain ⟨call, hcall, hstep⟩ := Option.bind_eq_some_iff.mp hstep
      exact .inr ⟨_, call, rfl, hcall, hstep⟩
  rcases hcases with ⟨tool, rfl⟩ | ⟨caller, call, hcaller, hcall, hstepOf⟩
  · cases hstep
    exact h.begins tool
  · exact h.stepOf hcall hcaller hkeeps hstepOf

theorem Inv.start : Inv entry ({} : ToolCache T) where
  folders := ⟨fun _ h => absurd h List.not_mem_nil, List.nodup_nil, fun _ h => absurd h List.not_mem_nil,
    fun _ h => absurd h List.not_mem_nil⟩
  calls _ _ h := by simp at h
  own _ _ _ _ _ h := by simp at h
  held _ h := absurd h List.not_mem_nil
  callers _ _ h := absurd h List.not_mem_nil

theorem Inv.run (h : Inv entry cache) {events : List (CacheEvent T)}
    (hkeeps : Throughout (ToolCache.step entry) (fun cache event => ¬cache.Breaks event) cache events)
    (hrun : runFrom (ToolCache.step entry) cache events = some cache') :
    Inv entry cache' ∧ Keeps cache cache' := by
  have hstart : Inv entry cache ∧ Keeps cache cache := ⟨h, fun _ _ => id⟩
  refine runFrom_invariant (I := fun next => Inv entry next ∧ Keeps cache next)
    (fun next event after hnext hsteps hstep => ?_) hstart hkeeps hrun
  obtain ⟨hinv, hkept⟩ := hnext
  obtain ⟨hafter, hkept'⟩ := hinv.step hsteps hstep
  exact ⟨hafter, fun tool folder hfolder => hkept' tool folder (hkept tool folder hfolder)⟩

/-- In every run of any number of calls, in which no step breaks the cache, also when the run goes on with
other calls: what is published is a whole successful install and stays as it is, a call that has returned
names an entry in what is published, and once all calls and their worker steps have ended no staging folder is
left. -/
theorem publishes_whole_installs (entry : T → String) (events later : List (CacheEvent T))
    (cache cache' : ToolCache T) (hrun : runFrom (ToolCache.step entry) {} events = some cache)
    (hkeeps : Throughout (ToolCache.step entry) (fun cache event => ¬cache.Breaks event) {} events)
    (hlater : runFrom (ToolCache.step entry) cache later = some cache')
    (hkeeps' : Throughout (ToolCache.step entry) (fun cache event => ¬cache.Breaks event) cache later) :
    (∀ tool folder, cache.published tool = some folder →
      Whole entry tool folder ∧ cache'.published tool = some folder) ∧
    (∀ call ∈ cache.calls, call.phase = .returned → cache'.entryIsFile entry call.tool = true) ∧
    ((∀ call ∈ cache.calls, call.phase = .returned ∨ call.phase = .raised) → cache.jobs = [] →
      ∀ folder ∈ cache.folders, folder.place ≠ .staging) := by
  obtain ⟨hinv, -⟩ := Inv.start.run hkeeps hrun
  obtain ⟨-, hkept⟩ := hinv.run hkeeps' hlater
  refine ⟨fun tool folder hfolder => ⟨?_, hkept tool folder hfolder⟩, fun call hcall hphase => ?_,
    fun hended hjobs folder hfolder hplace => ?_⟩
  · obtain ⟨hmem, hplace⟩ := hinv.folders.published_eq_some.mp hfolder
    exact hinv.folders.whole folder hmem tool hplace
  · obtain ⟨caller, hcaller⟩ := List.mem_iff_getElem?.mp hcall
    exact hkept.entryIsFile ((hinv.calls caller call hcaller).returns (by rw [hphase]; trivial))
  · obtain ⟨caller, call, hcall, hheld⟩ := hinv.held folder hfolder hplace
    rcases hheld with ⟨-, hat⟩ | ⟨-, hjob⟩
    · rcases hended call (List.mem_of_getElem? hcall) with hphase | hphase <;> rw [hphase] at hat <;> exact hat
    · rw [hjobs] at hjob
      cases hjob

/-- The events of the step a call waits for, until the call takes its result. -/
def taken {T : Type} (caller : ℕ) (job : Job) : List (CacheEvent T) :=
  [.threadStarts caller, .threadEnds caller job true, .resumes caller]

/-- The first call: `npm` has installed the tool, and its entry was seen. -/
def installed : List (CacheEvent Unit) :=
  [.begins ()] ++ taken 0 .entryIsFile ++ taken 0 .publishedExists ++ taken 0 .npmCliIsFile ++
    taken 0 .makeStaging ++ [.npmWrites 0 "cli.js", .npmEnds 0 true] ++ taken 0 .stagedEntryIsFile

/-- Its folder is published, and a second call finds it. -/
theorem publishes_whole_installs_twice :
    ToolCache.entryIsFile (T := Unit) (fun _ => "cli.js")
      { calls := [⟨(), some 0, .returned⟩, ⟨(), none, .returned⟩]
        folders := [⟨0, .published (), ["cli.js"], some ["cli.js"]⟩]
        nextName := 1 } () = true :=
  (publishes_whole_installs (fun _ => "cli.js")
    (installed ++ taken 0 .publish ++ [.threadStarts 0, .resumes 0]) ([.begins ()] ++ taken 1 .entryIsFile)
    { calls := [⟨(), some 0, .returned⟩]
      folders := [⟨0, .published (), ["cli.js"], some ["cli.js"]⟩]
      nextName := 1 } _ (by decide) (by decide) (by decide) (by decide)).2.1
    ⟨(), some 0, .returned⟩ (List.mem_singleton_self _) rfl

/-- A rename outlives its cancelled call and publishes what its removal has left; and a folder made for a
cancelled call stays in the staging root. -/
theorem cancelled_calls_break_the_cache :
    (¬∀ (events : List (CacheEvent Unit)) (cache : ToolCache Unit),
      runFrom (ToolCache.step fun _ => "cli.js") {} events = some cache →
        ∀ tool folder, cache.published tool = some folder → Whole (fun _ => "cli.js") tool folder) ∧
    ¬∀ (events : List (CacheEvent Unit)) (cache : ToolCache Unit),
      runFrom (ToolCache.step fun _ => "cli.js") {} events = some cache →
        (∀ call ∈ cache.calls, call.phase = .returned ∨ call.phase = .raised) → cache.jobs = [] →
          ∀ folder ∈ cache.folders, folder.place ≠ .staging := by
  constructor
  · intro h
    have hwhole := h (installed ++ [.threadStarts 0, .cancel 0, .threadStarts 0, .deletes 0 "cli.js",
        .threadEnds 0 .publish true])
      { calls := [⟨(), some 0, .removing false .running⟩]
        jobs := [(0, .remove)]
        folders := [⟨0, .published (), [], some ["cli.js"]⟩]
        nextName := 1 } (by decide) () _ rfl
    exact absurd hwhole.2 (by decide)
  · intro h
    have hnone := h ([.begins ()] ++ taken 0 .entryIsFile ++ taken 0 .publishedExists ++
        taken 0 .npmCliIsFile ++ [.threadStarts 0, .cancel 0, .threadEnds 0 .makeStaging true])
      { calls := [⟨(), none, .raised⟩], folders := [⟨0, .staging, [], none⟩], nextName := 1 }
      (by decide) (by simp) rfl _ (List.mem_singleton_self _)
    exact hnone rfl

end ToolCache

end VidbyteSdk.Harnesses.Hostkit
