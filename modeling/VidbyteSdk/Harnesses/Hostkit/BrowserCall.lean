import VidbyteSdk.Lib.Runs

/-!
# A browser call and its folder

`NativeBrowserRun.execute` with `NativeBrowserTools.prepare`, `complete`, `discard`, `_make_folder` and
`_remove` of `harnesses/native/hostkit/browser.py`, from one suspension to the next. The harness between
`prepare` and `complete` may do anything that its seam allows: write files into the folder, run its command,
return or raise. The tools save files until the reap of the call, or of the clean-up, is over.
-/

namespace VidbyteSdk.Harnesses.Hostkit

open VidbyteSdk.Lib

def BROWSER_ARTIFACTS_MAX_ITEMS : ℕ := 1000

def BROWSER_REMOVE_ATTEMPTS : ℕ := 5

structure CallFolder where
  profiles : Bool
  artifacts : List String
  deriving DecidableEq

/-- What `_remove` is called for: the profiles in the folder, or all of it. -/
inductive Target where
  | profiles | folder
  deriving DecidableEq

/-- The functions a call runs through `asyncio.to_thread`; `_remove` counts its attempts from zero. -/
inductive WorkerStep where
  | makeFolder
  | writeFile
  | remove (target : Target) (attempt : ℕ)
  | isThere (target : Target) (attempt : ℕ)
  | artifacts
  deriving DecidableEq

inductive WorkerResult where
  | done
  | failed
  | there (value : Bool)
  | files (names : List String)
  deriving DecidableEq

inductive WorkerEnd where
  | succeeds | fails | failsHalfway
  deriving DecidableEq

def Target.isThere (folder : Option CallFolder) : Target → Bool
  | .profiles => folder.any CallFolder.profiles
  | .folder => folder.isSome

/-- `NativeSkillFolders.remove`. -/
def Target.removed (folder : Option CallFolder) : Target → Option CallFolder
  | .profiles => folder.map fun f => { f with profiles := false }
  | .folder => none

def ensureFolder (folder : Option CallFolder) : CallFolder :=
  folder.getD { profiles := false, artifacts := [] }

/-- What a worker step does to the folder of a call; `profiled` says that a selected tool takes a
profile. A folder that cannot be made whole is removed again. -/
def WorkerStep.run (profiled : Bool) (folder : Option CallFolder) :
    WorkerStep → WorkerEnd → WorkerResult × Option CallFolder
  | .makeFolder, .succeeds => (.done, some { profiles := profiled, artifacts := [] })
  | .makeFolder, _ => (.failed, folder)
  | .writeFile, .succeeds => (.done, some (ensureFolder folder))
  | .writeFile, .failsHalfway => (.failed, some (ensureFolder folder))
  | .writeFile, .fails => (.failed, folder)
  | .remove target _, .succeeds => (.done, target.removed folder)
  | .isThere target _, .succeeds => (.there (target.isThere folder), folder)
  | .artifacts, .succeeds => (.files ((folder.map CallFolder.artifacts).getD []), folder)
  | .remove _ _, _ | .isThere _ _, _ | .artifacts, _ => (.failed, folder)

inductive Phase where
  | preparing
  | awaiting (work : WorkerStep) (progress : Progress WorkerResult)
  | harness
  | reaping
  | pausing (target : Target) (attempt : ℕ)
  | discarding
  | returned (artifacts : List String)
  | raised
  deriving DecidableEq

/-- Where the task of `discard` is. -/
inductive Cleanup where
  | idle
  | reaping
  | awaiting (work : WorkerStep) (progress : Progress WorkerResult)
  | pausing (attempt : ℕ)
  | done
  deriving DecidableEq

/-- A call, with the worker steps that outlived the cancellation of their await. -/
structure BrowserCall where
  phase : Phase := .preparing
  cleanup : Cleanup := .idle
  strays : List WorkerStep := []
  folder : Option CallFolder := none
  deriving DecidableEq

namespace BrowserCall

/-- The `except` of `execute`: the clean-up starts, and the call waits for it. -/
def discard (call : BrowserCall) : BrowserCall :=
  { call with phase := .discarding, cleanup := .reaping }

/-- The end of `complete`, which may not be able to build the result. -/
def finish (call : BrowserCall) (raises : Bool) (files : List String) : BrowserCall :=
  if raises then call.discard
  else { call with phase := .returned (files.take BROWSER_ARTIFACTS_MAX_ITEMS) }

/-- What `complete` does after `_remove`. -/
def afterRemoval (call : BrowserCall) (raises : Bool) : Target → BrowserCall
  | .profiles => { call with phase := .awaiting .artifacts .queued }
  | .folder => call.finish raises []

/-- The call takes the result of the step it waited for; `late` says that the deadline has passed. -/
def resume (call : BrowserCall) (late raises : Bool) : WorkerStep → WorkerResult → BrowserCall
  | .makeFolder, .done => { call with phase := .harness }
  | .makeFolder, _ => { call with phase := .raised }
  | .writeFile, _ => { call with phase := .harness }
  | .remove target attempt, _ => { call with phase := .awaiting (.isThere target attempt) .queued }
  | .isThere target attempt, .there value =>
    if value = false ∨ late then call.afterRemoval raises target
    else { call with phase := .pausing target attempt }
  | .artifacts, .files [] => { call with phase := .awaiting (.remove .folder 0) .queued }
  | .artifacts, .files (name :: names) => call.finish raises (name :: names)
  | .isThere _ _, _ | .artifacts, _ => call.discard

def cancel (call : BrowserCall) : Option BrowserCall :=
  match call.phase with
  | .preparing => some { call with phase := .raised }
  | .awaiting .makeFolder progress =>
    some { call with phase := .raised, strays := call.strays ++ strayOf .makeFolder progress }
  | .awaiting .writeFile progress =>
    some { call with phase := .harness, strays := call.strays ++ strayOf .writeFile progress }
  | .awaiting work progress =>
    some { call.discard with strays := call.strays ++ strayOf work progress }
  | .harness => some call
  | .reaping | .pausing _ _ => some call.discard
  | .discarding => some { call with phase := .raised }
  | .returned _ | .raised => none

def resumeCleanup (late : Bool) : WorkerStep → WorkerResult → Cleanup
  | .remove _ attempt, _ => .awaiting (.isThere .folder attempt) .queued
  | .isThere _ attempt, .there value => if value = false ∨ late then .done else .pausing attempt
  | _, _ => .done

def ToolsRun (call : BrowserCall) : Prop :=
  match call.cleanup, call.phase with
  | .reaping, _ => True
  | .idle, .harness | .idle, .awaiting .writeFile _ | .idle, .reaping => True
  | _, _ => False

instance (call : BrowserCall) : Decidable call.ToolsRun := by
  unfold ToolsRun
  split <;> infer_instance

end BrowserCall

inductive CallEvent where
  /-- `prepare` has come to the per-call folder. -/
  | prepared
  /-- A step of `prepare` before the folder, the harness, its reader or `require` raises. -/
  | raises
  | harnessWrites
  | harnessReturns
  | toolSaves (name : String)
  | toolWritesProfile
  | reaped
  | threadStarts
  | threadEnds (how : WorkerEnd)
  | resumes (late raises : Bool)
  | pauseEnds (raises : Bool)
  | cancel
  | strayEnds (work : WorkerStep) (how : WorkerEnd)
  | cleanupReaped
  | cleanupThreadStarts
  | cleanupThreadEnds (how : WorkerEnd)
  | cleanupResumes (late : Bool)
  | cleanupPauseEnds
  /-- The clean-up is over, and the call goes on with its exception. -/
  | cleanupAwaited
  deriving DecidableEq

namespace BrowserCall

variable (profiled : Bool)

def step (call : BrowserCall) : CallEvent → Option BrowserCall
  | .prepared =>
    match call.phase with
    | .preparing => some { call with phase := .awaiting .makeFolder .queued }
    | _ => none
  | .raises =>
    match call.phase with
    | .preparing => some { call with phase := .raised }
    | .harness => some call.discard
    | _ => none
  | .harnessWrites =>
    match call.phase with
    | .harness => some { call with phase := .awaiting .writeFile .queued }
    | _ => none
  | .harnessReturns =>
    match call.phase with
    | .harness => some { call with phase := .reaping }
    | _ => none
  | .toolSaves name =>
    if call.ToolsRun then
      some { call with folder := call.folder.map fun f => { f with artifacts := f.artifacts ++ [name] } }
    else none
  | .toolWritesProfile =>
    if call.ToolsRun then some { call with folder := call.folder.map fun f => { f with profiles := true } }
    else none
  | .reaped =>
    match call.phase with
    | .reaping => some { call with phase := .awaiting (.remove .profiles 0) .queued }
    | _ => none
  | .threadStarts =>
    match call.phase with
    | .awaiting work .queued => some { call with phase := .awaiting work .running }
    | _ => none
  | .threadEnds how =>
    match call.phase with
    | .awaiting work .running =>
      let (result, folder) := work.run profiled call.folder how
      some { call with phase := .awaiting work (.finished result), folder := folder }
    | _ => none
  | .resumes late raises =>
    match call.phase with
    | .awaiting work (.finished result) => some (call.resume late raises work result)
    | _ => none
  | .pauseEnds raises =>
    match call.phase with
    | .pausing target attempt =>
      if attempt + 1 < BROWSER_REMOVE_ATTEMPTS then
        some { call with phase := .awaiting (.remove target (attempt + 1)) .queued }
      else some (call.afterRemoval raises target)
    | _ => none
  | .cancel => call.cancel
  | .strayEnds work how =>
    if work ∈ call.strays then
      some { call with strays := call.strays.erase work, folder := (work.run profiled call.folder how).2 }
    else none
  | .cleanupReaped =>
    match call.cleanup with
    | .reaping => some { call with cleanup := .awaiting (.remove .folder 0) .queued }
    | _ => none
  | .cleanupThreadStarts =>
    match call.cleanup with
    | .awaiting work .queued => some { call with cleanup := .awaiting work .running }
    | _ => none
  | .cleanupThreadEnds how =>
    match call.cleanup with
    | .awaiting work .running =>
      let (result, folder) := work.run profiled call.folder how
      some { call with cleanup := .awaiting work (.finished result), folder := folder }
    | _ => none
  | .cleanupResumes late =>
    match call.cleanup with
    | .awaiting work (.finished result) => some { call with cleanup := resumeCleanup late work result }
    | _ => none
  | .cleanupPauseEnds =>
    match call.cleanup with
    | .pausing attempt =>
      some { call with
        cleanup := if attempt + 1 < BROWSER_REMOVE_ATTEMPTS then
          .awaiting (.remove .folder (attempt + 1)) .queued else .done }
    | _ => none
  | .cleanupAwaited =>
    match call.phase, call.cleanup with
    | .discarding, .done => some { call with phase := .raised }
    | _, _ => none

end BrowserCall

end VidbyteSdk.Harnesses.Hostkit
