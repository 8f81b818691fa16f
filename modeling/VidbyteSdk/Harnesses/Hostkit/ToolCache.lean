import VidbyteSdk.Lib.Runs

/-!
# The browser tool cache

`BrowserToolCache.ensure` of `harnesses/native/hostkit/browser.py` with `_staging`, `_install`, `_publish` and
`NativeSkillFolders.remove`, for any number of calls that share a cache folder. A step is what one call does
from one suspension to the next, the start or the end of a step in a worker thread, or something `npm` or a
running removal does to a folder. A folder keeps its identity when it is renamed, and a removal that has opened
a folder goes on in it.
-/

namespace VidbyteSdk.Harnesses.Hostkit

open VidbyteSdk.Lib

inductive Place (T : Type) where
  | staging
  | published (tool : T)
  deriving DecidableEq

/-- A folder under its `mkdtemp` name, no two of which are equal; `installed` is what a successful `npm` left
in it. -/
structure ToolFolder (T : Type) where
  name : ℕ
  place : Place T := .staging
  files : List String := []
  installed : Option (List String) := none
  deriving DecidableEq

/-- The functions that `ensure` runs through `asyncio.to_thread`. -/
inductive Job where
  | entryIsFile
  | publishedExists
  | npmCliIsFile
  | makeStaging
  | stagedEntryIsFile
  | publish
  | remove
  deriving DecidableEq

instance Job.lawfulBEq : LawfulBEq (ℕ × Job) := inferInstance

inductive JobResult where
  | answer (value : Bool)
  | made (name : ℕ)
  | ok
  | failed
  deriving DecidableEq

/-- Where a call of `ensure` is; `returns` says how it goes on after its `finally`. -/
inductive EnsurePhase where
  | awaiting (job : Job) (progress : Progress JobResult)
  | installing
  | removing (returns : Bool) (progress : Progress JobResult)
  | returned
  | raised
  deriving DecidableEq

structure EnsureCall (T : Type) where
  tool : T
  staging : Option ℕ := none
  phase : EnsurePhase := .awaiting .entryIsFile .queued
  deriving DecidableEq

/-- The calls of all processes, the worker steps that run for them, and the folders of the cache. -/
structure ToolCache (T : Type) where
  calls : List (EnsureCall T) := []
  jobs : List (ℕ × Job) := []
  folders : List (ToolFolder T) := []
  nextName : ℕ := 0
  deriving DecidableEq

inductive CacheEvent (T : Type) where
  | begins (tool : T)
  | threadStarts (caller : ℕ)
  | threadEnds (caller : ℕ) (job : Job) (succeeds : Bool)
  | resumes (caller : ℕ)
  | npmWrites (caller : ℕ) (file : String)
  | npmEnds (caller : ℕ) (succeeds : Bool)
  | deletes (caller : ℕ) (file : String)
  | cancel (caller : ℕ)
  deriving DecidableEq

def CacheEvent.caller {T : Type} : CacheEvent T → Option ℕ
  | .begins _ => none
  | .threadStarts caller | .threadEnds caller _ _ | .resumes caller | .npmWrites caller _
  | .npmEnds caller _ | .deletes caller _ | .cancel caller => some caller

namespace ToolCache

variable {T : Type} [DecidableEq T] (entry : T → String)

def published (cache : ToolCache T) (tool : T) : Option (ToolFolder T) :=
  cache.folders.find? fun folder => folder.place = .published tool

def staged (cache : ToolCache T) (name : ℕ) : Option (ToolFolder T) :=
  cache.folders.find? fun folder => folder.name = name ∧ folder.place = .staging

/-- `entry.is_file()`. -/
def entryIsFile (cache : ToolCache T) (tool : T) : Bool :=
  (cache.published tool).any fun folder => entry tool ∈ folder.files

def change (cache : ToolCache T) (name : ℕ) (f : ToolFolder T → ToolFolder T) : ToolCache T :=
  { cache with folders := cache.folders.map fun folder => if folder.name = name then f folder else folder }

def setCall (cache : ToolCache T) (caller : ℕ) (call : EnsureCall T) : ToolCache T :=
  { cache with calls := cache.calls.set caller call }

/-- `os.rename` replaces nothing but an empty folder. -/
def CanRename (cache : ToolCache T) (tool : T) (name : ℕ) : Prop :=
  (cache.staged name).isSome ∧ ∀ folder ∈ cache.published tool, folder.files = []

instance (cache : ToolCache T) (tool : T) (name : ℕ) : Decidable (cache.CanRename tool name) :=
  inferInstanceAs (Decidable (_ ∧ ∀ folder ∈ cache.published tool, _))

/-- The rename of `_publish`. -/
def rename (cache : ToolCache T) (tool : T) (name : ℕ) : ToolCache T :=
  change { cache with folders := cache.folders.filter fun folder => folder.place ≠ .published tool } name
    fun folder => { folder with place := .published tool }

/-- `_publish`: the copy of a call that published first is as good. -/
def publish (cache : ToolCache T) (tool : T) (name : ℕ) (succeeds : Bool) : JobResult × ToolCache T :=
  if succeeds ∧ cache.CanRename tool name then (.ok, cache.rename tool name)
  else if cache.entryIsFile entry tool then (.ok, cache) else (.failed, cache)

/-- The end of `NativeSkillFolders.remove`: the emptied folder goes, if it is still under its name. -/
def removeFolder (cache : ToolCache T) (name : ℕ) (succeeds : Bool) : JobResult × ToolCache T :=
  if succeeds ∧ (cache.staged name).isSome then
    (.ok, { cache with folders := cache.folders.filter fun folder => folder.name ≠ name })
  else (.failed, cache)

def runJob (cache : ToolCache T) (call : EnsureCall T) (succeeds : Bool) : Job → JobResult × ToolCache T
  | .entryIsFile =>
    (if succeeds then .answer (cache.entryIsFile entry call.tool) else .failed, cache)
  | .publishedExists =>
    (if succeeds then .answer (cache.published call.tool).isSome else .failed, cache)
  | .npmCliIsFile => (.answer succeeds, cache)
  | .makeStaging =>
    if succeeds then
      (.made cache.nextName, { cache with
        folders := cache.folders ++ [{ name := cache.nextName }], nextName := cache.nextName + 1 })
    else (.failed, cache)
  | .stagedEntryIsFile =>
    (if succeeds then
      .answer ((call.staging.bind cache.staged).any fun folder => entry call.tool ∈ folder.files)
      else .failed, cache)
  | .publish =>
    match call.staging with
    | some name => cache.publish entry call.tool name succeeds
    | none => (.failed, cache)
  | .remove =>
    match call.staging with
    | some name => cache.removeFolder name succeeds
    | none => (.failed, cache)

end ToolCache

namespace EnsureCall

variable {T : Type}

def resume (call : EnsureCall T) : Option (EnsureCall T) :=
  match call.phase with
  | .awaiting .entryIsFile (.finished (.answer true)) => some { call with phase := .returned }
  | .awaiting .entryIsFile (.finished (.answer false)) =>
    some { call with phase := .awaiting .publishedExists .queued }
  | .awaiting .publishedExists (.finished (.answer false)) =>
    some { call with phase := .awaiting .npmCliIsFile .queued }
  | .awaiting .npmCliIsFile (.finished (.answer true)) =>
    some { call with phase := .awaiting .makeStaging .queued }
  | .awaiting .makeStaging (.finished (.made name)) =>
    some { call with staging := some name, phase := .installing }
  | .awaiting .stagedEntryIsFile (.finished (.answer true)) =>
    some { call with phase := .awaiting .publish .queued }
  | .awaiting .publish (.finished .ok) => some { call with phase := .removing true .queued }
  | .awaiting .stagedEntryIsFile (.finished _) | .awaiting .publish (.finished _) =>
    some { call with phase := .removing false .queued }
  | .awaiting _ (.finished _) => some { call with phase := .raised }
  | .removing returns (.finished _) =>
    some { call with phase := if returns then .returned else .raised }
  | _ => none

/-- A cancellation reaches the call at its await; the staging folder is removed in the `finally`. -/
def cancel (call : EnsureCall T) : Option (EnsureCall T) :=
  match call.phase with
  | .awaiting .stagedEntryIsFile _ | .awaiting .publish _ | .installing =>
    some { call with phase := .removing false .queued }
  | .awaiting _ _ | .removing _ _ => some { call with phase := .raised }
  | .returned | .raised => none

def deliver (call : EnsureCall T) (job : Job) (result : JobResult) : EnsureCall T :=
  match call.phase, job with
  | .awaiting job' .running, job =>
    if job' = job then { call with phase := .awaiting job (.finished result) } else call
  | .removing returns .running, .remove => { call with phase := .removing returns (.finished result) }
  | _, _ => call

end EnsureCall

namespace ToolCache

variable {T : Type} [DecidableEq T] (entry : T → String)

/-- A worker thread takes up the step a call waits for. A removal of a folder that is not there fails at
once. -/
def startJob (cache : ToolCache T) (caller : ℕ) (call : EnsureCall T) : Option (ToolCache T) :=
  match call.phase with
  | .awaiting job .queued =>
    some { cache.setCall caller { call with phase := .awaiting job .running } with
      jobs := cache.jobs ++ [(caller, job)] }
  | .removing returns .queued =>
    if (call.staging.bind cache.staged).isSome then
      some { cache.setCall caller { call with phase := .removing returns .running } with
        jobs := cache.jobs ++ [(caller, .remove)] }
    else some (cache.setCall caller { call with phase := .removing returns (.finished .failed) })
  | _ => none

def Emptied (cache : ToolCache T) (call : EnsureCall T) (succeeds : Bool) (job : Job) : Prop :=
  job = .remove → succeeds = true → ∀ folder ∈ call.staging.bind cache.staged, folder.files = []

instance (cache : ToolCache T) (call : EnsureCall T) (succeeds : Bool) (job : Job) :
    Decidable (cache.Emptied call succeeds job) :=
  inferInstanceAs (Decidable (_ → _ → ∀ folder ∈ call.staging.bind cache.staged, _))

def endJob (cache : ToolCache T) (caller : ℕ) (call : EnsureCall T) (job : Job) (succeeds : Bool) :
    ToolCache T :=
  let (result, after) := cache.runJob entry call succeeds job
  { after.setCall caller (call.deliver job result) with jobs := cache.jobs.erase (caller, job) }

def stepOf (cache : ToolCache T) (caller : ℕ) (call : EnsureCall T) : CacheEvent T → Option (ToolCache T)
  | .begins _ => none
  | .threadStarts _ => cache.startJob caller call
  | .threadEnds _ job succeeds =>
    if (caller, job) ∈ cache.jobs ∧ cache.Emptied call succeeds job then
      some (cache.endJob entry caller call job succeeds)
    else none
  | .resumes _ => call.resume.map (cache.setCall caller)
  | .npmWrites _ file =>
    match call.phase, call.staging with
    | .installing, some name =>
      some (cache.change name fun folder => { folder with files := folder.files ++ [file] })
    | _, _ => none
  | .npmEnds _ succeeds =>
    match call.phase, call.staging with
    | .installing, some name =>
      if succeeds then
        some ((cache.change name fun folder => { folder with installed := some folder.files }).setCall caller
          { call with phase := .awaiting .stagedEntryIsFile .queued })
      else some (cache.setCall caller { call with phase := .removing false .queued })
    | _, _ => none
  | .deletes _ file =>
    match call.staging with
    | some name =>
      if (caller, .remove) ∈ cache.jobs then
        some (cache.change name fun folder => { folder with files := folder.files.erase file })
      else none
    | none => none
  | .cancel _ => call.cancel.map (cache.setCall caller)

def step (cache : ToolCache T) : CacheEvent T → Option (ToolCache T)
  | .begins tool => some { cache with calls := cache.calls ++ [{ tool := tool }] }
  | event => do
    let caller ← event.caller
    let call ← cache.calls[caller]?
    cache.stepOf entry caller call event

end ToolCache

end VidbyteSdk.Harnesses.Hostkit
