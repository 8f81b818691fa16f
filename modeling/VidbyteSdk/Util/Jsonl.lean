import VidbyteSdk.Lib.JsonLaws
import VidbyteSdk.Lib.Lines

/-!
# The append-only JSON-lines file

`AppendOnlyJsonl` over the text of its file. The file holds ASCII text only, since nothing but
`append` writes it, so its bytes and its characters are the same. A run is any order of reads,
appends, appends that stop half-way, and restarts; what an append that stops leaves behind is the
first characters of what it was writing.
-/

namespace VidbyteSdk.Util

open VidbyteSdk.Lib

/-- A record: a mapping that `json.dumps` serializes as an object. -/
abbrev Record := List (Text × Json)

/-- `json.dumps(record)` -/
def recordText (record : Record) : Text := Json.dumps true (.obj record)

/-- The file, if it exists, and the object's `_repair`. -/
structure AppendOnlyJsonl where
  file : Option Text
  repair : Option (Nat × Text)

namespace AppendOnlyJsonl

def data (log : AppendOnlyJsonl) : Text := log.file.getD []

def reopened (log : AppendOnlyJsonl) : AppendOnlyJsonl := { log with repair := none }

/-- `bytes.strip` would remove it. -/
def isStripped (c : CodePoint) : Bool := (0x09 ≤ c.val && c.val ≤ 0x0D) || c = 0x20

/-- The text `read` returns; `none` when the file does not exist. -/
def read (log : AppendOnlyJsonl) : Option (Text × AppendOnlyJsonl) :=
  match log.file with
  | none => none
  | some data =>
    match rpartition data with
    | (head, sep, tail) =>
      if tail.all isStripped then some (data, { log with repair := none })
      else
        match Json.loads tail with
        | none =>
          some (head ++ sep, { log with repair := some (head.length + sep.length, []) })
        | some _ => some (data, { log with repair := some (data.length, [newline]) })

/-- `os.truncate`, which fills what it adds with zeros. -/
def truncated (offset : Nat) (data : Text) : Text :=
  data.take offset ++ List.replicate (offset - data.length) 0

/-- The repair at the start of `append`, and the prefix of what it then writes. -/
def repaired (log : AppendOnlyJsonl) : AppendOnlyJsonl × Text :=
  match log.repair with
  | none => (log, [])
  | some (offset, start) =>
    ({ file := log.file.map (truncated offset), repair := none }, start)

/-- `append` up to the `k`-th character that it writes. -/
def appendCut (log : AppendOnlyJsonl) (record : Record) (k : Nat) : AppendOnlyJsonl :=
  { log.repaired.1 with
    file := some (log.repaired.1.data ++
      (log.repaired.2 ++ recordText record ++ [newline]).take k) }

/-- `append`, to its end. -/
def append (log : AppendOnlyJsonl) (record : Record) : AppendOnlyJsonl :=
  { log.repaired.1 with
    file := some (log.repaired.1.data ++ (log.repaired.2 ++ recordText record ++ [newline])) }

/-- `append` of a mapping that `json.dumps` rejects, which raises with the file open. -/
def appendRejected (log : AppendOnlyJsonl) : AppendOnlyJsonl :=
  { log.repaired.1 with file := some log.repaired.1.data }

end AppendOnlyJsonl

/-- What can happen to a file and the object over it. -/
inductive JsonlEvent
  /-- A call of `read`. -/
  | read
  /-- An `append` that returns. -/
  | append (record : Record)
  /-- An `append` that stops, by an error or a crash, once `k` characters are in the file. -/
  | cut (record : Record) (k : Nat)
  /-- An `append` whose record `json.dumps` rejects. -/
  | rejected
  /-- An `append` that stops before its repair. -/
  | unrepaired
  /-- A new object over the same file, after a crash or without one. -/
  | reopen

/-- A run's state: the object, and the records whose text has gone into the file whole. -/
structure JsonlRun where
  log : AppendOnlyJsonl
  completed : List Record

namespace JsonlRun

def start : JsonlRun := ⟨⟨none, none⟩, []⟩

def step (run : JsonlRun) : JsonlEvent → JsonlRun
  | .read => { run with log := (run.log.read.map Prod.snd).getD run.log }
  | .append record => ⟨run.log.append record, run.completed ++ [record]⟩
  | .cut record k =>
    ⟨run.log.appendCut record k,
      if (run.log.repaired.2 ++ recordText record).length ≤ k then run.completed ++ [record]
      else run.completed⟩
  | .rejected => { run with log := run.log.appendRejected }
  | .unrepaired => run
  | .reopen => { run with log := run.log.reopened }

def after (events : List JsonlEvent) : JsonlRun := events.foldl step start

/-- What a writer has to see to before it appends: the file ends in a newline, or is empty, or this
object has read it since. -/
def Ready (run : JsonlRun) : Prop := WholeLines run.log.data ∨ run.log.repair.isSome = true

instance (run : JsonlRun) : Decidable run.Ready := inferInstanceAs (Decidable (_ ∨ _))

def Guard (run : JsonlRun) : JsonlEvent → Prop
  | .append _ => run.Ready
  | .cut _ _ => run.Ready
  | _ => True

instance (run : JsonlRun) : (event : JsonlEvent) → Decidable (run.Guard event)
  | .append _ => inferInstanceAs (Decidable run.Ready)
  | .cut _ _ => inferInstanceAs (Decidable run.Ready)
  | .read | .rejected | .unrepaired | .reopen => isTrue trivial

/-- Every append of the run finds the file ready. -/
def Guarded : JsonlRun → List JsonlEvent → Prop
  | _, [] => True
  | run, event :: events => run.Guard event ∧ Guarded (run.step event) events

instance decidableGuarded : (run : JsonlRun) → (events : List JsonlEvent) →
    Decidable (run.Guarded events)
  | _, [] => isTrue trivial
  | run, event :: events =>
    have := decidableGuarded (run.step event) events
    inferInstanceAs (Decidable (_ ∧ _))

end JsonlRun

def Exact (text : Text) (records : List Record) : Prop := lines text = records.map recordText

instance (text : Text) (records : List Record) : Decidable (Exact text records) :=
  inferInstanceAs (Decidable (_ = _))

/-- All that is gone from `old` in `new` is a last line that is not a JSON text. -/
def OnlyTornLineCut (old new : Text) : Prop :=
  ∃ keep torn, old = keep ++ torn ∧ keep <+: new ∧
    (torn = [] ∨ WholeLines keep ∧ newline ∉ torn ∧ Json.loads torn = none)

end VidbyteSdk.Util
