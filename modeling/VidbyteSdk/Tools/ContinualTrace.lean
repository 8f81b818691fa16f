import Mathlib.Data.Rat.Defs
import VidbyteSdk.Lib.Dicts

/-!
# The continual trace

`updateTrace` merges what the trace agent sends into an artifact of declared fields: lists grow, objects are merged key
by key, other values are replaced. Both the test for what a list holds and the test of a vocabulary compare values as
Python does, where `True` equals `1`.
-/

namespace VidbyteSdk.Tools.ContinualTrace

open VidbyteSdk.Lib
open Json (lit FloatLiteral)

inductive TraceFieldType
  | string
  | integer
  | number
  | boolean
  | array
  | object
  deriving DecidableEq

def TraceFieldType.value : TraceFieldType → Text
  | string => lit "string"
  | integer => lit "integer"
  | number => lit "number"
  | boolean => lit "boolean"
  | array => lit "array"
  | object => lit "object"

inductive Allowed
  | bool (b : Bool)
  | int (n : ℤ)
  | float (literal : FloatLiteral)
  | str (text : Text)

def Allowed.toJson : Allowed → Json
  | bool b => .bool b
  | int n => .int n
  | float literal => .float literal
  | str text => .str text

/-- What a field holds. No `fields` and no `enum` are empty lists. -/
inductive TraceField
  | node (type : TraceFieldType) (fields : List (Text × TraceField)) (items : Option TraceField) (enum : List Allowed)

def TraceField.type : TraceField → TraceFieldType
  | .node type _ _ _ => type

structure TraceSchema where
  fields : List (Text × TraceField)
  nodup : (fields.map Prod.fst).Nodup

def isNull : Json → Bool
  | .null => true
  | _ => false

section

-- the number that a float stands for
variable (number : FloatLiteral → ℚ)

/-! ### Equality -/

def asNumber (booleans : Bool) : Json → Option ℚ
  | .bool b => if booleans then some (if b then 1 else 0) else none
  | .int n => some n
  | .float literal => some (number literal)
  | _ => none

mutual

/-- Equality as in Python with `booleans`, and as of JSON values without. -/
def equal (booleans : Bool) : Json → Json → Bool
  | .null, .null => true
  | .bool a, .bool b => a = b
  | .str a, .str b => a = b
  | .arr as, .arr bs => equalItems booleans as bs
  | .obj as, .obj bs => as.length = bs.length && equalMembers booleans as bs
  | a, b => (asNumber number booleans a).any fun x => asNumber number booleans b = some x

def equalItems (booleans : Bool) : List Json → List Json → Bool
  | [], [] => true
  | a :: as, b :: bs => equal booleans a b && equalItems booleans as bs
  | _, _ => false

def equalMembers (booleans : Bool) : List (Text × Json) → List (Text × Json) → Bool
  | [], _ => true
  | (key, a) :: as, bs =>
    (bs.any fun row => row.1 = key && equal booleans a row.2) && equalMembers booleans as bs

end

/-- `item in items` -/
def isPresent (booleans : Bool) (items : List Json) (item : Json) : Bool := items.any (equal number booleans item)

/-! ### Validation -/

/-- `UpdateTraceTool._value_matches_type` -/
def valueMatchesType (value : Json) : TraceFieldType → Bool
  | .array => value.items?.isSome
  | .object => value.isMapping
  | .boolean => match value with | .bool _ => true | _ => false
  | .integer => match value with | .int _ => true | _ => false
  | .number => match value with | .int _ => true | .float _ => true | _ => false
  | .string => value.text?.isSome

/-- The error of the first element that has one, from the one at `index` on. -/
def firstItemError (check : Json → Text → Option Text) (path : Text) : ℕ → List Json → Option Text
  | _, [] => none
  | index, item :: rest =>
    match check item (path ++ lit "[" ++ Json.digitsOf index ++ lit "]") with
    | some error => some error
    | none => firstItemError check path (index + 1) rest

mutual

/-- `UpdateTraceTool._first_shape_error` -/
def firstShapeError : TraceField → Json → Text → Option Text
  | .node type fields items enum, value, path =>
    if !valueMatchesType value type then some (path ++ lit " expected " ++ type.value)
    else if enum ≠ [] && !isPresent number true (enum.map (·.toJson)) value then
      some (path ++ lit " expected one of " ++
        (lit ", ").intercalate (enum.map fun entry => Json.strOf id entry.toJson))
    else
      match (if type = .object then firstFieldError fields value (path ++ lit ".") else none) with
      | some error => some error
      | none => if type = .array then firstItemsError items value path else none

/-- The loop over declared fields, of an object or of the update; `within` opens their paths. -/
def firstFieldError : List (Text × TraceField) → Json → Text → Option Text
  | [], _, _ => none
  | (name, spec) :: rest, value, within =>
    match value.get? name with
    | none => firstFieldError rest value within
    | some sub =>
      if isNull sub then firstFieldError rest value within
      else match firstShapeError spec sub (within ++ name) with
        | some error => some error
        | none => firstFieldError rest value within

def firstItemsError : Option TraceField → Json → Text → Option Text
  | none, _, _ => none
  | some spec, value, path => firstItemError (firstShapeError spec) path 0 (value.items?.getD [])

end

/-! ### Merging -/

def listed : Json → List Json
  | .arr items => items
  | .null => []
  | other => [other]

def appendItems (booleans : Bool) (previous incoming : List Json) : List Json :=
  incoming.foldl (fun result item => if isPresent number booleans result item then result else result ++ [item])
    previous

/-- `UpdateTraceTool._append_unique` -/
def appendUnique (previous incoming : Json) : Json :=
  .arr (appendItems number true (listed previous) (incoming.items?.getD []))

def members : Json → List (Text × Json)
  | .obj rows => rows
  | _ => []

/-- `base.update({key: value ... if value is not None})` -/
def updateRows (base incoming : List (Text × Json)) : List (Text × Json) :=
  (incoming.filter fun row => !isNull row.2).foldl (fun base row => upsert Prod.fst row base) base

/-- `UpdateTraceTool._merge_field` -/
def mergeField (spec : TraceField) (previous incoming : Json) : Json :=
  if isNull incoming then previous
  else match spec.type with
    | .array => appendUnique number previous incoming
    | .object => .obj (updateRows (members previous) (members incoming))
    | _ => incoming

/-- `UpdateTraceTool._merge_known_fields` -/
def mergeKnownFields (schema : TraceSchema) (base : List (Text × Json)) (update : Json) : List (Text × Json) :=
  schema.fields.map fun field =>
    let previous := (base.lookup field.1).getD .null
    (field.1, (update.get? field.1).elim previous fun incoming => mergeField number field.2 previous incoming)

/-! ### Calls -/

/-- The `trace` argument of a call. The keys of an object are distinct. -/
structure TraceArgument where
  raw : Json
  distinct : ∀ name rows, raw.get? name = some (.obj rows) → (rows.map Prod.fst).Nodup

structure UpdateTraceTool where
  trace : List (Text × Json)
  lastError : Option Text

/-- The tool over `TraceSchema.initial_artifact`. -/
def initial (schema : TraceSchema) : UpdateTraceTool := ⟨schema.fields.map fun field => (field.1, .null), none⟩

inductive ToolResult
  | error (message detail : Text)
  | success (trace : List (Text × Json))

/-- `UpdateTraceTool.execute` -/
def execute (schema : TraceSchema) (self : UpdateTraceTool) (call : TraceArgument) : UpdateTraceTool × ToolResult :=
  if !call.raw.isMapping then
    ({ self with lastError := some (lit "trace argument must be an object") },
      .error (lit "trace argument must be an object.") (lit "invalid_trace_argument"))
  else match firstFieldError number schema.fields call.raw [] with
    | some error =>
      ({ self with lastError := some error }, .error (lit "output shape mismatch: " ++ error) error)
    | none =>
      let trace := mergeKnownFields number schema self.trace call.raw
      (⟨trace, none⟩, .success trace)

def after (schema : TraceSchema) (calls : List TraceArgument) : UpdateTraceTool :=
  calls.foldl (fun tool call => (execute number schema tool call).1) (initial schema)

/-! ### What a list holds -/

variable {number}

theorem equal_self (booleans : Bool) (value : Json) : equal number booleans value value = true := by
  induction value using Json.induction with
  | null => rfl
  | bool b => exact decide_eq_true rfl
  | int n => simp [equal, asNumber]
  | float literal => simp [equal, asNumber]
  | str text => exact decide_eq_true rfl
  | arr items ih =>
    rw [equal]
    induction items with
    | nil => rfl
    | cons item items ihrest =>
      obtain ⟨hitem, hitems⟩ := List.forall_mem_cons.mp ih
      rw [equalItems, hitem, ihrest hitems]
      rfl
  | obj rows ih =>
    have hsome : ∀ part : List (Text × Json), (∀ row ∈ part, row ∈ rows) →
        equalMembers number booleans part rows = true := by
      intro part hpart
      induction part with
      | nil => rfl
      | cons row part ihpart =>
        obtain ⟨hrow, hpart⟩ := List.forall_mem_cons.mp hpart
        have hany : (rows.any fun other => other.1 = row.1 && equal number booleans row.2 other.2) = true :=
          List.any_eq_true.mpr ⟨row, hrow, by rw [ih row hrow, decide_eq_true rfl]; rfl⟩
        rw [equalMembers, hany, ihpart hpart]
        rfl
    rw [equal, hsome rows fun _ h => h, decide_eq_true rfl]
    rfl

theorem isPresent_of_mem (booleans : Bool) {items : List Json} {item : Json} (h : item ∈ items) :
    isPresent number booleans items item = true :=
  List.any_eq_true.mpr ⟨item, h, equal_self booleans item⟩

/-- The items of `fresh` are those of `incoming`, in order, that were not present in front of them. -/
structure Appended (number : FloatLiteral → ℚ) (booleans : Bool) (previous incoming fresh : List Json) : Prop where
  ordered : fresh.Sublist incoming
  complete : ∀ item ∈ incoming, isPresent number booleans (previous ++ fresh) item = true
  once : ∀ front item rest, fresh = front ++ item :: rest → isPresent number booleans (previous ++ front) item = false

theorem appended_appendItems (number : FloatLiteral → ℚ) (booleans : Bool) (previous incoming : List Json) :
    ∃ fresh, appendItems number booleans previous incoming = previous ++ fresh ∧
      Appended number booleans previous incoming fresh := by
  unfold appendItems
  induction incoming generalizing previous with
  | nil => exact ⟨[], (List.append_nil _).symm, .slnil, nofun, fun front _ _ h => by cases front <;> cases h⟩
  | cons item incoming ih =>
    rw [List.foldl_cons]
    cases hpresent : isPresent number booleans previous item with
    | true =>
      rw [if_pos rfl]
      obtain ⟨fresh, hfold, hordered, hcomplete, honce⟩ := ih previous
      refine ⟨fresh, hfold, hordered.cons item, List.forall_mem_cons.mpr ⟨?_, hcomplete⟩, honce⟩
      rw [isPresent, List.any_append]
      exact Bool.or_eq_true_iff.mpr (.inl hpresent)
    | false =>
      rw [if_neg Bool.false_ne_true]
      obtain ⟨fresh, hfold, hordered, hcomplete, honce⟩ := ih (previous ++ [item])
      rw [List.append_assoc] at hfold hcomplete
      refine ⟨item :: fresh, hfold, hordered.cons_cons item, List.forall_mem_cons.mpr ⟨?_, hcomplete⟩, ?_⟩
      · exact isPresent_of_mem booleans (List.mem_append_right _ List.mem_cons_self)
      · intro front other rest h
        cases front with
        | nil =>
          obtain ⟨rfl, -⟩ := List.cons.inj h
          rwa [List.append_nil]
        | cons head front =>
          obtain ⟨rfl, hfront⟩ := List.cons.inj h
          have := honce front other rest hfront
          rwa [List.append_assoc] at this

variable {booleans : Bool}

theorem appendItems_of_present {previous incoming : List Json}
    (h : ∀ item ∈ incoming, isPresent number booleans previous item = true) :
    appendItems number booleans previous incoming = previous := by
  unfold appendItems
  induction incoming with
  | nil => rfl
  | cons item incoming ih =>
    obtain ⟨hitem, hincoming⟩ := List.forall_mem_cons.mp h
    rw [List.foldl_cons, if_pos hitem, ih hincoming]

/-- Appending the same items once more changes nothing. -/
theorem appendItems_twice (booleans : Bool) (previous incoming : List Json) :
    appendItems number booleans (appendItems number booleans previous incoming) incoming =
      appendItems number booleans previous incoming := by
  obtain ⟨fresh, hfold, happended⟩ := appended_appendItems number booleans previous incoming
  rw [hfold]
  exact appendItems_of_present happended.complete

/-- Each incoming item is present for Python where it is present as a JSON value, when its turn comes. -/
def CleanItems (number : FloatLiteral → ℚ) : List Json → List Json → Prop
  | _, [] => True
  | present, item :: rest =>
    isPresent number true present item = isPresent number false present item ∧
      CleanItems number (if isPresent number false present item then present else present ++ [item]) rest

theorem appendItems_of_clean {previous incoming : List Json} (h : CleanItems number previous incoming) :
    appendItems number true previous incoming = appendItems number false previous incoming := by
  unfold appendItems
  induction incoming generalizing previous with
  | nil => rfl
  | cons item incoming ih =>
    rw [List.foldl_cons, List.foldl_cons, h.1]
    exact ih h.2

/-! ### What a merged object holds -/

variable {base incoming : List (Text × Json)}

theorem upsert_self {row : Text × Json} {rows : List (Text × Json)} (hmem : row ∈ rows)
    (hsame : ∀ other ∈ rows, other.1 = row.1 → other = row) : upsert Prod.fst row rows = rows := by
  rw [upsert_of_mem (List.mem_map_of_mem hmem)]
  conv_rhs => rw [← List.map_id rows]
  refine List.map_congr_left fun other hother => ?_
  by_cases hkey : other.1 = row.1
  · rw [if_pos hkey]
    exact (hsame other hother hkey).symm
  · exact if_neg hkey

theorem mem_foldl_upsert (h : (incoming.map Prod.fst).Nodup) : ∀ row ∈ incoming,
    row ∈ incoming.foldl (fun base row => upsert Prod.fst row base) base ∧
      ∀ other ∈ incoming.foldl (fun base row => upsert Prod.fst row base) base, other.1 = row.1 → other = row := by
  induction incoming using List.reverseRecOn with
  | nil => exact nofun
  | append_singleton incoming last ih =>
    rw [List.map_append, List.nodup_append] at h
    obtain ⟨hnodup, -, hnew⟩ := h
    rw [List.foldl_append]
    intro row hrow
    rcases List.mem_append.mp hrow with hrow | hrow
    · have hkey : row.1 ≠ last.1 := hnew _ (List.mem_map_of_mem hrow) _ (List.mem_singleton_self _)
      obtain ⟨hmem, hsame⟩ := ih hnodup row hrow
      refine ⟨mem_upsert.mpr (.inr ⟨hmem, hkey⟩), fun other hother hother' => ?_⟩
      rcases mem_upsert.mp hother with rfl | ⟨hother, -⟩
      · exact absurd hother'.symm hkey
      · exact hsame other hother hother'
    · obtain rfl := List.mem_singleton.mp hrow
      refine ⟨mem_upsert_self, fun other hother hkey => ?_⟩
      rcases mem_upsert.mp hother with hother | ⟨-, hne⟩
      · exact hother
      · exact absurd hkey hne

theorem nodup_kept (h : (incoming.map Prod.fst).Nodup) :
    ((incoming.filter fun row => !isNull row.2).map Prod.fst).Nodup :=
  (List.filter_sublist.map Prod.fst).nodup h

theorem updateRows_twice (h : (incoming.map Prod.fst).Nodup) :
    updateRows (updateRows base incoming) incoming = updateRows base incoming := by
  have hfold : ∀ part rows : List (Text × Json), (∀ row ∈ part, row ∈ rows ∧
      ∀ other ∈ rows, other.1 = row.1 → other = row) →
        part.foldl (fun base row => upsert Prod.fst row base) rows = rows := by
    intro part rows hpart
    induction part with
    | nil => rfl
    | cons row part ih =>
      obtain ⟨⟨hmem, hsame⟩, hpart⟩ := List.forall_mem_cons.mp hpart
      rw [List.foldl_cons, upsert_self hmem hsame]
      exact ih hpart
  exact hfold _ _ (mem_foldl_upsert (nodup_kept h))

/-- A key holds what came in for it, and what it held where nothing or null came in. -/
theorem lookup_updateRows (h : (incoming.map Prod.fst).Nodup) (key : Text) :
    (updateRows base incoming).lookup key =
      ((incoming.lookup key).filter fun value => !isNull value).or (base.lookup key) := by
  unfold updateRows
  induction incoming generalizing base with
  | nil => rfl
  | cons row incoming ih =>
    obtain ⟨hnew, hnodup⟩ := List.nodup_cons.mp h
    rw [List.lookup_cons]
    by_cases hkey : key = row.1
    · subst hkey
      have hnone : incoming.lookup row.1 = none := lookup_eq_none.mpr hnew
      rw [beq_self_eq_true]
      cases hnull : isNull row.2 with
      | true =>
        rw [List.filter_cons_of_neg (by simp [hnull]), ih hnodup, hnone]
        simp [Option.filter, hnull]
      | false =>
        rw [List.filter_cons_of_pos (by simp [hnull]), List.foldl_cons, ih hnodup, hnone, Json.lookup_upsert]
        simp [Option.filter, hnull]
    · rw [beq_false_of_ne hkey]
      cases hnull : isNull row.2 with
      | true => rw [List.filter_cons_of_neg (by simp [hnull]), ih hnodup]
      | false =>
        rw [List.filter_cons_of_pos (by simp [hnull]), List.foldl_cons, ih hnodup, Json.lookup_upsert, if_neg hkey]

/-! ### What a field may hold -/

mutual

/-- The value has the type of the field, is in its vocabulary, and its own fields or items are as declared. -/
def Conforms (number : FloatLiteral → ℚ) (booleans : Bool) : TraceField → Json → Prop
  | .node type fields items enum, value =>
    valueMatchesType value type = true ∧ (enum ≠ [] → isPresent number booleans (enum.map (·.toJson)) value = true) ∧
      (type = .object → ConformsFields number booleans fields value) ∧
      (type = .array → ConformsItems number booleans items value)

def ConformsFields (number : FloatLiteral → ℚ) (booleans : Bool) : List (Text × TraceField) → Json → Prop
  | [], _ => True
  | (name, spec) :: rest, value =>
    (∀ sub, value.get? name = some sub → isNull sub = false → Conforms number booleans spec sub) ∧
      ConformsFields number booleans rest value

def ConformsItems (number : FloatLiteral → ℚ) (booleans : Bool) : Option TraceField → Json → Prop
  | none, _ => True
  | some spec, value => ∀ item ∈ value.items?.getD [], Conforms number booleans spec item

end

theorem firstItemError_eq_none {check : Json → Text → Option Text} {P : Json → Prop}
    (h : ∀ item path, check item path = none ↔ P item) {path : Text} {index : ℕ} {items : List Json} :
    firstItemError check path index items = none ↔ ∀ item ∈ items, P item := by
  induction items generalizing index with
  | nil => exact iff_of_true rfl nofun
  | cons item items ih =>
    rw [firstItemError, List.forall_mem_cons, ← h item]
    cases check item (path ++ lit "[" ++ Json.digitsOf index ++ lit "]") with
    | none => exact ih.trans (and_iff_right rfl).symm
    | some error => exact iff_of_false nofun fun hboth => nomatch hboth.1

mutual

theorem firstShapeError_eq_none : ∀ (spec : TraceField) (value : Json) (path : Text),
    firstShapeError number spec value path = none ↔ Conforms number true spec value
  | .node type fields items enum, value, path => by
    rw [firstShapeError, Conforms]
    cases valueMatchesType value type with
    | false => exact iff_of_false nofun fun h => nomatch h.1
    | true =>
      by_cases henum : enum ≠ [] → isPresent number true (enum.map (·.toJson)) value = true
      · rw [and_iff_right rfl, and_iff_right henum, ← firstFieldError_eq_none fields value (path ++ lit "."),
          ← firstItemsError_eq_none items value path]
        have hskip : (enum ≠ [] && !isPresent number true (enum.map (·.toJson)) value) = false := by
          cases hpresent : isPresent number true (enum.map (·.toJson)) value with
          | true => exact Bool.and_false _
          | false =>
            rw [decide_eq_false fun hne => Bool.false_ne_true (hpresent.symm.trans (henum hne))]
            rfl
        rw [hskip]
        cases type <;> simp
        cases firstFieldError number fields value (path ++ lit ".") <;> simp
      · obtain ⟨hne, hmissing⟩ := Classical.not_imp.mp henum
        rw [Bool.eq_false_iff.mpr hmissing, decide_eq_true hne]
        exact iff_of_false nofun fun h => Bool.false_ne_true (h.2.1 hne)

theorem firstFieldError_eq_none : ∀ (fields : List (Text × TraceField)) (value : Json) (within : Text),
    firstFieldError number fields value within = none ↔ ConformsFields number true fields value
  | [], value, within => iff_of_true rfl trivial
  | (name, spec) :: rest, value, within => by
    rw [firstFieldError, ConformsFields, ← firstFieldError_eq_none rest value within]
    cases value.get? name with
    | none => exact (and_iff_right nofun).symm
    | some sub =>
      have hsub := firstShapeError_eq_none spec sub (within ++ name)
      dsimp only
      simp only [Option.some.injEq, forall_eq', ← hsub]
      cases isNull sub with
      | true => simp
      | false =>
        cases firstShapeError number spec sub (within ++ name) <;> simp

theorem firstItemsError_eq_none : ∀ (items : Option TraceField) (value : Json) (path : Text),
    firstItemsError number items value path = none ↔ ConformsItems number true items value
  | none, _, _ => iff_of_true rfl trivial
  | some spec, _, _ => firstItemError_eq_none (firstShapeError_eq_none spec)

end

theorem conformsFields_iff {fields : List (Text × TraceField)} {value : Json} :
    ConformsFields number booleans fields value ↔ ∀ field ∈ fields, ∀ sub, value.get? field.1 = some sub →
      isNull sub = false → Conforms number booleans field.2 sub := by
  induction fields with
  | nil => exact iff_of_true trivial nofun
  | cons field fields ih => rw [ConformsFields, ih, List.forall_mem_cons]

theorem isPresent_allowed {enum : List Allowed} {value : Json}
    (h : value.items?.isSome = true ∨ value.isMapping = true) :
    isPresent number booleans (enum.map (·.toJson)) value = false := by
  rw [isPresent, List.any_map, List.any_eq_false]
  intro entry _
  rcases value with _ | _ | _ | _ | _ | _ | _
  case arr => cases entry <;> simp [equal, asNumber, Allowed.toJson]
  case obj => cases entry <;> simp [equal, asNumber, Allowed.toJson]
  all_goals rcases h with h | h <;> cases h

theorem lookup_members (value : Json) (key : Text) : (members value).lookup key = value.get? key := by
  cases value <;> rfl

theorem conforms_mergeField {spec : TraceField} {previous incoming : Json}
    (hprevious : isNull previous = true ∨ Conforms number false spec previous) (hnull : isNull incoming = false)
    (hincoming : Conforms number false spec incoming)
    (hdistinct : ((members incoming).map Prod.fst).Nodup) :
    Conforms number false spec (mergeField number spec previous incoming) := by
  obtain ⟨type, fields, items, enum⟩ := spec
  have hall := hincoming
  rw [Conforms] at hincoming
  obtain ⟨htype, henum, hfields, hitems⟩ := hincoming
  rw [mergeField, hnull, if_neg Bool.false_ne_true]
  cases type with
  | array =>
    have hnoenum : ¬ enum ≠ [] := fun hne =>
      Bool.false_ne_true ((isPresent_allowed (.inl htype)).symm.trans (henum hne))
    refine ⟨rfl, fun hne => absurd hne hnoenum, nofun, fun _ => ?_⟩
    obtain ⟨fresh, hfold, happended⟩ := appended_appendItems number true (listed previous)
      (incoming.items?.getD [])
    cases items with
    | none => trivial
    | some spec =>
      intro item hitem
      change item ∈ appendItems number true (listed previous) (incoming.items?.getD []) at hitem
      rw [hfold] at hitem
      rcases List.mem_append.mp hitem with hitem | hitem
      · rcases hprevious with hprevious | ⟨hprevious, -, -, hold⟩
        · cases previous with
          | null => cases hitem
          | _ => cases hprevious
        · cases previous with
          | arr old => exact hold rfl item hitem
          | _ => cases hprevious
      · exact hitems rfl item (happended.ordered.subset hitem)
  | object =>
    have hnoenum : ¬ enum ≠ [] := fun hne =>
      Bool.false_ne_true ((isPresent_allowed (.inr htype)).symm.trans (henum hne))
    refine ⟨rfl, fun hne => absurd hne hnoenum, fun _ => ?_, nofun⟩
    refine conformsFields_iff.mpr fun field hfield sub hsub hsubnull => ?_
    have hlookup : (updateRows (members previous) (members incoming)).lookup field.1 = _ :=
      lookup_updateRows hdistinct field.1
    rw [lookup_members, lookup_members] at hlookup
    rcases Option.or_eq_some_iff.mp (hlookup.symm.trans hsub) with hnew | ⟨-, hold⟩
    · exact conformsFields_iff.mp (hfields rfl) field hfield sub (Option.filter_eq_some_iff.mp hnew).1 hsubnull
    · rcases hprevious with hprevious | ⟨-, -, hprevious, -⟩
      · cases previous with
        | null => cases hold
        | _ => cases hprevious
      · exact conformsFields_iff.mp (hprevious rfl) field hfield sub hold hsubnull
  | _ => exact hall

/-! ### Runs -/

variable {schema : TraceSchema} {self : UpdateTraceTool} {call : TraceArgument}

def UpdateTraceTool.get (self : UpdateTraceTool) (name : Text) : Json := (self.trace.lookup name).getD .null

/-- The artifact has the fields of the schema, each null or as declared. -/
def Shaped (number : FloatLiteral → ℚ) (schema : TraceSchema) (self : UpdateTraceTool) : Prop :=
  self.trace.map Prod.fst = schema.fields.map Prod.fst ∧ ∀ field ∈ schema.fields,
    isNull (self.get field.1) = true ∨ Conforms number false field.2 (self.get field.1)

/-- What comes in for a field conforms by the equality of JSON values where it does by Python's, and so do its items
count as present. -/
def CleanCall (number : FloatLiteral → ℚ) (schema : TraceSchema) (self : UpdateTraceTool) (call : TraceArgument) :
    Prop :=
  ∀ field ∈ schema.fields, ∀ incoming, call.raw.get? field.1 = some incoming →
    (Conforms number true field.2 incoming → Conforms number false field.2 incoming) ∧
      (field.2.type = .array → CleanItems number (listed (self.get field.1)) (incoming.items?.getD []))

/-- A refused call leaves the artifact as it is; an accepted one appends to lists what is new, leaves what it omits or
sends as null, and changes nothing when it is repeated. -/
def Grows (number : FloatLiteral → ℚ) (schema : TraceSchema) (self : UpdateTraceTool) (call : TraceArgument) : Prop :=
  match execute number schema self call with
  | (next, .error _ _) => next.trace = self.trace
  | (next, .success _) =>
    (∀ field ∈ schema.fields, ∀ items, field.2.type = .array → call.raw.get? field.1 = some (.arr items) →
      ∃ fresh, next.get field.1 = .arr (listed (self.get field.1) ++ fresh) ∧
        Appended number false (listed (self.get field.1)) items fresh) ∧
    (∀ field ∈ schema.fields, ∀ rows, field.2.type = .object → call.raw.get? field.1 = some (.obj rows) →
      ∀ key, (∀ value, rows.lookup key = some value → isNull value = true) →
        (next.get field.1).get? key = (self.get field.1).get? key) ∧
    (∀ field ∈ schema.fields, (∀ value, call.raw.get? field.1 = some value → isNull value = true) →
      next.get field.1 = self.get field.1) ∧
    (execute number schema next call).1 = next

/-- A call is refused, or what comes in for each field conforms by Python's equality and is merged. -/
theorem execute_cases (number : FloatLiteral → ℚ) (schema : TraceSchema) (self : UpdateTraceTool)
    (call : TraceArgument) :
    (∃ lastError message detail, execute number schema self call = (⟨self.trace, lastError⟩, .error message detail)) ∨
      ConformsFields number true schema.fields call.raw ∧ ∀ any : UpdateTraceTool, execute number schema any call =
        (⟨mergeKnownFields number schema any.trace call.raw, none⟩,
          .success (mergeKnownFields number schema any.trace call.raw)) := by
  unfold execute
  cases hmapping : call.raw.isMapping with
  | false => exact .inl ⟨_, _, _, rfl⟩
  | true =>
    cases herror : firstFieldError number schema.fields call.raw [] with
    | some error => exact .inl ⟨_, _, _, rfl⟩
    | none => exact .inr ⟨(firstFieldError_eq_none _ _ _).mp herror, fun any => rfl⟩

theorem get_merged {base : List (Text × Json)} {raw : Json} {lastError : Option Text} {field : Text × TraceField}
    (hfield : field ∈ schema.fields) :
    UpdateTraceTool.get ⟨mergeKnownFields number schema base raw, lastError⟩ field.1 =
      (raw.get? field.1).elim ((base.lookup field.1).getD .null) fun incoming =>
        mergeField number field.2 ((base.lookup field.1).getD .null) incoming := by
  have hnodup : ((mergeKnownFields number schema base raw).map Prod.fst).Nodup := by
    rw [mergeKnownFields, List.map_map]
    exact schema.nodup
  exact congrArg (Option.getD · Json.null) (lookup_of_mem hnodup (List.mem_map_of_mem hfield))

theorem nodup_members {name : Text} {incoming : Json} (h : call.raw.get? name = some incoming) :
    ((members incoming).map Prod.fst).Nodup := by
  cases incoming with
  | obj rows => exact call.distinct name rows h
  | _ => exact List.nodup_nil

theorem shaped_execute (hshaped : Shaped number schema self) (hclean : CleanCall number schema self call) :
    Shaped number schema (execute number schema self call).1 := by
  rcases execute_cases number schema self call with ⟨_, _, _, h⟩ | ⟨hconforms, h⟩
  · rw [h]
    exact hshaped
  · rw [h self]
    refine ⟨by rw [mergeKnownFields, List.map_map]; rfl, fun field hfield => ?_⟩
    rw [get_merged hfield]
    cases hincoming : call.raw.get? field.1 with
    | none => exact hshaped.2 field hfield
    | some incoming =>
      cases hnull : isNull incoming with
      | true =>
        rw [Option.elim_some, mergeField, if_pos hnull]
        exact hshaped.2 field hfield
      | false =>
        have hnew := (hclean field hfield incoming hincoming).1
          (conformsFields_iff.mp hconforms field hfield incoming hincoming hnull)
        exact .inr (conforms_mergeField (hshaped.2 field hfield) hnull hnew (nodup_members hincoming))

theorem mergeField_twice (spec : TraceField) (previous : Json) {incoming : Json}
    (hdistinct : ((members incoming).map Prod.fst).Nodup) :
    mergeField number spec (mergeField number spec previous incoming) incoming =
      mergeField number spec previous incoming := by
  unfold mergeField
  cases isNull incoming with
  | true => rfl
  | false =>
    cases spec.type with
    | array => exact congrArg Json.arr (appendItems_twice true _ _)
    | object => exact congrArg Json.obj (updateRows_twice hdistinct)
    | _ => rfl

theorem grows_execute (hclean : CleanCall number schema self call) : Grows number schema self call := by
  unfold Grows
  rcases execute_cases number schema self call with ⟨_, _, _, h⟩ | ⟨hconforms, h⟩
  · rw [h]
  · rw [h self]
    refine ⟨fun field hfield items htype hincoming => ?_, fun field hfield rows htype hincoming key hkey => ?_,
      fun field hfield homitted => ?_, ?_⟩
    · obtain ⟨fresh, hfold, happended⟩ := appended_appendItems number false (listed (self.get field.1)) items
      have hsame := appendItems_of_clean ((hclean field hfield _ hincoming).2 htype)
      refine ⟨fresh, ?_, happended⟩
      rw [get_merged hfield, hincoming, Option.elim_some, mergeField, htype]
      exact congrArg Json.arr (hsame.trans hfold)
    · rw [get_merged hfield, hincoming, Option.elim_some, mergeField, htype]
      refine (lookup_updateRows (call.distinct _ _ hincoming) key).trans ?_
      rw [lookup_members]
      have hnone : (rows.lookup key).filter (fun value => !isNull value) = none := by
        refine Option.filter_eq_none_iff.mpr fun value hvalue => ?_
        rw [hkey value hvalue]
        exact Bool.false_ne_true
      exact congrArg (Option.or · _) hnone
    · rw [get_merged hfield]
      cases hincoming : call.raw.get? field.1 with
      | none => rfl
      | some incoming =>
        rw [Option.elim_some, mergeField, if_pos (homitted incoming hincoming)]
        rfl
    · rw [h]
      refine congrArg (UpdateTraceTool.mk · none) (List.map_congr_left fun field hfield => ?_)
      have hget : ((mergeKnownFields number schema self.trace call.raw).lookup field.1).getD .null = _ :=
        (get_merged hfield : UpdateTraceTool.get ⟨_, none⟩ _ = _)
      rw [hget]
      cases hincoming : call.raw.get? field.1 with
      | none => rfl
      | some incoming => exact congrArg (Prod.mk field.1) (mergeField_twice field.2 _ (nodup_members hincoming))

theorem shaped_initial (number : FloatLiteral → ℚ) (schema : TraceSchema) : Shaped number schema (initial schema) := by
  refine ⟨List.map_map .., fun field hfield => .inl ?_⟩
  have hnodup : ((initial schema).trace.map Prod.fst).Nodup := by
    rw [initial, List.map_map]
    exact schema.nodup
  have hget : (initial schema).trace.lookup field.1 = some .null :=
    lookup_of_mem hnodup (List.mem_map.mpr ⟨field, hfield, rfl⟩)
  rw [UpdateTraceTool.get, hget]
  rfl

def oneField (type : TraceFieldType) : TraceSchema := ⟨[(lit "a", .node type [] none [])], List.nodup_singleton _⟩

def sends (value : Json) (h : ∀ rows, value ≠ .obj rows) : TraceArgument where
  raw := .obj [(lit "a", value)]
  distinct name rows hrows := by
    have hmem : (name, Json.obj rows) ∈ [(lit "a", value)] := mem_of_lookup hrows
    exact absurd (congrArg Prod.snd (List.mem_singleton.mp hmem)).symm (h rows)

end

end VidbyteSdk.Tools.ContinualTrace
