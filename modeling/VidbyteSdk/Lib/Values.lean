import VidbyteSdk.Lib.Upsert

/-!
# Dynamic values

Values of a dynamically typed source and their projection to plain data: mappings under string keys,
lists, and scalars, less the entries whose key a filter drops. What a projection drops, what it keeps,
and that a second one changes nothing.
-/

namespace VidbyteSdk.Lib

/-- A key of a mapping by the text `str` makes of it. -/
structure Key where
  text : String
  isStr : Bool := true
  deriving DecidableEq

/-- A value of the source. A float is given by its `repr`, a model instance by the data it dumps, any
other object by the name of its type. -/
inductive Value
  | null
  | bool (b : Bool)
  | int (n : Int)
  | float (repr : String)
  | str (s : String)
  | list (items : List Value)
  | tuple (items : List Value)
  | mapping (entries : List (Key × Value))
  | model (dump : Value)
  | object (typeName : String)

abbrev Mapping : Type := List (Key × Value)

namespace Value

theorem induction {P : Value → Prop} (null : P .null) (bool : ∀ b, P (.bool b))
    (int : ∀ n, P (.int n)) (float : ∀ r, P (.float r)) (str : ∀ s, P (.str s))
    (list : ∀ items, (∀ v ∈ items, P v) → P (.list items))
    (tuple : ∀ items, (∀ v ∈ items, P v) → P (.tuple items))
    (mapping : ∀ entries : Mapping, (∀ e ∈ entries, P e.2) → P (.mapping entries))
    (model : ∀ dump, P dump → P (.model dump)) (object : ∀ n, P (.object n)) (v : Value) : P v := by
  refine Value.rec (motive_1 := P) (motive_2 := fun items => ∀ v ∈ items, P v)
    (motive_3 := fun entries => ∀ e ∈ entries, P e.2) (motive_4 := fun e => P e.2)
    null bool int float str list tuple mapping model object nofun ?_ nofun ?_ (fun _ _ hv => hv) v
  · intro item items hitem hitems v hv
    rcases List.mem_cons.mp hv with rfl | hv
    · exact hitem
    · exact hitems v hv
  · intro e entries he hentries d hd
    rcases List.mem_cons.mp hd with rfl | hd
    · exact he
    · exact hentries d hd

def IsScalar : Value → Prop
  | .null | .bool _ | .int _ | .float _ | .str _ => True
  | _ => False

inductive JsonLike : Value → Prop
  | scalar {v : Value} (h : v.IsScalar) : JsonLike v
  | list {items : List Value} (h : ∀ v ∈ items, JsonLike v) : JsonLike (.list items)
  | tuple {items : List Value} (h : ∀ v ∈ items, JsonLike v) : JsonLike (.tuple items)
  | mapping {entries : Mapping} (h : ∀ e ∈ entries, JsonLike e.2) : JsonLike (.mapping entries)

/-! ### Projection -/

/-- A filter on key texts, and what an object that is no data becomes. -/
structure Filter where
  drops : String → Bool
  mark : String → Value

mutual

def project (f : Filter) : Value → Value
  | .null => .null
  | .bool b => .bool b
  | .int n => .int n
  | .float r => .float r
  | .str s => .str s
  | .list items => .list (projectItems f items)
  | .tuple items => .list (projectItems f items)
  | .mapping entries => .mapping (upsertAll Prod.fst (projectEntries f entries))
  | .model dump => project f dump
  | .object typeName => f.mark typeName

def projectItems (f : Filter) : List Value → List Value
  | [] => []
  | v :: items => project f v :: projectItems f items

def projectEntries (f : Filter) : Mapping → Mapping
  | [] => []
  | (k, v) :: entries =>
    if f.drops k.text then projectEntries f entries
    else (⟨k.text, true⟩, project f v) :: projectEntries f entries

end

/-- The entries of a mapping's plain data: of keys with one text, the last value. -/
def projectMapping (f : Filter) (entries : Mapping) : Mapping :=
  upsertAll Prod.fst (projectEntries f entries)

attribute [local grind =] project projectItems projectEntries

/-- Plain data without a dropped key: what a projection leaves as it is. -/
inductive Plain (f : Filter) : Value → Prop
  | scalar {v : Value} (h : v.IsScalar) : Plain f v
  | list {items : List Value} (h : ∀ v ∈ items, Plain f v) : Plain f (.list items)
  | mapping {entries : Mapping} (hnodup : (entries.map Prod.fst).Nodup)
      (hkeys : ∀ e ∈ entries, e.1.isStr = true ∧ f.drops e.1.text = false)
      (h : ∀ e ∈ entries, Plain f e.2) : Plain f (.mapping entries)

def Filter.Marks (f : Filter) : Prop := ∀ typeName, Plain f (f.mark typeName)

section

variable {f : Filter} {v : Value} {entries : Mapping}

@[simp] theorem projectItems_eq (items : List Value) :
    projectItems f items = items.map (project f) := by
  induction items with
  | nil => rfl
  | cons v items ih => rw [projectItems, ih, List.map_cons]

theorem projectEntries_eq (entries : Mapping) :
    projectEntries f entries = (entries.filter fun e => !f.drops e.1.text).map
      fun e => (⟨e.1.text, true⟩, project f e.2) := by
  induction entries with
  | nil => rfl
  | cons e entries ih =>
    obtain ⟨k, v⟩ := e
    by_cases hk : f.drops k.text = true <;> simp [projectEntries, hk, ih]

@[simp] theorem project_mapping (entries : Mapping) :
    project f (.mapping entries) = .mapping (projectMapping f entries) := by
  rw [project, projectMapping]

theorem project_of_isScalar (h : v.IsScalar) : project f v = v := by
  cases v <;> simp only [IsScalar] at h <;> simp only [project]

theorem mem_projectEntries {e : Key × Value} :
    e ∈ projectEntries f entries ↔ ∃ d ∈ entries, f.drops d.1.text = false ∧
      (⟨d.1.text, true⟩, project f d.2) = e := by
  simp only [projectEntries_eq, List.mem_map, List.mem_filter, Bool.not_eq_eq_eq_not,
    Bool.not_true, and_assoc]

theorem nodup_keys_projectMapping : ((projectMapping f entries).map Prod.fst).Nodup :=
  nodup_map_key_upsertAll

theorem plain_project (hf : f.Marks) (v : Value) : Plain f (project f v) := by
  induction v using Value.induction with
  | null => exact .scalar trivial
  | bool b => exact .scalar trivial
  | int n => exact .scalar trivial
  | float r => exact .scalar trivial
  | str s => exact .scalar trivial
  | list items ih | tuple items ih =>
    rw [project, projectItems_eq]
    refine .list fun w hw => ?_
    obtain ⟨v, hv, rfl⟩ := List.mem_map.mp hw
    exact ih v hv
  | mapping entries ih =>
    rw [project_mapping]
    refine .mapping nodup_keys_projectMapping (fun e he => ?_) fun e he => ?_
    all_goals obtain ⟨d, hd, hdrop, rfl⟩ := mem_projectEntries.mp (mem_of_mem_upsertAll he)
    · exact ⟨rfl, hdrop⟩
    · exact ih d hd
  | model dump ih => exact ih
  | object n => exact hf n

theorem project_of_plain (h : Plain f v) : project f v = v := by
  induction h with
  | scalar h => exact project_of_isScalar h
  | list h ih =>
    rw [project, projectItems_eq, List.map_congr_left ih, List.map_id']
  | mapping hnodup hkeys h ih =>
    next entries =>
    have hentries : projectEntries f entries = entries := by
      have hkeep : (entries.filter fun e => !f.drops e.1.text) = entries := by
        rw [List.filter_eq_self]
        intro e he
        simp [(hkeys e he).2]
      rw [projectEntries_eq, hkeep]
      refine (List.map_congr_left fun e he => ?_).trans (List.map_id' _)
      rw [ih e he, ← (hkeys e he).1]
    rw [project_mapping, projectMapping, hentries, upsertAll_of_nodup hnodup]

theorem project_project (hf : f.Marks) (v : Value) : project f (project f v) = project f v :=
  project_of_plain (plain_project hf v)

/-! ### Strings -/

mutual

def mapStrings (g : String → String) : Value → Value
  | .str s => .str (g s)
  | .list items => .list (mapStringsItems g items)
  | .tuple items => .tuple (mapStringsItems g items)
  | .mapping entries => .mapping (mapStringsEntries g entries)
  | .model dump => .model (mapStrings g dump)
  | .null => .null
  | .bool b => .bool b
  | .int n => .int n
  | .float repr => .float repr
  | .object typeName => .object typeName

def mapStringsItems (g : String → String) : List Value → List Value
  | [] => []
  | v :: items => mapStrings g v :: mapStringsItems g items

def mapStringsEntries (g : String → String) : Mapping → Mapping
  | [] => []
  | (k, v) :: entries => (k, mapStrings g v) :: mapStringsEntries g entries

end

@[simp] theorem mapStringsItems_eq (g : String → String) (items : List Value) :
    mapStringsItems g items = items.map (mapStrings g) := by
  induction items with
  | nil => rfl
  | cons v items ih => rw [mapStringsItems, ih, List.map_cons]

@[simp] theorem mapStringsEntries_eq (g : String → String) (entries : Mapping) :
    mapStringsEntries g entries = entries.map fun e => (e.1, mapStrings g e.2) := by
  induction entries with
  | nil => rfl
  | cons e entries ih => rw [mapStringsEntries, ih, List.map_cons]

theorem plain_mapStrings {f : Filter} {v : Value} (h : Plain f v) (g : String → String) : Plain f (v.mapStrings g) := by
  induction h with
  | @scalar v h =>
    cases v with
    | null | bool | int | float | str => exact .scalar trivial
    | list | tuple | mapping | model | object => exact h.elim
  | list _ ih =>
    rw [mapStrings, mapStringsItems_eq]
    refine .list fun w hw => ?_
    obtain ⟨v, hv, rfl⟩ := List.mem_map.mp hw
    exact ih v hv
  | mapping hnodup hkeys _ ih =>
    rw [mapStrings, mapStringsEntries_eq]
    refine .mapping ?_ (fun e he => ?_) fun e he => ?_
    · rw [List.map_map]
      exact hnodup
    all_goals obtain ⟨d, hd, rfl⟩ := List.mem_map.mp he
    · exact hkeys d hd
    · exact ih d hd

/-! ### What lies in a value -/

/-- `w` is the value itself or lies at some depth in it. -/
inductive Occurs (w : Value) : Value → Prop
  | refl : Occurs w w
  | list {items : List Value} {v : Value} (hv : v ∈ items) (h : Occurs w v) : Occurs w (.list items)
  | tuple {items : List Value} {v : Value} (hv : v ∈ items) (h : Occurs w v) :
    Occurs w (.tuple items)
  | mapping {entries : Mapping} {e : Key × Value} (he : e ∈ entries) (h : Occurs w e.2) :
    Occurs w (.mapping entries)
  | model {dump : Value} (h : Occurs w dump) : Occurs w (.model dump)

theorem Plain.of_occurs {w : Value} (h : Plain f v) (hw : Occurs w v) : Plain f w := by
  induction hw with
  | refl => exact h
  | list hv _ ih =>
    cases h with
    | scalar h => exact h.elim
    | list h => exact ih (h _ hv)
  | tuple _ _ _ =>
    cases h with
    | scalar h => exact h.elim
  | mapping he _ ih =>
    cases h with
    | scalar h => exact h.elim
    | mapping _ _ h => exact ih (h _ he)
  | model _ _ =>
    cases h with
    | scalar h => exact h.elim

theorem Plain.mapStrings_eq_self_iff (h : Plain f v) {g : String → String} :
    v.mapStrings g = v ↔ ∀ s, Occurs (.str s) v → g s = s := by
  induction h with
  | @scalar v h =>
    cases v with
    | str s =>
      rw [mapStrings, Value.str.injEq]
      exact ⟨fun hs t ht => by cases ht; exact hs, fun hs => hs s .refl⟩
    | null | bool | int | float => exact ⟨fun _ s hs => (nomatch hs), fun _ => rfl⟩
    | list | tuple | mapping | model | object => exact h.elim
  | @list items _ ih =>
    rw [mapStrings, mapStringsItems_eq, Value.list.injEq]
    constructor
    · intro hmap s hs
      cases hs with
      | @list _ v hv hs =>
        have hsame : items.map (mapStrings g) = items.map id := hmap.trans (List.map_id _).symm
        exact (ih v hv).mp (List.map_inj_left.mp hsame v hv) s hs
    · intro hs
      refine (List.map_congr_left fun v hv => ?_).trans (List.map_id _)
      exact (ih v hv).mpr fun s hsv => hs s (.list hv hsv)
  | @mapping entries _ _ _ ih =>
    rw [mapStrings, mapStringsEntries_eq, Value.mapping.injEq]
    constructor
    · intro hmap s hs
      cases hs with
      | @mapping _ e he hs =>
        have hsame : entries.map (fun e => (e.1, mapStrings g e.2)) = entries.map id := hmap.trans (List.map_id _).symm
        exact (ih e he).mp (congrArg Prod.snd (List.map_inj_left.mp hsame e he)) s hs
    · intro hs
      refine (List.map_congr_left fun e he => ?_).trans (List.map_id _)
      exact congrArg (e.1, ·) ((ih e he).mpr fun s hse => hs s (.mapping he hse))

theorem Plain.drops_eq_false (h : Plain f v) (hv : Occurs (.mapping entries) v) {e : Key × Value}
    (he : e ∈ entries) : f.drops e.1.text = false := by
  cases h.of_occurs hv with
  | scalar h => exact h.elim
  | mapping _ hkeys _ => exact (hkeys e he).2

end

/-! ### Paths -/

/-- One step into a value: an entry of a mapping, or an item of a sequence. -/
inductive Step
  | key (text : String)
  | index (i : Nat)
  deriving DecidableEq

def lookup (entries : Mapping) (text : String) : Option Value :=
  (entries.reverse.find? fun e => e.1.text = text).map Prod.snd

def child : Value → Step → Option Value
  | .list items, .index i => items[i]?
  | .tuple items, .index i => items[i]?
  | .mapping entries, .key text => lookup entries text
  | _, _ => none

def get? (v : Value) : List Step → Option Value
  | [] => some v
  | s :: path => (v.child s).bind fun w => w.get? path

def Filter.Keeps (f : Filter) (path : List Step) : Prop :=
  ∀ text, .key text ∈ path → f.drops text = false

section

variable {f : Filter} {v : Value} {entries : Mapping}

theorem lookup_projectMapping {text : String} (h : f.drops text = false) :
    lookup (projectMapping f entries) text = (lookup entries text).map (project f) := by
  unfold lookup projectMapping
  have hkey : ∀ ws : Mapping, (∀ e ∈ ws, e.1.isStr = true) →
      (ws.reverse.find? fun e => e.1.text = text)
        = ws.reverse.find? fun e => e.1 = ⟨text, true⟩ := by
    intro ws hws
    rw [← List.head?_filter, ← List.head?_filter]
    congr 1
    refine List.filter_congr fun e he => ?_
    have hstr := hws e (List.mem_reverse.mp he)
    obtain ⟨⟨t, b⟩, w⟩ := e
    simp only at hstr
    simp [hstr]
  have hentries : ∀ e ∈ projectEntries f entries, e.1.isStr = true := by
    intro e he
    obtain ⟨d, -, -, rfl⟩ := mem_projectEntries.mp he
    rfl
  rw [hkey _ fun e he => hentries e (mem_of_mem_upsertAll he),
    find?_reverse_of_nodup nodup_map_key_upsertAll, find?_upsertAll, ← hkey _ hentries, projectEntries_eq, ← List.map_reverse, List.find?_map, ← List.filter_reverse,
    List.find?_filter]
  have hfun : (fun e : Key × Value => decide ((!f.drops e.1.text) = true ∧
      ((fun d : Key × Value => decide (d.1.text = text)) ∘ fun d =>
        (⟨d.1.text, true⟩, project f d.2)) e = true))
      = fun e => decide (e.1.text = text) := by
    funext e
    by_cases he : e.1.text = text <;> simp [he, h]
  rw [hfun, Option.map_map, Option.map_map]
  rfl

theorem JsonLike.of_child {s : Step} {w : Value} (h : JsonLike v) (hw : v.child s = some w) :
    JsonLike w := by
  cases h with
  | scalar h => cases v <;> simp [IsScalar] at h <;> simp [child] at hw
  | list h | tuple h =>
    cases s with
    | key text => simp [child] at hw
    | index i => exact h w (List.mem_of_getElem? hw)
  | mapping h =>
    cases s with
    | index i => simp [child] at hw
    | key text =>
      obtain ⟨e, he, rfl⟩ := Option.map_eq_some_iff.mp hw
      exact h e (List.mem_reverse.mp (List.mem_of_find?_eq_some he))

theorem child_project {s : Step} (hv : JsonLike v) (hs : f.Keeps [s]) :
    (project f v).child s = (v.child s).map (project f) := by
  cases hv with
  | scalar h =>
    rw [project_of_isScalar h]
    cases v <;> simp [IsScalar] at h <;> rfl
  | list h | tuple h =>
    rw [project, projectItems_eq]
    cases s with
    | key text => rfl
    | index i => exact List.getElem?_map ..
  | mapping h =>
    rw [project_mapping]
    cases s with
    | index i => rfl
    | key text => exact lookup_projectMapping (hs text (List.mem_singleton_self _))

theorem get?_project {path : List Step} (hv : JsonLike v) (hpath : f.Keeps path) :
    (project f v).get? path = (v.get? path).map (project f) := by
  induction path generalizing v with
  | nil => rfl
  | cons s path ih =>
    have hs : f.Keeps [s] := by
      intro text htext
      rw [List.mem_singleton] at htext
      exact hpath text (htext ▸ List.mem_cons_self)
    rw [get?, get?, child_project hv hs]
    cases hw : v.child s with
    | none => rfl
    | some w =>
      exact ih (hv.of_child hw) fun text htext => hpath text (List.mem_cons_of_mem _ htext)

end

/-! ### Scrubbing -/

/-- `out` is `given` as plain data without its secret keys and otherwise complete: along every path of
keys that are not secret it holds the same scalars, lists of the same length and mappings with the
same other keys. -/
structure Scrubbed (secret : String → Bool) (given out : Value) : Prop where
  no_secret : ∀ entries, Occurs (.mapping entries) out → ∀ e ∈ entries, secret e.1.text = false
  scalars : ∀ path, (∀ text, .key text ∈ path → secret text = false) → ∀ v : Value,
    given.get? path = some v → v.IsScalar → out.get? path = some v
  lists : ∀ path, (∀ text, .key text ∈ path → secret text = false) → ∀ items : List Value,
    given.get? path = some (.list items) ∨ given.get? path = some (.tuple items) →
    ∃ outs : List Value, out.get? path = some (.list outs) ∧ outs.length = items.length
  keys : ∀ path, (∀ text, .key text ∈ path → secret text = false) → ∀ entries : Mapping,
    given.get? path = some (.mapping entries) →
    ∃ outs : Mapping, out.get? path = some (.mapping outs) ∧
      ∀ text, (∃ e ∈ outs, e.1.text = text) ↔ (∃ e ∈ entries, e.1.text = text) ∧ secret text = false

variable {f : Filter} {v : Value}

theorem exists_text_projectMapping {entries : Mapping} (text : String) :
    (∃ e ∈ projectMapping f entries, e.1.text = text)
      ↔ (∃ e ∈ entries, e.1.text = text) ∧ f.drops text = false := by
  constructor
  · rintro ⟨e, he, rfl⟩
    obtain ⟨d, hd, hdrops, rfl⟩ := mem_projectEntries.mp (mem_of_mem_upsertAll he)
    exact ⟨⟨d, hd, rfl⟩, hdrops⟩
  · rintro ⟨⟨d, hd, rfl⟩, hdrops⟩
    have hmem : (⟨d.1.text, true⟩, project f d.2) ∈ projectEntries f entries :=
      mem_projectEntries.mpr ⟨d, hd, hdrops, rfl⟩
    have hkeys : (⟨d.1.text, true⟩ : Key) ∈ (projectMapping f entries).map Prod.fst :=
      key_mem_upsertAll hmem
    obtain ⟨e, he, hkey⟩ := List.mem_map.mp hkeys
    exact ⟨e, he, by rw [hkey]⟩

theorem scrubbed_project (hf : f.Marks) (hv : JsonLike v) : Scrubbed f.drops v (project f v) where
  no_secret entries h e he := (plain_project hf v).drops_eq_false h he
  scalars path hpath w hw hscalar := by
    rw [get?_project hv hpath, hw, Option.map_some, project_of_isScalar hscalar]
  lists path hpath items hitems := by
    refine ⟨items.map (project f), ?_, List.length_map _⟩
    rcases hitems with hitems | hitems
    all_goals rw [get?_project hv hpath, hitems, Option.map_some, project, projectItems_eq]
  keys path hpath entries hentries := by
    refine ⟨projectMapping f entries, ?_, exists_text_projectMapping⟩
    rw [get?_project hv hpath, hentries, Option.map_some, project_mapping]

/-! ### Through JSON text -/

/-- The text `json.dumps` writes for a key. -/
def jsonKey (k : Key) : String :=
  if k.isStr then k.text
  else
    match k.text with
    | "True" => "true"
    | "False" => "false"
    | "None" => "null"
    | "inf" => "Infinity"
    | "-inf" => "-Infinity"
    | "nan" => "NaN"
    | text => text

mutual

/-- `json.loads(json.dumps(value))`, `none` where a value cannot be written. -/
def reloaded : Value → Option Value
  | .null => some .null
  | .bool b => some (.bool b)
  | .int n => some (.int n)
  | .float r => some (.float r)
  | .str s => some (.str s)
  | .list items => (reloadedItems items).map .list
  | .tuple items => (reloadedItems items).map .list
  | .mapping entries => (reloadedEntries entries).map fun es => .mapping (upsertAll Prod.fst es)
  | .model _ => none
  | .object _ => none

def reloadedItems : List Value → Option (List Value)
  | [] => some []
  | v :: items => do
    let w ← reloaded v
    let ws ← reloadedItems items
    some (w :: ws)

def reloadedEntries : Mapping → Option Mapping
  | [] => some []
  | (k, v) :: entries => do
    let w ← reloaded v
    let es ← reloadedEntries entries
    some ((⟨jsonKey k, true⟩, w) :: es)

end

def reloadedMapping (entries : Mapping) : Option Mapping :=
  (reloadedEntries entries).map (upsertAll Prod.fst)

theorem reloaded_mapping (entries : Mapping) :
    reloaded (.mapping entries) = (reloadedMapping entries).map .mapping := by
  rw [reloaded, reloadedMapping, Option.map_map]
  rfl

theorem reloadedItems_of_forall {items : List Value} (h : ∀ v ∈ items, reloaded v = some v) :
    reloadedItems items = some items := by
  induction items with
  | nil => rfl
  | cons v items ih =>
    rw [reloadedItems, h v List.mem_cons_self, ih fun w hw => h w (List.mem_cons_of_mem _ hw)]
    rfl

theorem reloadedEntries_of_forall {entries : Mapping}
    (h : ∀ e ∈ entries, e.1.isStr = true ∧ reloaded e.2 = some e.2) :
    reloadedEntries entries = some entries := by
  induction entries with
  | nil => rfl
  | cons e entries ih =>
    obtain ⟨⟨text, isStr⟩, v⟩ := e
    obtain ⟨hstr, hv⟩ := h _ List.mem_cons_self
    simp only at hstr hv
    rw [reloadedEntries, hv, ih fun d hd => h d (List.mem_cons_of_mem _ hd), hstr]
    rfl

theorem reloaded_of_plain (h : Plain f v) : reloaded v = some v := by
  induction h with
  | @scalar v h => cases v <;> simp [IsScalar] at h <;> rfl
  | list _ ih => rw [reloaded, reloadedItems_of_forall ih, Option.map_some]
  | mapping hnodup hkeys _ ih =>
    rw [reloaded, reloadedEntries_of_forall fun e he => ⟨(hkeys e he).1, ih e he⟩,
      Option.map_some, upsertAll_of_nodup hnodup]

end Value

end VidbyteSdk.Lib
