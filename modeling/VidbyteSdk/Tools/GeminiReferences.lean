import VidbyteSdk.Tools.GeminiAccepted

/-!
# The references of a schema

The reduction asks for the expansion of every reference that a schema holds, and of nothing else. The
expansion of a reference never runs out of fuel, and it fails exactly where references lead to a
definition that is no mapping.
-/

namespace VidbyteSdk.Tools.Gemini

open Lib Lib.Json

/-! ### What a schema refers to -/

def OwnReference (node : Members) (target : Text) : Prop :=
  ∃ ref, node.lookup (lit "$ref") = some (.str ref) ∧ refTarget ref = target

def Refers (schema : Json) (target : Text) : Prop :=
  ∃ node, SchemaNode schema node ∧ OwnReference node target

def KeywordRefers (entry : Text × Json) (target : Text) : Prop :=
  ∃ sub, SubValue entry.1 entry.2 sub ∧ Refers sub target

theorem refers_obj {node : Members} {target : Text} :
    Refers (.obj node) target ↔
      OwnReference node target ∨ ∃ entry ∈ node, KeywordRefers entry target := by
  constructor
  · rintro ⟨other, hother, hown⟩
    rcases Relation.ReflTransGen.cases_head hother with hsame | ⟨sub, ⟨_, hsame, entry, hentry, hsub⟩, hrest⟩
    · cases hsame
      exact .inl hown
    · cases hsame
      exact .inr ⟨entry, hentry, sub, hsub, other, hrest, hown⟩
  · rintro (hown | ⟨entry, hentry, sub, hsub, other, hrest, hown⟩)
    · exact ⟨node, .refl, hown⟩
    · exact ⟨other, .head ⟨node, rfl, entry, hentry, hsub⟩ hrest, hown⟩

theorem not_refers {schema : Json} (h : schema.isMapping = false) (target : Text) :
    ¬ Refers schema target := by
  rintro ⟨other, hother, -⟩
  rcases Relation.ReflTransGen.cases_head hother with rfl | ⟨_, ⟨_, rfl, -⟩, -⟩
  · cases h
  · cases h

theorem supported_of_subValue {key : Text} {value sub : Json} (h : SubValue key value sub) :
    key ∈ schemaKeywords := by
  have hmaps : ∀ key ∈ schemaMaps, key ∈ schemaKeywords := forall_mem_of_all (by decide)
  have hnodes : ∀ key ∈ schemaNodes, key ∈ schemaKeywords := forall_mem_of_all (by decide)
  rcases h with ⟨hkey, -⟩ | hkey | ⟨hkey, -⟩
  · exact hmaps key hkey
  · exact hnodes key hkey
  · exact hnodes key hkey

/-! ### What the walk asks for -/

/-- A computation that asks for the expansion of exactly some names: it returns only if all of them
expand, and fails only as one of them does. -/
structure Asks (expand : Expander) {α : Type} (x : Except GeminiError α) (names : Text → Prop) : Prop where
  ok : ∀ a, x = .ok a → ∀ target, names target → ∃ expanded, expand target = .ok expanded
  error : ∀ e, x = .error e → ∃ target, names target ∧ expand target = .error e

section Asks

variable {expand : Expander} {α β : Type} {names names' : Text → Prop}

variable {x : Except GeminiError α}

theorem Asks.congr (h : Asks expand x names)
    (hnames : ∀ target, names' target ↔ names target) : Asks expand x names' := by
  have hsame : names' = names := by
    funext target
    exact propext (hnames target)
  exact hsame ▸ h

theorem asks_pure (a : α) : Asks expand (pure a) fun _ => False :=
  ⟨fun _ _ _ h => h.elim, fun _ h => by cases h⟩

theorem asks_expand (target : Text) : Asks expand (expand target) fun name => name = target := by
  refine ⟨fun expanded h name hname => ⟨expanded, hname ▸ h⟩, fun e h => ⟨target, rfl, h⟩⟩

theorem Asks.bind {f : α → Except GeminiError β}
    (h : Asks expand x names) (hf : ∀ a, Asks expand (f a) names') :
    Asks expand (x >>= f) fun target => names target ∨ names' target := by
  constructor
  · intro b hb target htarget
    obtain ⟨a, ha, hb⟩ := bind_eq_ok hb
    rcases htarget with htarget | htarget
    · exact h.ok a ha target htarget
    · exact (hf a).ok b hb target htarget
  · intro e he
    cases x with
    | error e' =>
      cases he
      obtain ⟨target, htarget, hexpand⟩ := h.error e rfl
      exact ⟨target, .inl htarget, hexpand⟩
    | ok a =>
      obtain ⟨target, htarget, hexpand⟩ := (hf a).error e he
      exact ⟨target, .inr htarget, hexpand⟩

theorem Asks.map (h : Asks expand x names) (f : α → β) :
    Asks expand (x.map f) names := by
  cases x with
  | ok a => exact ⟨fun _ _ => h.ok a rfl, fun _ he => (nomatch he)⟩
  | error e =>
    refine ⟨fun _ hb => (nomatch hb), fun e' he => ?_⟩
    cases he
    exact h.error e rfl

theorem Asks.returns_iff (h : Asks expand x names) :
    (∃ a, x = .ok a) ↔ ∀ target, names target → ∃ expanded, expand target = .ok expanded := by
  constructor
  · rintro ⟨a, ha⟩
    exact h.ok a ha
  · intro hall
    cases hx : x with
    | ok a => exact ⟨a, rfl⟩
    | error e =>
      obtain ⟨target, htarget, herror⟩ := h.error e hx
      obtain ⟨expanded, hok⟩ := hall target htarget
      rw [herror] at hok
      cases hok

end Asks

section Walk

variable {reprText : Text → Text}

theorem asks_finishNode (expand : Expander) (node kept : Members) :
    Asks expand (finishNode reprText expand node kept) (OwnReference node) := by
  unfold finishNode
  split
  · next ref href =>
    have hown : ∀ target, OwnReference node target ↔ target = refTarget ref ∨ False := by
      intro target
      rw [or_false]
      constructor
      · rintro ⟨other, hother, rfl⟩
        cases Option.some.inj (hother.symm.trans href)
        rfl
      · rintro rfl
        exact ⟨ref, href, rfl⟩
    refine ((asks_expand (refTarget ref)).bind fun expanded => ?_).congr hown
    split
    · exact asks_pure _
    · exact asks_pure _
  · next hno =>
    refine (asks_pure _).congr fun target => iff_false_intro ?_
    rintro ⟨ref, href, -⟩
    exact hno ref href

mutual

theorem asks_geminiKeywords (expand : Expander) (node kept : Members) :
    Asks expand (geminiKeywords reprText expand kept node)
      fun target => ∃ entry ∈ node, KeywordRefers entry target := by
  match node with
  | [] => exact (asks_pure kept).congr fun target => by simp
  | (key, value) :: node =>
    rw [geminiKeywords]
    split
    · refine ((asks_geminiKeywordValue expand key value).bind fun reduced =>
        asks_geminiKeywords expand node (put key reduced kept)).congr fun target => ?_
      rw [List.exists_mem_cons_iff]
    · next hkey =>
      refine (asks_geminiKeywords expand node kept).congr fun target => ?_
      rw [List.exists_mem_cons_iff, or_iff_right]
      rintro ⟨sub, hsub, -⟩
      exact hkey (supported_of_subValue hsub)

theorem asks_geminiKeywordValue (expand : Expander) (key : Text) (value : Json) :
    Asks expand (geminiKeywordValue reprText expand key value) (KeywordRefers (key, value)) := by
  match value with
  | .obj members =>
    rw [geminiKeywordValue]
    split
    · next hmap =>
      refine ((asks_geminiProperties expand members).bind fun reduced => asks_pure _).congr
        fun target => ?_
      rw [or_false]
      constructor
      · rintro ⟨sub, ⟨-, hmem⟩ | hnode, hrefers⟩
        · exact ⟨_, hmem, hrefers⟩
        · exact absurd hnode (notMem_schemaNodes hmap)
      · rintro ⟨entry, hentry, hrefers⟩
        exact ⟨entry.2, .property hmap hentry, hrefers⟩
    next hmap =>
    split
    · next hnode =>
      refine ((asks_geminiKeywords expand members []).bind fun kept =>
        (asks_finishNode expand members kept).bind fun reduced => asks_pure _).congr fun target => ?_
      rw [or_false, or_comm, ← refers_obj]
      constructor
      · rintro ⟨sub, ⟨hmap', -⟩ | _, hrefers⟩
        · exact absurd hmap' hmap
        · exact hrefers
      · exact fun hrefers => ⟨_, .node hnode, hrefers⟩
    · next hnode =>
      refine (asks_pure _).congr fun target => iff_false_intro ?_
      rintro ⟨sub, ⟨hmap', -⟩ | hnode', -⟩
      · exact hmap hmap'
      · exact hnode hnode'
  | .arr items =>
    rw [geminiKeywordValue]
    split
    · next hnode =>
      refine ((asks_geminiItems expand items).bind fun reduced => asks_pure _).congr fun target => ?_
      rw [or_false]
      constructor
      · rintro ⟨sub, _ | _ | ⟨-, hmem⟩, hrefers⟩
        exact ⟨sub, hmem, hrefers⟩
      · rintro ⟨sub, hmem, hrefers⟩
        exact ⟨sub, .item hnode hmem, hrefers⟩
    · next hnode =>
      refine (asks_pure _).congr fun target => iff_false_intro ?_
      rintro ⟨sub, _ | _ | ⟨hnode', -⟩, -⟩
      exact hnode hnode'
  | .null | .bool _ | .int _ | .float _ | .str _ =>
    refine (asks_pure _).congr fun target => iff_false_intro ?_
    rintro ⟨sub, ⟨⟩, -⟩

theorem asks_geminiProperties (expand : Expander) (members : Members) :
    Asks expand (geminiProperties reprText expand members)
      fun target => ∃ entry ∈ members, Refers entry.2 target := by
  match members with
  | [] => exact (asks_pure _).congr fun target => by simp
  | (name, sub) :: members =>
    refine ((asks_geminiSub expand sub).bind fun reduced =>
      (asks_geminiProperties expand members).bind fun rest => asks_pure _).congr fun target => ?_
    rw [List.exists_mem_cons_iff, or_false]

theorem asks_geminiItems (expand : Expander) (items : List Json) :
    Asks expand (geminiItems reprText expand items) fun target => ∃ item ∈ items, Refers item target := by
  match items with
  | [] => exact (asks_pure _).congr fun target => by simp
  | sub :: items =>
    refine ((asks_geminiSub expand sub).bind fun reduced =>
      (asks_geminiItems expand items).bind fun rest => asks_pure _).congr fun target => ?_
    rw [List.exists_mem_cons_iff, or_false]

theorem asks_geminiSub (expand : Expander) (sub : Json) :
    Asks expand (geminiSub reprText expand sub) (Refers sub) := by
  match sub with
  | .obj members =>
    refine ((asks_geminiKeywords expand members []).bind fun kept =>
      (asks_finishNode expand members kept).bind fun reduced => asks_pure _).congr fun target => ?_
    rw [or_false, or_comm, ← refers_obj]
  | .arr _ | .null | .bool _ | .int _ | .float _ | .str _ =>
    exact (asks_pure _).congr fun target => iff_false_intro (not_refers rfl target)

end

theorem asks_geminiNode (expand : Expander) (members : Members) :
    Asks expand (geminiNode reprText expand (.obj members)) (Refers (.obj members)) := by
  refine ((asks_geminiKeywords expand members []).bind fun kept =>
    asks_finishNode expand members kept).congr fun target => ?_
  rw [or_comm, ← refers_obj]

end Walk

/-! ### Expanding references -/

section Expand

variable {reprText : Text → Text} {defs : Members}

def DefinitionRefers (defs : Members) (name target : Text) : Prop :=
  ∃ definition, defs.lookup name = some definition ∧ Refers definition target

def DefinitionBroken (defs : Members) (name : Text) : Prop :=
  ∃ definition, defs.lookup name = some definition ∧ definition.isMapping = false

theorem name_mem_of_lookup {name : Text} {definition : Json} (h : defs.lookup name = some definition) :
    name ∈ defs.map Prod.fst :=
  List.mem_map_of_mem (mem_of_lookup h)

theorem searches_expandRef (reprText : Text → Text) (defs : Members) :
    Searches (DefinitionRefers defs) (defs.map Prod.fst) (DefinitionBroken defs)
      fun fuel seen target => ∃ expanded, expandRef reprText defs fuel seen target = .ok expanded := by
  intro fuel seen target
  beta_reduce
  by_cases hclosed : target ∈ seen ∨ defs.lookup target = none
  · rw [expandRef_of_closed hclosed]
    exact iff_of_true ⟨none, rfl⟩ (hclosed.imp_right fun hlookup => .inl (lookup_eq_none.mp hlookup))
  obtain ⟨hseen, hlookup⟩ := not_or.mp hclosed
  obtain ⟨definition, hlookup⟩ := Option.ne_none_iff_exists'.mp hlookup
  have hmem := name_mem_of_lookup hlookup
  have hbroken : DefinitionBroken defs target ↔ definition.isMapping = false := by
    simp [DefinitionBroken, hlookup]
  have hrefers : ∀ next, DefinitionRefers defs target next ↔ Refers definition next := by
    simp [DefinitionRefers, hlookup]
  simp only [hseen, hmem, not_true_eq_false, false_or, hbroken, hrefers]
  cases fuel with
  | zero =>
    rw [expandRef_zero hseen hlookup]
    simp
  | succ fuel =>
    rw [expandRef_succ hseen hlookup]
    simp only [Nat.add_right_cancel_iff, exists_eq_left', map_some_eq_ok]
    cases definition with
    | obj members =>
      have hasks : Asks (expandRef reprText defs fuel (seen ++ [target]))
          (geminiNode reprText (expandRef reprText defs fuel (seen ++ [target])) (.obj members))
          (Refers (.obj members)) := asks_geminiNode _ members
      have hreturns := hasks.returns_iff
      simp only [isMapping, Bool.true_eq_false, not_false_eq_true, true_and, ← hreturns]
      constructor
      · rintro ⟨_, expanded, h, -⟩
        exact ⟨expanded, h⟩
      · rintro ⟨expanded, h⟩
        exact ⟨_, expanded, h, rfl⟩
    | _ => simp [geminiNode, isMapping]

theorem expandRef_ne_outOfFuel {fuel : ℕ} {seen : List Text}
    (hfuel : remaining (defs.map Prod.fst) seen ≤ fuel) (target : Text) :
    expandRef reprText defs fuel seen target ≠ .error .outOfFuel := by
  refine expandRef_induction (motive := fun fuel seen _ result =>
    remaining (defs.map Prod.fst) seen ≤ fuel → result ≠ .error .outOfFuel) ?_ ?_ ?_ fuel seen target hfuel
  · exact fun _ _ _ _ _ h => nomatch h
  · intro seen target definition hseen hlookup hfuel
    have hlt := remaining_concat_lt (name_mem_of_lookup hlookup) hseen
    omega
  · intro fuel seen target definition hseen hlookup ih hfuel h
    have hlt := remaining_concat_lt (name_mem_of_lookup hlookup) hseen
    cases definition with
    | obj members =>
      obtain ⟨next, -, hnext⟩ := ((asks_geminiNode _ members).map some).error _ h
      exact ih next (by omega) hnext
    | _ => cases h

end Expand

/-! ### The reduction -/

/-- The references of a schema lead to a definition: directly, or through definitions. -/
def LeadsTo (defs : Members) (schema : Json) (target : Text) : Prop :=
  ∃ first, Refers schema first ∧ Relation.ReflTransGen (DefinitionRefers defs) first target

theorem remaining_nil_le (names : List Text) : remaining names [] ≤ names.length := List.countP_le_length

theorem returns_geminiNode_iff {reprText : Text → Text} {defs node : Members} :
    (∃ root, geminiNode reprText (expandRef reprText defs defs.length []) (.obj node) = .ok root) ↔
      ∀ target definition, LeadsTo defs (.obj node) target → defs.lookup target = some definition →
        definition.isMapping = true := by
  have hfuel : remaining (defs.map Prod.fst) [] ≤ defs.length := by
    simpa using remaining_nil_le (defs.map Prod.fst)
  have hnames : ∀ name target, DefinitionRefers defs name target → name ∈ defs.map Prod.fst := by
    rintro name target ⟨definition, hlookup, -⟩
    exact name_mem_of_lookup hlookup
  have hbroken : ∀ name, DefinitionBroken defs name → name ∈ defs.map Prod.fst := by
    rintro name ⟨definition, hlookup, -⟩
    exact name_mem_of_lookup hlookup
  rw [(asks_geminiNode _ node).returns_iff]
  simp only [searches_iff (searches_expandRef reprText defs) hnames hbroken hfuel, openPath_nil]
  constructor
  · rintro h target definition ⟨first, hfirst, hpath⟩ hlookup
    by_contra hmapping
    exact h first hfirst target hpath ⟨definition, hlookup, Bool.eq_false_iff.mpr hmapping⟩
  · rintro h first hfirst target hpath ⟨definition, hlookup, hmapping⟩
    rw [h target definition ⟨first, hfirst, hpath⟩ hlookup] at hmapping
    cases hmapping

theorem dictPair_ne_outOfFuel (value : Json) : dictPair value ≠ .error .outOfFuel := by
  unfold dictPair
  split <;> simp

theorem dictBlock_ne_outOfFuel (value : Option Json) : dictBlock value ≠ .error .outOfFuel := by
  unfold dictBlock
  split
  · simp
  · simp
  · next pairs =>
    exact bind_ne_error (mapM_ne_error dictPair_ne_outOfFuel pairs) fun entries => pure_ne_error
  · split <;> simp

theorem schemaDefs_ne_outOfFuel (schema : Members) : schemaDefs schema ≠ .error .outOfFuel :=
  bind_ne_error (dictBlock_ne_outOfFuel _) fun _ => bind_ne_error (dictBlock_ne_outOfFuel _) fun _ => pure_ne_error

theorem geminiSchema_ne_outOfFuel (reprText : Text → Text) (schema : Members) :
    geminiSchema reprText schema ≠ .error .outOfFuel := by
  refine bind_ne_error (schemaDefs_ne_outOfFuel schema) fun defs h => ?_
  have hasks : Asks (expandRef reprText defs defs.length [])
      (geminiNode reprText (expandRef reprText defs defs.length []) (schemaRoot schema))
      (Refers (schemaRoot schema)) := asks_geminiNode _ _
  have hroot := hasks.bind fun root => asks_pure (Json.obj root)
  obtain ⟨target, -, htarget⟩ := hroot.error _ h
  have hfuel : remaining (defs.map Prod.fst) [] ≤ defs.length := by
    simpa using remaining_nil_le (defs.map Prod.fst)
  exact expandRef_ne_outOfFuel hfuel target htarget

def anyValueSchema : Members :=
  [(lit "$defs", .obj [(lit "Any", .bool true)]),
    (lit "properties", .obj [(lit "value", .obj [(lit "$ref", .str (lit "#/$defs/Any"))])])]

/-- A reference to a definition that is a boolean schema is an error. -/
theorem geminiSchema_not_total :
    ¬ ∀ (reprText : Text → Text) (schema : Members), ∃ result,
      geminiSchema reprText schema = .ok result ∧ Accepted result := by
  intro h
  obtain ⟨result, hresult, -⟩ := h (fun t => t) anyValueSchema
  have herror : geminiSchema (fun t => t) anyValueSchema = .error .attributeError := by rfl
  rw [herror] at hresult
  cases hresult

/-- The reduction ends, and it yields an accepted schema exactly where the blocks of definitions are
dictionaries and every definition that references lead to is a mapping. -/
theorem geminiSchema_accepted_iff (reprText : Text → Text) (schema : Members) :
    geminiSchema reprText schema ≠ .error .outOfFuel ∧
    ((∃ result, geminiSchema reprText schema = .ok result ∧ Accepted result) ↔
      ∃ defs, schemaDefs schema = .ok defs ∧ ∀ target definition,
        LeadsTo defs (schemaRoot schema) target → defs.lookup target = some definition →
          definition.isMapping = true) := by
  refine ⟨geminiSchema_ne_outOfFuel reprText schema, ?_, ?_⟩
  · rintro ⟨result, hresult, -⟩
    obtain ⟨defs, hdefs, h⟩ := bind_eq_ok hresult
    obtain ⟨root, hroot, -⟩ := bind_eq_ok h
    exact ⟨defs, hdefs, returns_geminiNode_iff.mp ⟨root, hroot⟩⟩
  · rintro ⟨defs, hdefs, hall⟩
    have hreturns : ∃ root, geminiNode reprText (expandRef reprText defs defs.length [])
        (schemaRoot schema) = .ok root := returns_geminiNode_iff.mpr hall
    obtain ⟨root, hroot⟩ := hreturns
    have hresult : geminiSchema reprText schema = .ok (.obj root) := by
      change schemaDefs schema >>= _ = _
      rw [hdefs]
      change geminiNode reprText (expandRef reprText defs defs.length []) (schemaRoot schema) >>= _ = _
      rw [hroot]
      rfl
    exact ⟨.obj root, hresult, accepted_of_geminiSchema hresult⟩

end VidbyteSdk.Tools.Gemini
