import VidbyteSdk.Lib.Checks
import VidbyteSdk.Lib.OpenPaths
import VidbyteSdk.Tools.GeminiSchema

/-!
# The reduced schema is accepted

Whatever the reduction returns is accepted at every schema node. It returns for every schema, of any
structure of references, unless a reference leads to a definition that is no mapping.
-/

namespace VidbyteSdk.Tools.Gemini

open Lib Lib.Json

/-! ### Schema nodes -/

inductive SubValue : Text → Json → Json → Prop
  | property {key name : Text} {members : Members} {sub : Json} : key ∈ schemaMaps →
      (name, sub) ∈ members → SubValue key (.obj members) sub
  | node {key : Text} {members : Members} : key ∈ schemaNodes →
      SubValue key (.obj members) (.obj members)
  | item {key : Text} {items : List Json} {sub : Json} : key ∈ schemaNodes → sub ∈ items →
      SubValue key (.arr items) sub

def SubSchema (schema sub : Json) : Prop :=
  ∃ node, schema = .obj node ∧ ∃ entry ∈ node, SubValue entry.1 entry.2 sub

def SchemaNode (schema : Json) (node : Members) : Prop :=
  Relation.ReflTransGen SubSchema schema (.obj node)

structure KeywordAccepted (entry : Text × Json) : Prop where
  supported : entry.1 ∈ schemaKeywords
  single : ∀ types, entry ≠ (lit "type", .arr types)
  enum : ∀ values, entry = (lit "enum", .arr values) → ∀ value ∈ values, isStringOrNull value = true

def HasItems (node : Members) : Prop :=
  (lit "type", .str (lit "array")) ∈ node → lit "items" ∈ node.map Prod.fst

/-- Every schema node has supported keywords, one type, items where it is an array, and an enumeration
of strings. -/
def Accepted (schema : Json) : Prop :=
  ∀ node, SchemaNode schema node → (∀ entry ∈ node, KeywordAccepted entry) ∧ HasItems node

def SubsAccepted (entry : Text × Json) : Prop := ∀ sub, SubValue entry.1 entry.2 sub → Accepted sub

theorem accepted_of_not_mapping {schema : Json} (h : schema.isMapping = false) : Accepted schema := by
  intro node hnode
  rcases Relation.ReflTransGen.cases_head hnode with rfl | ⟨_, ⟨other, rfl, -⟩, -⟩
  · cases h
  · cases h

variable {node : Members}

theorem accepted_obj (hkeywords : ∀ entry ∈ node, KeywordAccepted entry)
    (hitems : HasItems node) (hsubs : ∀ entry ∈ node, SubsAccepted entry) : Accepted (.obj node) := by
  intro other hother
  rcases Relation.ReflTransGen.cases_head hother with hsame | ⟨sub, ⟨_, hsame, entry, hentry, hsub⟩, hrest⟩
  · cases hsame
    exact ⟨hkeywords, hitems⟩
  · cases hsame
    exact hsubs entry hentry sub hsub other hrest

/-! ### Writing to a node -/

variable {key : Text} {value : Json} {members : Members}

variable {entry : Text × Json}

theorem mem_put :
    entry ∈ put key value members ↔ entry = (key, value) ∨ entry ∈ members ∧ entry.1 ≠ key :=
  mem_upsert

theorem nodup_put (h : (members.map Prod.fst).Nodup) : ((put key value members).map Prod.fst).Nodup :=
  nodup_map_key_upsert h

theorem key_mem_put {key k : Text} :
    k ∈ (put key value members).map Prod.fst ↔ k = key ∨ k ∈ members.map Prod.fst := by
  simp only [List.mem_map, mem_put]
  constructor
  · rintro ⟨entry, rfl | ⟨hentry, -⟩, rfl⟩
    · exact .inl rfl
    · exact .inr ⟨entry, hentry, rfl⟩
  · rintro (rfl | ⟨entry, hentry, rfl⟩)
    · exact ⟨(k, value), .inl rfl, rfl⟩
    · by_cases hk : entry.1 = key
      · exact ⟨(key, value), .inl rfl, hk.symm⟩
      · exact ⟨entry, .inr ⟨hentry, hk⟩, rfl⟩

theorem forall_put {p : Text × Json → Prop}
    (h : ∀ entry ∈ members, p entry) (hp : p (key, value)) : ∀ entry ∈ put key value members, p entry := by
  intro entry hentry
  rcases mem_put.mp hentry with rfl | ⟨hentry, -⟩
  · exact hp
  · exact h entry hentry

theorem HasItems.put (h : HasItems members) (hkey : key ≠ lit "type")
    (value : Json) : HasItems (put key value members) := by
  intro harray
  rw [key_mem_put]
  rcases mem_put.mp harray with hsame | ⟨harray, -⟩
  · exact absurd (congrArg Prod.fst hsame).symm hkey
  · exact .inr (h harray)

/-! ### Reducing one node -/

structure Collected (node : Members) : Prop where
  nodup : (node.map Prod.fst).Nodup
  supported : ∀ entry ∈ node, entry.1 ∈ schemaKeywords
  subs : ∀ entry ∈ node, SubsAccepted entry

/-- A branch of `anyOf` is accepted once it has its items. -/
def BranchesPatched (entry : Text × Json) : Prop :=
  ∃ branches, entry = (lit "anyOf", .arr branches) ∧ ∀ branch ∈ branches, Accepted (patchBranch branch)

/-- A node with one type, whose branches may still lack their items. -/
structure SingleTyped (node : Members) : Prop where
  nodup : (node.map Prod.fst).Nodup
  supported : ∀ entry ∈ node, entry.1 ∈ schemaKeywords
  single : ∀ entry ∈ node, ∀ types, entry ≠ (lit "type", .arr types)
  subs : ∀ entry ∈ node, SubsAccepted entry ∨ BranchesPatched entry

/-- A node that is accepted, enumerations left aside. -/
structure Itemized (node : Members) : Prop where
  nodup : (node.map Prod.fst).Nodup
  supported : ∀ entry ∈ node, entry.1 ∈ schemaKeywords
  single : ∀ entry ∈ node, ∀ types, entry ≠ (lit "type", .arr types)
  items : HasItems node
  subs : ∀ entry ∈ node, SubsAccepted entry

theorem subsAccepted_of_no_sub (h : ∀ sub, ¬ SubValue entry.1 entry.2 sub) :
    SubsAccepted entry :=
  fun sub hsub => absurd hsub (h sub)

theorem accepted_any : Accepted (.obj []) :=
  accepted_obj (by simp) (fun h => absurd h List.not_mem_nil) (by simp)

theorem subsAccepted_any (hkey : key ∉ schemaMaps) : SubsAccepted (key, .obj []) := by
  rintro sub (⟨hmap, -⟩ | _)
  · exact absurd hmap hkey
  · exact accepted_any

theorem text?_eq_some {text : Text} : value.text? = some text ↔ value = .str text := by
  cases value <;> simp [text?]

theorem isString_iff {text : Text} {value : Option Json} :
    isString text value = true ↔ value = some (.str text) := by
  rw [isString, decide_eq_true_eq, Option.bind_eq_some_iff]
  simp only [text?_eq_some]
  constructor
  · rintro ⟨_, h, rfl⟩
    exact h
  · exact fun h => ⟨_, h, rfl⟩

theorem patchBranch_of_accepted {branch : Json} (h : Accepted branch) : patchBranch branch = branch := by
  cases branch with
  | obj members =>
    refine congrArg Json.obj (if_neg fun harray => ?_)
    rw [Bool.and_eq_true, isString_iff, Option.isNone_iff_eq_none] at harray
    have hitems := (h members .refl).2 (mem_of_lookup harray.1)
    exact lookup_eq_none.mp harray.2 hitems
  | _ => rfl

theorem supported_of_typeKeywords {name key : Text} (h : key ∈ (typeKeywords.lookup name).getD []) :
    key ∈ schemaKeywords ∧ key ≠ lit "type" ∧ key ≠ lit "enum" := by
  have hall : ∀ row ∈ typeKeywords, ∀ key ∈ row.2,
      key ∈ schemaKeywords ∧ key ≠ lit "type" ∧ key ≠ lit "enum" :=
    forall_mem_of_all (by decide)
  cases hrow : typeKeywords.lookup name with
  | none => simp [hrow] at h
  | some keys =>
    rw [hrow, Option.getD_some] at h
    exact hall _ (mem_of_lookup hrow) key h

theorem ne_typeList (hkey : key ≠ lit "type") (value : Json) (types : List Json) :
    (key, value) ≠ (lit "type", .arr types) :=
  fun hsame => hkey (congrArg Prod.fst hsame)

theorem keywordAccepted_of_not_list (hkey : key ∈ schemaKeywords)
    (h : ∀ items, value ≠ .arr items) : KeywordAccepted (key, value) := by
  refine ⟨hkey, fun types hsame => ?_, fun values hsame => ?_⟩
  · exact absurd (Prod.mk.inj hsame).2 (h types)
  · exact absurd (Prod.mk.inj hsame).2 (h values)

theorem hasItems_of_not_lacking (hnodup : (node.map Prod.fst).Nodup)
    (h : ¬ (isString (lit "array") (node.lookup (lit "type")) &&
      (node.lookup (lit "items")).isNone) = true) : HasItems node := by
  intro harray
  by_contra hno
  refine h ?_
  rw [Bool.and_eq_true, isString_iff, Option.isNone_iff_eq_none]
  exact ⟨lookup_of_mem hnodup harray, lookup_eq_none.mpr hno⟩

variable {kept : Members}

theorem accepted_typeBranch (h : Collected kept) (name : Text) :
    Accepted (patchBranch (typeBranch kept name)) := by
  generalize hfilter : (kept.filter fun entry =>
    decide (entry.1 ∈ (typeKeywords.lookup name).getD [])) = rest
  have hrest : ∀ entry ∈ rest, KeywordAccepted entry ∧ SubsAccepted entry := by
    intro entry hentry
    rw [← hfilter, List.mem_filter, decide_eq_true_eq] at hentry
    obtain ⟨hsupported, htype, henum⟩ := supported_of_typeKeywords hentry.2
    refine ⟨⟨hsupported, fun types h => ?_, fun values h => ?_⟩, h.subs entry hentry.1⟩
    · exact absurd (congrArg Prod.fst h) htype
    · exact absurd (congrArg Prod.fst h) henum
  have htype : KeywordAccepted (lit "type", .str name) :=
    keywordAccepted_of_not_list (by decide) fun items => by rintro ⟨⟩
  have hkeywords : ∀ entry ∈ (lit "type", .str name) :: rest, KeywordAccepted entry :=
    List.forall_mem_cons.mpr ⟨htype, fun entry hentry => (hrest entry hentry).1⟩
  have hsubs : ∀ entry ∈ (lit "type", .str name) :: rest, SubsAccepted entry :=
    List.forall_mem_cons.mpr
      ⟨subsAccepted_of_no_sub fun sub => by rintro ⟨⟩, fun entry hentry => (hrest entry hentry).2⟩
  have hnodup : (((lit "type", Json.str name) :: rest).map Prod.fst).Nodup := by
    rw [List.map_cons, List.nodup_cons, ← hfilter]
    refine ⟨fun hmem => ?_, h.nodup.sublist (List.filter_sublist.map _)⟩
    obtain ⟨entry, hentry, hkey⟩ := List.mem_map.mp hmem
    rw [List.mem_filter, decide_eq_true_eq] at hentry
    exact (supported_of_typeKeywords hentry.2).2.1 hkey
  rw [typeBranch, hfilter, patchBranch, withItems]
  split
  · refine accepted_obj (forall_put hkeywords ?_) (fun _ => key_mem_put.mpr (.inl rfl))
      (forall_put hsubs (subsAccepted_any (by decide)))
    exact keywordAccepted_of_not_list (by decide) fun items => by rintro ⟨⟩
  · next hno => exact accepted_obj hkeywords (hasItems_of_not_lacking hnodup hno) hsubs

theorem nodup_filter (h : (members.map Prod.fst).Nodup) (p : Text × Json → Bool) :
    ((members.filter p).map Prod.fst).Nodup :=
  h.sublist (List.filter_sublist.map _)

theorem SingleTyped.put (h : SingleTyped node)
    (hkey : key ∈ schemaKeywords) (hsingle : ∀ types, (key, value) ≠ (lit "type", .arr types))
    (hsubs : SubsAccepted (key, value) ∨ BranchesPatched (key, value)) :
    SingleTyped (put key value node) :=
  ⟨nodup_put h.nodup, forall_put h.supported hkey, forall_put h.single hsingle,
    forall_put h.subs hsubs⟩

theorem SingleTyped.filter (h : SingleTyped node) (p : Text × Json → Bool) :
    SingleTyped (node.filter p) :=
  ⟨nodup_filter h.nodup p, fun entry hentry => h.supported entry (List.mem_of_mem_filter hentry),
    fun entry hentry => h.single entry (List.mem_of_mem_filter hentry),
    fun entry hentry => h.subs entry (List.mem_of_mem_filter hentry)⟩

theorem singleTyped_collapse (h : Collected kept) (types : List Json) :
    SingleTyped (collapse kept types) := by
  have huntyped : SingleTyped (kept.filter fun entry => entry.1 ≠ lit "type") := by
    refine ⟨nodup_filter h.nodup _, fun entry hentry => ?_, fun entry hentry types hsame => ?_,
      fun entry hentry => .inl (h.subs entry (List.mem_of_mem_filter hentry))⟩
    · exact h.supported entry (List.mem_of_mem_filter hentry)
    · exact of_decide_eq_true (List.mem_filter.mp hentry).2 (congrArg Prod.fst hsame)
  unfold collapse
  simp only
  split
  · refine huntyped.put (by decide) (fun types hsame => ?_)
      (.inl (subsAccepted_of_no_sub fun sub => by rintro ⟨⟩))
    cases (Prod.mk.inj hsame).2
  · exact huntyped

theorem singleTyped_branchOut {kept collapsed : Members} (h : Collected kept)
    (hcollapsed : SingleTyped collapsed) (names : List Text) :
    SingleTyped (branchOut kept collapsed names) := by
  unfold branchOut
  simp only
  split
  · exact hcollapsed.filter _
  · refine (hcollapsed.filter _).put (by decide) (ne_typeList (by decide) _) (.inr ⟨_, rfl, ?_⟩)
    intro branch hbranch
    obtain ⟨name, -, rfl⟩ := List.mem_map.mp hbranch
    exact accepted_typeBranch h name

theorem singleTyped_singleType (h : Collected kept) : SingleTyped (singleType kept) := by
  unfold singleType
  split
  · next types htypes =>
    have hcollapsed := singleTyped_collapse h types
    split
    · exact hcollapsed
    · refine hcollapsed.put (by decide) (fun types hsame => ?_)
        (.inl (subsAccepted_of_no_sub fun sub => by rintro ⟨⟩))
      cases (Prod.mk.inj hsame).2
    · exact singleTyped_branchOut h hcollapsed _
  · next hno =>
    refine ⟨h.nodup, h.supported, ?_, fun entry hentry => .inl (h.subs entry hentry)⟩
    rintro entry hentry types rfl
    exact hno types (lookup_of_mem h.nodup hentry)

/-- What `_gemini_array_items` is given for the branches of `anyOf`. -/
theorem SingleTyped.branches (h : SingleTyped node) {branches : List Json}
    (hbranches : (lit "anyOf", .arr branches) ∈ node) :
    SubsAccepted (lit "anyOf", .arr (branches.map patchBranch)) := by
  have hnode : lit "anyOf" ∈ schemaNodes := by decide
  rintro sub (_ | _ | ⟨-, hsub⟩)
  obtain ⟨branch, hbranch, rfl⟩ := List.mem_map.mp hsub
  rcases h.subs _ hbranches with hsubs | ⟨other, hother, hpatched⟩
  · have haccepted : Accepted branch := hsubs branch (.item hnode hbranch)
    rw [patchBranch_of_accepted haccepted]
    exact haccepted
  · cases (Prod.mk.inj hother).2
    exact hpatched branch hbranch

theorem singleTyped_withItems (h : SingleTyped kept) :
    SingleTyped (withItems kept) ∧ HasItems (withItems kept) := by
  unfold withItems
  split
  · refine ⟨h.put (by decide) (fun types hsame => ?_) (.inl (subsAccepted_any (by decide))),
      fun _ => key_mem_put.mpr (.inl rfl)⟩
    cases (Prod.mk.inj hsame).2
  · next hno => exact ⟨h, hasItems_of_not_lacking h.nodup hno⟩

theorem itemized_arrayItems (h : SingleTyped kept) : Itemized (arrayItems kept) := by
  obtain ⟨htyped, hitems⟩ := singleTyped_withItems h
  unfold arrayItems
  generalize withItems kept = patched at htyped hitems
  split
  · next branches hbranches =>
    have haccepted := htyped.branches (mem_of_lookup hbranches)
    have hput : SingleTyped (put (lit "anyOf") (.arr (branches.map patchBranch)) patched) :=
      htyped.put (by decide) (ne_typeList (by decide) _) (.inl haccepted)
    refine ⟨hput.nodup, hput.supported, hput.single, hitems.put (by decide) _, fun entry hentry => ?_⟩
    rcases mem_put.mp hentry with rfl | ⟨hentry, hkey⟩
    · exact haccepted
    · rcases htyped.subs entry hentry with hsubs | ⟨other, rfl, -⟩
      · exact hsubs
      · exact absurd rfl hkey
  · next hno =>
    refine ⟨htyped.nodup, htyped.supported, htyped.single, hitems, fun entry hentry => ?_⟩
    rcases htyped.subs entry hentry with hsubs | ⟨branches, rfl, -⟩
    · exact hsubs
    · exact absurd (lookup_of_mem htyped.nodup hentry) (hno branches)

structure Normal (node : Members) : Prop where
  keywords : ∀ entry ∈ node, KeywordAccepted entry
  items : HasItems node
  subs : ∀ entry ∈ node, SubsAccepted entry

theorem isStringOrNull_enumString (value : Json) : isStringOrNull (enumString value) = true := by
  unfold enumString
  split
  · assumption
  · rfl

theorem normal_enumStrings (h : Itemized kept) : Normal (enumStrings kept) := by
  have hkeyword : ∀ entry ∈ kept, (∀ values, entry = (lit "enum", .arr values) →
      ∀ value ∈ values, isStringOrNull value = true) → KeywordAccepted entry :=
    fun entry hentry henum => ⟨h.supported entry hentry, h.single entry hentry, henum⟩
  unfold enumStrings
  split
  · next values hvalues =>
    split
    · next hall =>
      refine ⟨fun entry hentry => hkeyword entry hentry ?_, h.items, h.subs⟩
      rintro others rfl value hvalue
      have hsame := (lookup_of_mem h.nodup hentry).symm.trans hvalues
      cases hsame
      exact List.all_eq_true.mp hall value hvalue
    · refine ⟨fun entry hentry => ?_, h.items.put (by decide) _,
        forall_put h.subs (subsAccepted_of_no_sub fun sub => ?_)⟩
      · rcases mem_put.mp hentry with rfl | ⟨hentry, hkey⟩
        · have hsupported : lit "enum" ∈ schemaKeywords := by decide
          refine ⟨hsupported, ne_typeList (by decide) _, fun others hsame value hvalue => ?_⟩
          cases (Prod.mk.inj hsame).2
          obtain ⟨other, -, rfl⟩ := List.mem_map.mp hvalue
          exact isStringOrNull_enumString other
        · refine hkeyword entry hentry ?_
          rintro others rfl
          exact absurd rfl hkey
      · have hnot : lit "enum" ∉ schemaNodes := by decide
        rintro (_ | _ | ⟨hnode, -⟩)
        exact hnot hnode
  · next hno =>
    refine ⟨fun entry hentry => hkeyword entry hentry ?_, h.items, h.subs⟩
    rintro values rfl
    exact absurd (lookup_of_mem h.nodup hentry) (hno values)

theorem Normal.put (h : Normal node)
    (hentry : KeywordAccepted (key, value)) (htype : key ≠ lit "type")
    (hsubs : SubsAccepted (key, value)) : Normal (put key value node) :=
  ⟨forall_put h.keywords hentry, h.items.put htype _, forall_put h.subs hsubs⟩

theorem Normal.accepted (h : Normal node) : Accepted (.obj node) :=
  accepted_obj h.keywords h.items h.subs

section

variable (reprText : Text → Text)

theorem normal_normalized (node : Members) (h : Collected kept) :
    Normal (normalized reprText node kept) := by
  have hnormal := normal_enumStrings (itemized_arrayItems (singleTyped_singleType h))
  unfold normalized foldBounds
  split
  · exact hnormal
  · have hother : lit "description" ≠ lit "type" := by decide
    have hsupported : lit "description" ∈ schemaKeywords := by decide
    exact hnormal.put (keywordAccepted_of_not_list hsupported fun items => by rintro ⟨⟩) hother
      (subsAccepted_of_no_sub fun sub => by rintro ⟨⟩)

theorem mem_of_mem_update {members others : Members}
    (h : entry ∈ update members others) : entry ∈ members ∨ entry ∈ others := by
  unfold update at h
  induction others generalizing members with
  | nil => exact .inl h
  | cons other others ih =>
    rcases ih h with h | h
    · rcases mem_put.mp h with rfl | ⟨h, -⟩
      · exact .inr List.mem_cons_self
      · exact .inl h
    · exact .inr (List.mem_cons_of_mem _ h)

theorem key_mem_update {members others : Members} :
    key ∈ (update members others).map Prod.fst ↔
      key ∈ members.map Prod.fst ∨ key ∈ others.map Prod.fst := by
  unfold update
  induction others generalizing members with
  | nil => simp
  | cons other others ih =>
    rw [List.foldl_cons, ih, key_mem_put, List.map_cons, List.mem_cons, or_comm (a := key = other.1),
      or_assoc]

theorem Normal.update {expanded kept : Members} (h : Normal expanded) (h' : Normal kept) :
    Normal (update expanded kept) := by
  refine ⟨fun entry hentry => ?_, fun harray => ?_, fun entry hentry => ?_⟩
  · rcases mem_of_mem_update hentry with hentry | hentry
    · exact h.keywords entry hentry
    · exact h'.keywords entry hentry
  · rw [key_mem_update]
    rcases mem_of_mem_update harray with harray | harray
    · exact .inl (h.items harray)
    · exact .inr (h'.items harray)
  · rcases mem_of_mem_update hentry with hentry | hentry
    · exact h.subs entry hentry
    · exact h'.subs entry hentry

/-! ### The walk yields accepted schemas -/

def ExpandsAccepted (expand : Expander) : Prop :=
  ∀ target expanded, expand target = .ok (some expanded) → Normal expanded

theorem pure_eq_ok {α : Type} {a b : α} : (pure a : Except GeminiError α) = .ok b ↔ a = b := by
  simp [pure, Except.pure]

variable {reprText}

variable {expand : Expander}

theorem normal_finishNode (hexpand : ExpandsAccepted expand) {node kept result : Members}
    (hkept : Collected kept) (h : finishNode reprText expand node kept = .ok result) : Normal result := by
  have hnormal := normal_normalized reprText node hkept
  unfold finishNode at h
  split at h
  · obtain ⟨expanded, hexpanded, h⟩ := bind_eq_ok h
    split at h
    · next expanded =>
      obtain rfl := pure_eq_ok.mp h
      exact (hexpand _ _ hexpanded).update hnormal
    · obtain rfl := pure_eq_ok.mp h
      exact hnormal
  · obtain rfl := pure_eq_ok.mp h
    exact hnormal

theorem notMem_schemaNodes (h : key ∈ schemaMaps) : key ∉ schemaNodes := by
  obtain rfl := List.mem_singleton.mp h
  decide

theorem collected_nil : Collected [] := ⟨List.nodup_nil, by simp, by simp⟩

theorem Collected.put (h : Collected kept)
    (hkey : key ∈ schemaKeywords) (hsubs : SubsAccepted (key, value)) :
    Collected (put key value kept) :=
  ⟨nodup_put h.nodup, forall_put h.supported hkey, forall_put h.subs hsubs⟩

mutual

theorem collected_geminiKeywords (hexpand : ExpandsAccepted expand) (node : Members)
    (kept result : Members) (hkept : Collected kept)
    (h : geminiKeywords reprText expand kept node = .ok result) : Collected result := by
  match node with
  | [] =>
    cases h
    exact hkept
  | (key, value) :: node =>
    rw [geminiKeywords] at h
    split at h
    · next hkey =>
      obtain ⟨reduced, hreduced, h⟩ := bind_eq_ok h
      have hsubs := subsAccepted_geminiKeywordValue hexpand key value reduced hreduced
      exact collected_geminiKeywords hexpand node _ result (hkept.put hkey hsubs) h
    · exact collected_geminiKeywords hexpand node kept result hkept h

theorem subsAccepted_geminiKeywordValue (hexpand : ExpandsAccepted expand)
    (key : Text) (value result : Json)
    (h : geminiKeywordValue reprText expand key value = .ok result) : SubsAccepted (key, result) := by
  match value with
  | .obj members =>
    rw [geminiKeywordValue] at h
    split at h
    · next hmap =>
      obtain ⟨reduced, hreduced, h⟩ := bind_eq_ok h
      obtain rfl := pure_eq_ok.mp h
      rintro sub (⟨-, hmem⟩ | hnode)
      · exact accepted_geminiProperties hexpand members reduced hreduced _ hmem
      · exact absurd hnode (notMem_schemaNodes hmap)
    next hmap =>
    split at h
    · obtain ⟨kept, hkept, h⟩ := bind_eq_ok h
      obtain ⟨reduced, hreduced, h⟩ := bind_eq_ok h
      obtain rfl := pure_eq_ok.mp h
      have hcollected := collected_geminiKeywords hexpand members [] kept collected_nil hkept
      rintro sub (⟨hmap', -⟩ | _)
      · exact absurd hmap' hmap
      · exact (normal_finishNode hexpand hcollected hreduced).accepted
    next hnode =>
    obtain rfl := pure_eq_ok.mp h
    rintro sub (⟨hmap', -⟩ | hnode')
    · exact absurd hmap' hmap
    · exact absurd hnode' hnode
  | .arr items =>
    rw [geminiKeywordValue] at h
    split at h
    · obtain ⟨reduced, hreduced, h⟩ := bind_eq_ok h
      obtain rfl := pure_eq_ok.mp h
      rintro sub (_ | _ | ⟨-, hmem⟩)
      exact accepted_geminiItems hexpand items reduced hreduced sub hmem
    next hnode =>
    obtain rfl := pure_eq_ok.mp h
    rintro sub (_ | _ | ⟨hnode', -⟩)
    exact absurd hnode' hnode
  | .null | .bool _ | .int _ | .float _ | .str _ =>
    obtain rfl := pure_eq_ok.mp h
    exact subsAccepted_of_no_sub fun sub => by rintro ⟨⟩

theorem accepted_geminiProperties (hexpand : ExpandsAccepted expand)
    (members result : Members) (h : geminiProperties reprText expand members = .ok result) :
    ∀ entry ∈ result, Accepted entry.2 := by
  match members with
  | [] =>
    cases h
    simp
  | (name, sub) :: members =>
    obtain ⟨reduced, hreduced, h⟩ := bind_eq_ok h
    obtain ⟨rest, hrest, h⟩ := bind_eq_ok h
    obtain rfl := pure_eq_ok.mp h
    exact List.forall_mem_cons.mpr ⟨accepted_geminiSub hexpand sub reduced hreduced,
      accepted_geminiProperties hexpand members rest hrest⟩

theorem accepted_geminiItems (hexpand : ExpandsAccepted expand)
    (items result : List Json) (h : geminiItems reprText expand items = .ok result) :
    ∀ item ∈ result, Accepted item := by
  match items with
  | [] =>
    cases h
    simp
  | sub :: items =>
    obtain ⟨reduced, hreduced, h⟩ := bind_eq_ok h
    obtain ⟨rest, hrest, h⟩ := bind_eq_ok h
    obtain rfl := pure_eq_ok.mp h
    exact List.forall_mem_cons.mpr ⟨accepted_geminiSub hexpand sub reduced hreduced,
      accepted_geminiItems hexpand items rest hrest⟩

theorem accepted_geminiSub (hexpand : ExpandsAccepted expand) (sub result : Json)
    (h : geminiSub reprText expand sub = .ok result) : Accepted result := by
  match sub with
  | .obj members =>
    obtain ⟨kept, hkept, h⟩ := bind_eq_ok h
    obtain ⟨reduced, hreduced, h⟩ := bind_eq_ok h
    obtain rfl := pure_eq_ok.mp h
    have hcollected := collected_geminiKeywords hexpand members [] kept collected_nil hkept
    exact (normal_finishNode hexpand hcollected hreduced).accepted
  | .arr _ | .null | .bool _ | .int _ | .float _ | .str _ =>
    obtain rfl := pure_eq_ok.mp h
    exact accepted_of_not_mapping rfl

end

theorem normal_geminiNode (hexpand : ExpandsAccepted expand) {node : Json}
    {result : Members} (h : geminiNode reprText expand node = .ok result) : Normal result := by
  cases node with
  | obj members =>
    obtain ⟨kept, hkept, h⟩ := bind_eq_ok h
    exact normal_finishNode hexpand
      (collected_geminiKeywords hexpand members [] kept collected_nil hkept) h
  | _ => cases h

attribute [local grind =] expandRef

variable {defs : Members} {seen : List Text}

theorem expandRef_of_closed {fuel : ℕ} {target : Text}
    (h : target ∈ seen ∨ defs.lookup target = none) : expandRef reprText defs fuel seen target = .ok none := by
  cases fuel <;> rcases h with h | h <;> simp [expandRef, h]

theorem expandRef_zero {target : Text} {definition : Json}
    (h : target ∉ seen) (hlookup : defs.lookup target = some definition) :
    expandRef reprText defs 0 seen target = .error .outOfFuel := by
  simp [expandRef, h, hlookup]

theorem expandRef_succ {fuel : ℕ} {target : Text}
    {definition : Json} (h : target ∉ seen) (hlookup : defs.lookup target = some definition) :
    expandRef reprText defs (fuel + 1) seen target =
      (geminiNode reprText (expandRef reprText defs fuel (seen ++ [target])) definition).map some := by
  simp [expandRef, h, hlookup]

theorem expandRef_induction {motive : ℕ → List Text → Text → Except GeminiError (Option Members) → Prop}
    (closed : ∀ fuel seen target, (target ∈ seen ∨ defs.lookup target = none) →
      motive fuel seen target (.ok none))
    (empty : ∀ seen target definition, target ∉ seen → defs.lookup target = some definition →
      motive 0 seen target (.error .outOfFuel))
    (reduced : ∀ fuel seen target definition, target ∉ seen → defs.lookup target = some definition →
      (∀ next, motive fuel (seen ++ [target]) next (expandRef reprText defs fuel (seen ++ [target]) next)) →
      motive (fuel + 1) seen target
        ((geminiNode reprText (expandRef reprText defs fuel (seen ++ [target])) definition).map some))
    (fuel : ℕ) (seen : List Text) (target : Text) :
    motive fuel seen target (expandRef reprText defs fuel seen target) := by
  induction fuel generalizing seen target with
  | zero =>
    by_cases hclosed : target ∈ seen ∨ defs.lookup target = none
    · rw [expandRef_of_closed hclosed]
      exact closed 0 seen target hclosed
    · obtain ⟨hseen, hlookup⟩ := not_or.mp hclosed
      obtain ⟨definition, hlookup⟩ := Option.ne_none_iff_exists'.mp hlookup
      rw [expandRef_zero hseen hlookup]
      exact empty seen target definition hseen hlookup
  | succ fuel ih =>
    by_cases hclosed : target ∈ seen ∨ defs.lookup target = none
    · rw [expandRef_of_closed hclosed]
      exact closed (fuel + 1) seen target hclosed
    · obtain ⟨hseen, hlookup⟩ := not_or.mp hclosed
      obtain ⟨definition, hlookup⟩ := Option.ne_none_iff_exists'.mp hlookup
      rw [expandRef_succ hseen hlookup]
      exact reduced fuel seen target definition hseen hlookup fun next => ih (seen ++ [target]) next

theorem map_some_eq_ok {x : Except GeminiError Members} {expanded : Option Members} :
    x.map some = .ok expanded ↔ ∃ members, x = .ok members ∧ expanded = some members := by
  cases x with
  | error e => simp [Except.map]
  | ok members => simp [Except.map, eq_comm]

theorem expandsAccepted_expandRef (defs : Members) (fuel : ℕ) (seen : List Text) :
    ExpandsAccepted (expandRef reprText defs fuel seen) := by
  intro target expanded
  refine expandRef_induction (motive := fun _ _ _ result =>
    ∀ expanded, result = .ok (some expanded) → Normal expanded) ?_ ?_ ?_ fuel seen target expanded
  · exact fun _ _ _ _ _ h => nomatch h
  · exact fun _ _ _ _ _ _ h => nomatch h
  · intro fuel seen target definition _ _ ih expanded h
    obtain ⟨members, hmembers, hsame⟩ := map_some_eq_ok.mp h
    obtain rfl := Option.some.inj hsame
    exact normal_geminiNode (fun next expanded => ih next expanded) hmembers

theorem accepted_of_geminiSchema {schema : Members} {result : Json}
    (h : geminiSchema reprText schema = .ok result) : Accepted result := by
  obtain ⟨defs, -, h⟩ := bind_eq_ok h
  obtain ⟨root, hroot, h⟩ := bind_eq_ok h
  obtain rfl := pure_eq_ok.mp h
  exact (normal_geminiNode (expandsAccepted_expandRef defs _ _) hroot).accepted

end

end VidbyteSdk.Tools.Gemini
