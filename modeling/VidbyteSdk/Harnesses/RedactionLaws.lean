import VidbyteSdk.Harnesses.Redaction
import VidbyteSdk.Lib.Checks

/-!
# What a redaction shows

A captured graph unfolds to a tree: a container is shown again wherever it is met, and a mark stands where a container
is met inside itself. The redactor gives the plain data of that tree, without the keys that name a credential.
-/

namespace VidbyteSdk.Harnesses

open Lib Util

section

variable (rt : RedactorRuntime) (containers : List Container)

/-! ### Unfolding -/

def Captured.leaf : Captured → Option Value
  | null => some .null
  | bool b => some (.bool b)
  | int n => some (.int n)
  | float repr isFinite => some (if isFinite then .float repr else dropped "non_finite_float")
  | str s => some (.str (scrubText s))
  | rendered s => some (.str s)
  | member _ | ref _ => none

def Container.shown : Container → List Captured
  | set items => sortedByRepr rt containers items
  | other => other.values

def Container.build : Container → List Value → Value
  | mapping entries, values => .mapping (entries.zipWith (fun entry value => (entry.1, value)) values)
  | sequence _, values | set _, values => .list values
  | dataclass fields, values => .mapping (fields.zipWith (fun field value => (⟨field.1, true⟩, value)) values)
  | exported typeName _, values => values.headD (dropped typeName)

inductive Unfolds : List ℕ → Captured → Value → Prop
  | leaf {path : List ℕ} {value : Captured} {tree : Value} (h : value.plain.leaf = some tree) : Unfolds path value tree
  | cycle {path : List ℕ} {value : Captured} {place : ℕ} (hplace : value.plain = .ref place) (h : place ∈ path) :
    Unfolds path value (dropped "recursive_reference")
  | opened {path : List ℕ} {value : Captured} {place : ℕ} {container : Container} {trees : List Value}
      (hplace : value.plain = .ref place) (h : place ∉ path) (hcontainer : containers[place]? = some container)
      (hlength : (container.shown rt containers).length = trees.length)
      (htrees : ∀ pair ∈ (container.shown rt containers).zip trees, Unfolds (place :: path) pair.1 pair.2) :
    Unfolds path value (container.build trees)

def Inside (inner outer : ℕ) : Prop :=
  ∃ container, containers[outer]? = some container ∧ ∃ value ∈ container.values, value.plain = .ref inner

/-- A tree in which only a container inside itself is marked as recursive. -/
inductive MarksCyclesOnly : Captured → Value → Prop
  | leaf {value : Captured} {tree : Value} (h : value.plain.leaf = some tree) : MarksCyclesOnly value tree
  | cycle {value : Captured} {place : ℕ} (hplace : value.plain = .ref place)
      (h : Relation.TransGen (Inside containers) place place) :
    MarksCyclesOnly value (dropped "recursive_reference")
  | opened {value : Captured} {place : ℕ} {container : Container} {trees : List Value}
      (hplace : value.plain = .ref place) (hcontainer : containers[place]? = some container)
      (hlength : (container.shown rt containers).length = trees.length)
      (htrees : ∀ pair ∈ (container.shown rt containers).zip trees, MarksCyclesOnly pair.1 pair.2) :
    MarksCyclesOnly value (container.build trees)

end

variable {rt : RedactorRuntime} {containers : List Container}

variable {value : Captured}

variable {container : Container}

theorem mem_shown :
    value ∈ container.shown rt containers ↔ value ∈ container.values := by
  cases container with
  | set items => exact List.mem_mergeSort
  | mapping | sequence | dataclass | exported => rfl

variable {path : List ℕ}

variable {tree : Value}

theorem Unfolds.marksCyclesOnly (h : Unfolds rt containers path value tree)
    (hpath : ∀ place, value.plain = .ref place → ∀ outer ∈ path, Relation.TransGen (Inside containers) place outer) :
    MarksCyclesOnly rt containers value tree := by
  induction h with
  | leaf h => exact .leaf h
  | cycle hplace h => exact .cycle hplace (hpath _ hplace _ h)
  | @opened path value place container trees hplace _ hcontainer hlength _ ih =>
    refine .opened hplace hcontainer hlength fun pair hpair => ih pair hpair fun inner hinner outer houter => ?_
    have hinside : Inside containers inner place :=
      ⟨container, hcontainer, pair.1, mem_shown.mp (List.of_mem_zip hpair).1, hinner⟩
    rcases List.mem_cons.mp houter with rfl | houter
    · exact .single hinside
    · exact .head hinside (hpath place hplace outer houter)

/-! ### The redactor shows the tree -/

def RedactorRuntime.filter (rt : RedactorRuntime) : Value.Filter := { drops := isSecretKey rt, mark := dropped }

theorem RedactorRuntime.marks (rt : RedactorRuntime) : rt.filter.Marks := by
  intro typeName
  refine .mapping (List.nodup_singleton _) (fun entry hentry => ?_) fun entry hentry => ?_
  all_goals obtain rfl := List.mem_singleton.mp hentry
  · exact ⟨rfl, CredentialKeyPolicy.isSecretKey_dropped rt.toCasing⟩
  · exact .scalar trivial

theorem project_dropped (reason : String) : (dropped reason).project rt.filter = dropped reason :=
  Value.project_of_plain (rt.marks reason)

theorem leaf_cases (h : value.leaf = some tree) :
    tree.IsScalar ∨ ∃ reason, tree = dropped reason := by
  cases value with
  | float repr isFinite =>
    obtain rfl := Option.some.inj h
    cases isFinite with
    | true => exact .inl trivial
    | false => exact .inr ⟨_, rfl⟩
  | null | bool | int | str | rendered =>
    obtain rfl := Option.some.inj h
    exact .inl trivial
  | member | ref => cases h

theorem project_leaf (h : value.leaf = some tree) :
    tree.project rt.filter = tree := by
  rcases leaf_cases h with hscalar | ⟨reason, rfl⟩
  · exact Value.project_of_isScalar hscalar
  · exact project_dropped reason

theorem ref_of_leaf_eq_none (h : value.plain.leaf = none) : ∃ place, value.plain = .ref place := by
  induction value with
  | member value ih => exact ih h
  | ref place => exact ⟨place, rfl⟩
  | null | bool | int | float | str | rendered => cases h

theorem safe_leaf (h : value.plain.leaf = some tree) (fuel : ℕ) (path : List ℕ) :
    safe rt containers (fuel + 1) path value = some tree := by
  rw [safe]
  cases hplain : value.plain with
  | member | ref =>
    rw [hplain] at h
    cases h
  | null | bool | int | float | str | rendered =>
    rw [hplain] at h
    exact h

variable {trees : List Value}

variable {entries : List (Key × Captured)}

theorem safeMapping_eq {safe : Captured → Option Value}
    (h : List.Forall₂ (fun value tree => safe value = some (tree.project rt.filter)) (entries.map Prod.snd) trees) :
    safeMapping rt safe entries =
      some ((Value.mapping (entries.zipWith (fun entry value => (entry.1, value)) trees)).project rt.filter) := by
  have hrows : (entries.filter fun entry => !isSecretKey rt entry.1.text).mapM (fun entry =>
      (safe entry.2).map fun value => ((⟨entry.1.text, true⟩ : Key), value)) =
      some (Value.projectEntries rt.filter (entries.zipWith (fun entry value => (entry.1, value)) trees)) := by
    rw [List.forall₂_map_left_iff] at h
    induction h with
    | nil => rfl
    | @cons entry tree entries trees hentry _ ih =>
      rw [List.zipWith_cons_cons, Value.projectEntries]
      cases hsecret : isSecretKey rt entry.1.text with
      | true =>
        rw [List.filter_cons_of_neg (by rw [hsecret]; decide), ih]
        exact congrArg some (if_pos hsecret).symm
      | false =>
        rw [List.filter_cons_of_pos (by rw [hsecret]; rfl), List.mapM_cons, hentry, Option.map_some, ih]
        exact congrArg some (if_neg (Bool.eq_false_iff.mp hsecret)).symm
  rw [safeMapping, hrows, Option.map_some, Value.project_mapping, Value.projectMapping]

theorem mapM_safe {safe : Captured → Option Value} {values : List Captured}
    (h : List.Forall₂ (fun value tree => safe value = some (tree.project rt.filter)) values trees) :
    (values.mapM safe).map Value.list = some ((Value.list trees).project rt.filter) := by
  have hvalues : values.mapM safe = some (trees.map (Value.project rt.filter)) := by
    rw [mapM_eq_some_iff, List.forall₂_map_right_iff]
    exact h
  rw [hvalues, Option.map_some, Value.project, Value.projectItems_eq]

theorem projectStructuredValue_eq {safe : Captured → Option Value}
    (h : List.Forall₂ (fun value tree => safe value = some (tree.project rt.filter))
      (container.shown rt containers) trees) :
    projectStructuredValue rt containers safe container = some ((container.build trees).project rt.filter) := by
  cases container with
  | mapping entries => exact safeMapping_eq h
  | sequence items => exact mapM_safe h
  | set items => exact mapM_safe h
  | dataclass fields =>
    have hentries : List.Forall₂ (fun value tree => safe value = some (tree.project rt.filter))
        ((fields.map fun field => ((⟨field.1, true⟩ : Key), field.2)).map Prod.snd) trees := by
      rw [List.map_map]
      exact h
    have hfields := safeMapping_eq hentries
    rw [List.zipWith_map_left] at hfields
    exact hfields
  | exported typeName dump =>
    cases dump with
    | none =>
      cases h
      exact congrArg some (project_dropped typeName).symm
    | some dump =>
      cases h with
      | cons hdump hrest =>
        cases hrest
        exact hdump

theorem length_le_of_nodup {count : ℕ} (hnodup : path.Nodup) (hpath : ∀ place ∈ path, place < count) :
    path.length ≤ count := by
  have hsub : path ⊆ List.range count := fun place hplace => List.mem_range.mpr (hpath place hplace)
  calc path.length ≤ (List.range count).length := (List.subperm_of_subset hnodup hsub).length_le
    _ = count := List.length_range

theorem exists_forall₂ {α β : Type} {R : α → β → Prop} {l : List α} (h : ∀ a ∈ l, ∃ b, R a b) :
    ∃ l', List.Forall₂ R l l' := by
  induction l with
  | nil => exact ⟨[], .nil⟩
  | cons a l ih =>
    obtain ⟨b, hb⟩ := h a List.mem_cons_self
    obtain ⟨l', hl'⟩ := ih fun c hc => h c (List.mem_cons_of_mem a hc)
    exact ⟨b :: l', .cons hb hl'⟩

structure Fueled (containers : List Container) (fuel : ℕ) (path : List ℕ) : Prop where
  nodup : path.Nodup
  within : ∀ place ∈ path, place < containers.length
  fuel : containers.length < fuel + path.length

theorem Fueled.exists_succ {fuel : ℕ} (h : Fueled containers fuel path) : ∃ left, fuel = left + 1 := by
  refine Nat.exists_eq_succ_of_ne_zero fun hzero => ?_
  have hfuel := h.fuel
  rw [hzero, Nat.zero_add] at hfuel
  exact Nat.not_lt_of_le (length_le_of_nodup h.nodup h.within) hfuel

theorem Fueled.push {fuel place : ℕ} (h : Fueled containers (fuel + 1) path) (hopen : place ∉ path)
    (hplace : place < containers.length) : Fueled containers fuel (place :: path) where
  nodup := List.nodup_cons.mpr ⟨hopen, h.nodup⟩
  within := List.forall_mem_cons.mpr ⟨hplace, h.within⟩
  fuel := by
    have hfuel := h.fuel
    rw [List.length_cons]
    omega

theorem Unfolds.safe_eq (h : Unfolds rt containers path value tree)
    {fuel : ℕ} (hfuel : Fueled containers fuel path) :
    safe rt containers fuel path value = some (tree.project rt.filter) := by
  induction h generalizing fuel with
  | leaf hleaf =>
    obtain ⟨left, rfl⟩ := hfuel.exists_succ
    rw [safe_leaf hleaf, project_leaf hleaf]
  | cycle hplace hopen =>
    obtain ⟨left, rfl⟩ := hfuel.exists_succ
    rw [safe, hplace, project_dropped]
    exact if_pos hopen
  | @opened path value place container trees hplace hopen hcontainer hlength _ ih =>
    obtain ⟨left, rfl⟩ := hfuel.exists_succ
    have hnext := hfuel.push hopen (List.getElem?_eq_some_iff.mp hcontainer).1
    rw [safe, hplace]
    dsimp only
    rw [if_neg hopen, hcontainer, Option.bind_some]
    exact projectStructuredValue_eq (List.forall₂_iff_zip.mpr ⟨hlength, fun hpair => ih _ hpair hnext⟩)

theorem exists_unfolds (hclosed : ∀ container ∈ containers, ∀ value ∈ container.values, value.Within containers.length)
    {fuel : ℕ} (hfuel : Fueled containers fuel path)
    (hwithin : value.Within containers.length) : ∃ tree, Unfolds rt containers path value tree := by
  induction fuel generalizing path value with
  | zero =>
    obtain ⟨left, hleft⟩ := hfuel.exists_succ
    cases hleft
  | succ fuel ih =>
    cases hleaf : value.plain.leaf with
    | some tree => exact ⟨tree, .leaf hleaf⟩
    | none =>
      obtain ⟨place, hplace⟩ := ref_of_leaf_eq_none hleaf
      by_cases hopen : place ∈ path
      · exact ⟨_, .cycle hplace hopen⟩
      · have hlt := hwithin place hplace
        have hvalues : ∀ inner ∈ (containers[place]).shown rt containers, ∃ tree,
            Unfolds rt containers (place :: path) inner tree := fun inner hinner =>
          ih (hfuel.push hopen hlt) (hclosed _ (List.getElem_mem hlt) inner (mem_shown.mp hinner))
        obtain ⟨trees, htrees⟩ := exists_forall₂ hvalues
        obtain ⟨hlength, hpairs⟩ := List.forall₂_iff_zip.mp htrees
        exact ⟨_, .opened hplace hopen (List.getElem?_eq_getElem hlt) hlength fun pair hpair => hpairs hpair⟩

theorem jsonLike_dropped (reason : String) : (dropped reason).JsonLike :=
  .mapping fun _ hentry => List.mem_singleton.mp hentry ▸ .scalar trivial

theorem snd_mem_of_mem_zipWith {α : Type} {key : α → Key} {rows : List α} {entry : Key × Value}
    (h : entry ∈ rows.zipWith (fun row tree => (key row, tree)) trees) : entry.2 ∈ trees := by
  rw [← List.map_uncurry_zip_eq_zipWith] at h
  obtain ⟨pair, hpair, rfl⟩ := List.mem_map.mp h
  exact (List.of_mem_zip hpair).2

theorem Unfolds.jsonLike (h : Unfolds rt containers path value tree) : tree.JsonLike := by
  induction h with
  | leaf hleaf =>
    rcases leaf_cases hleaf with hscalar | ⟨reason, rfl⟩
    · exact .scalar hscalar
    · exact jsonLike_dropped reason
  | cycle => exact jsonLike_dropped _
  | @opened path value place container trees _ _ _ hlength _ ih =>
    have htrees : ∀ tree ∈ trees, tree.JsonLike := by
      intro tree htree
      rw [← List.map_snd_zip hlength.ge] at htree
      obtain ⟨pair, hpair, rfl⟩ := List.mem_map.mp htree
      exact ih pair hpair
    cases container with
    | mapping entries => exact .mapping fun entry hentry => htrees _ (snd_mem_of_mem_zipWith hentry)
    | sequence items | set items => exact .list htrees
    | dataclass fields => exact .mapping fun entry hentry => htrees _ (snd_mem_of_mem_zipWith hentry)
    | exported typeName dump =>
      cases trees with
      | nil => exact jsonLike_dropped typeName
      | cons tree trees => exact htrees tree List.mem_cons_self

/-! ### The order of the entries -/

theorem map_text_projectMapping {f : Value.Filter} {entries : Mapping}
    (hdistinct : ((entries.map (·.1.text)).filter fun text => !f.drops text).Nodup) :
    (Value.projectMapping f entries).map (·.1.text) = (entries.map (·.1.text)).filter fun text => !f.drops text := by
  have htexts : (Value.projectEntries f entries).map (·.1.text) =
      (entries.map (·.1.text)).filter fun text => !f.drops text := by
    rw [Value.projectEntries_eq, List.map_map, List.filter_map]
    rfl
  rw [← htexts] at hdistinct ⊢
  rw [Value.projectMapping, upsertAll_of_nodup]
  refine List.Nodup.of_map Key.text ?_
  rw [List.map_map]
  exact hdistinct

/-! ### A second time -/

/-- A graph holds plain data: as dictionaries with string keys, as lists and as scalars. -/
inductive Holds (containers : List Container) : Captured → Value → Prop
  | null : Holds containers .null .null
  | bool (b : Bool) : Holds containers (.bool b) (.bool b)
  | int (n : ℤ) : Holds containers (.int n) (.int n)
  | float (repr : String) : Holds containers (.float repr true) (.float repr)
  | str (s : String) : Holds containers (.str s) (.str s)
  | list {place : ℕ} {items : List Captured} {values : List Value} (h : containers[place]? = some (.sequence items))
      (hlength : items.length = values.length) (hitems : ∀ pair ∈ items.zip values, Holds containers pair.1 pair.2) :
    Holds containers (.ref place) (.list values)
  | mapping {place : ℕ} {entries : List (Key × Captured)} {values : Mapping}
      (h : containers[place]? = some (.mapping entries)) (hkeys : entries.map Prod.fst = values.map Prod.fst)
      (hentries : ∀ pair ∈ (entries.map Prod.snd).zip (values.map Prod.snd), Holds containers pair.1 pair.2) :
    Holds containers (.ref place) (.mapping values)

theorem eq_of_zip {α β : Type} {R : α → β → Prop} {l : List α} {l₁ l₂ : List β} (h₁ : l.length = l₁.length)
    (h₂ : l.length = l₂.length) (hunique : ∀ pair ∈ l.zip l₁, ∀ b, R pair.1 b → pair.2 = b)
    (hR : ∀ pair ∈ l.zip l₂, R pair.1 pair.2) : l₁ = l₂ := by
  induction l generalizing l₁ l₂ with
  | nil => rw [List.length_eq_zero_iff.mp h₁.symm, List.length_eq_zero_iff.mp h₂.symm]
  | cons a l ih =>
    match l₁, l₂ with
    | [], _ => cases h₁
    | _ :: _, [] => cases h₂
    | b :: l₁, c :: l₂ =>
      rw [List.zip_cons_cons, List.forall_mem_cons] at hunique hR
      have hhead : b = c := hunique.1 c hR.1
      rw [hhead, ih (Nat.succ.inj h₁) (Nat.succ.inj h₂) hunique.2 hR.2]

theorem Holds.unique {data data' : Value} (h : Holds containers value data)
    (h' : Holds containers value data') : data = data' := by
  induction h generalizing data' with
  | null | bool | int | float | str =>
    cases h'
    rfl
  | @list place items values hplace hlength _ ih =>
    cases h' with
    | mapping hplace' =>
      rw [hplace] at hplace'
      cases hplace'
    | @list _ items' values' hplace' hlength' hitems' =>
      rw [hplace] at hplace'
      cases hplace'
      rw [eq_of_zip hlength hlength' (fun pair hpair w hw => ih pair hpair hw) hitems']
  | @mapping place entries values hplace hkeys _ ih =>
    cases h' with
    | list hplace' =>
      rw [hplace] at hplace'
      cases hplace'
    | @mapping _ entries' values' hplace' hkeys' hentries' =>
      rw [hplace] at hplace'
      cases hplace'
      have hlength {data : Mapping} (hdata : entries.map Prod.fst = data.map Prod.fst) :
          (entries.map Prod.snd).length = (data.map Prod.snd).length := by
        rw [List.length_map, List.length_map, ← List.length_map Prod.fst, hdata, List.length_map]
      have hvalues := eq_of_zip (hlength hkeys) (hlength hkeys') (fun pair hpair w hw => ih pair hpair hw) hentries'
      rw [List.zip_of_prod (hkeys.symm.trans hkeys') hvalues, ← List.zip_of_prod rfl rfl]

variable {data : Value}

theorem sizeOf_lt_mapping {values : Mapping} (h : data ∈ values.map Prod.snd) :
    sizeOf data < sizeOf (Value.mapping values) := by
  obtain ⟨entry, hentry, rfl⟩ := List.mem_map.mp h
  have hlt := List.sizeOf_lt_of_mem hentry
  have hentry : sizeOf entry = 1 + sizeOf entry.1 + sizeOf entry.2 := rfl
  rw [Value.mapping.sizeOf_spec]
  omega

def Around (containers : List Container) (path : List ℕ) (data : Value) : Prop :=
  ∀ place ∈ path, ∃ outer, Holds containers (.ref place) outer ∧ sizeOf data < sizeOf outer

theorem Around.notMem {place : ℕ} (h : Around containers path data)
    (hdata : Holds containers (.ref place) data) : place ∉ path := by
  intro hmem
  obtain ⟨outer, houter, hlt⟩ := h place hmem
  exact Nat.lt_irrefl _ (hdata.unique houter ▸ hlt)

theorem Around.push {place : ℕ} {data inner : Value} (h : Around containers path data)
    (hdata : Holds containers (.ref place) data) (hinner : sizeOf inner < sizeOf data) :
    Around containers (place :: path) inner := by
  refine List.forall_mem_cons.mpr ⟨⟨data, hdata, hinner⟩, fun other hother => ?_⟩
  obtain ⟨outer, houter, hlt⟩ := h other hother
  exact ⟨outer, houter, Nat.lt_trans hinner hlt⟩

theorem build_mapping {values : Mapping}
    (hkeys : entries.map Prod.fst = values.map Prod.fst) (g : Value → Value) :
    (Container.mapping entries).build ((values.map Prod.snd).map g) =
      .mapping (values.map fun entry => (entry.1, g entry.2)) := by
  have hzip (trees : List Value) : entries.zipWith (fun entry value => (entry.1, value)) trees =
      (values.map Prod.fst).zip trees := by
    rw [← hkeys, List.zip, List.zipWith_map_left]
  rw [Container.build, hzip, List.map_map, List.zip_map']
  rfl

theorem Holds.unfolds (h : Holds containers value data)
    (hpath : Around containers path data) : Unfolds rt containers path value (data.mapStrings scrubText) := by
  induction h generalizing path with
  | null | bool | int | float | str => exact .leaf rfl
  | @list place items values hplace hlength hitems ih =>
    have hself : Holds containers (.ref place) (.list values) := .list hplace hlength hitems
    rw [Value.mapStrings, Value.mapStringsItems_eq]
    refine .opened rfl (hpath.notMem hself) hplace (by rw [List.length_map]; exact hlength) fun pair hpair => ?_
    change pair ∈ items.zip (values.map (Value.mapStrings scrubText)) at hpair
    rw [List.zip_map_right] at hpair
    obtain ⟨⟨item, inner⟩, hmem, rfl⟩ := List.mem_map.mp hpair
    refine ih _ hmem (hpath.push hself ?_)
    have hlt : sizeOf inner < sizeOf values := List.sizeOf_lt_of_mem (List.of_mem_zip hmem).2
    refine Nat.lt_trans hlt ?_
    rw [Value.list.sizeOf_spec]
    omega
  | @mapping place entries values hplace hkeys hentries ih =>
    have hself : Holds containers (.ref place) (.mapping values) := .mapping hplace hkeys hentries
    have hlength : (entries.map Prod.snd).length = ((values.map Prod.snd).map (Value.mapStrings scrubText)).length := by
      rw [List.length_map, List.length_map, List.length_map, ← List.length_map Prod.fst, hkeys, List.length_map]
    rw [Value.mapStrings, Value.mapStringsEntries_eq, ← build_mapping hkeys]
    refine .opened rfl (hpath.notMem hself) hplace hlength fun pair hpair => ?_
    change pair ∈ (entries.map Prod.snd).zip ((values.map Prod.snd).map (Value.mapStrings scrubText)) at hpair
    rw [List.zip_map_right] at hpair
    obtain ⟨⟨item, inner⟩, hmem, rfl⟩ := List.mem_map.mp hpair
    exact ih _ hmem (hpath.push hself (sizeOf_lt_mapping (List.of_mem_zip hmem).2))

/-! ### Every result can be held -/

theorem getElem?_append_of_some {place : ℕ} (h : containers[place]? = some container)
    (more : List Container) : (containers ++ more)[place]? = some container := by
  rw [List.getElem?_append_left (List.getElem?_eq_some_iff.mp h).1, h]

theorem Holds.append (h : Holds containers value data) (more : List Container) :
    Holds (containers ++ more) value data := by
  induction h with
  | null => exact .null
  | bool b => exact .bool b
  | int n => exact .int n
  | float repr => exact .float repr
  | str s => exact .str s
  | list hplace hlength _ ih => exact .list (getElem?_append_of_some hplace more) hlength ih
  | mapping hplace hkeys _ ih => exact .mapping (getElem?_append_of_some hplace more) hkeys ih

def ClosedBy (containers more : List Container) : Prop :=
  ∀ container ∈ more, ∀ value ∈ container.values, value.Within (containers ++ more).length

theorem Captured.Within.mono {count count' : ℕ} (h : value.Within count) (hle : count ≤ count') :
    value.Within count' := fun place hplace => Nat.lt_of_lt_of_le (h place hplace) hle

structure Held (containers more : List Container) (value : Captured) (data : Value) : Prop where
  holds : Holds (containers ++ more) value data
  within : value.Within (containers ++ more).length
  closed : ClosedBy containers more

theorem length_le_append (containers more : List Container) : containers.length ≤ (containers ++ more).length := by
  rw [List.length_append]
  exact Nat.le_add_right _ _

theorem ClosedBy.append {more more' : List Container} (h : ClosedBy containers more)
    (h' : ClosedBy (containers ++ more) more') : ClosedBy containers (more ++ more') := by
  intro container hcontainer value hvalue
  rw [← List.append_assoc]
  rcases List.mem_append.mp hcontainer with hold | hnew
  · exact (h container hold value hvalue).mono (length_le_append _ _)
  · exact h' container hnew value hvalue

theorem held_leaf (h : ∀ containers, Holds containers value data)
    (hplain : ∀ place, value.plain ≠ .ref place) (containers : List Container) :
    ∃ more value, Held containers more value data := by
  refine ⟨[], value, ?_, fun place hplace => absurd hplace (hplain place), fun _ hnil => nomatch hnil⟩
  rw [List.append_nil]
  exact h containers

theorem held_new {more : List Container} (hclosed : ClosedBy containers more)
    (hvalues : ∀ value ∈ container.values, value.Within (containers ++ more).length)
    (h : Holds (containers ++ more ++ [container]) (.ref (containers ++ more).length) data) :
    Held containers (more ++ [container]) (.ref (containers ++ more).length) data where
  holds := by
    rw [← List.append_assoc]
    exact h
  within := by
    intro place hplace
    obtain rfl := Captured.ref.inj hplace
    rw [← List.append_assoc, @List.length_append _ (containers ++ more), List.length_singleton]
    exact Nat.lt_succ_self _
  closed := by
    refine hclosed.append fun other hother value hvalue => ?_
    rw [List.mem_singleton.mp hother] at hvalue
    exact (hvalues value hvalue).mono (length_le_append _ _)

theorem held_all {values : List Value}
    (h : ∀ data ∈ values, ∀ containers, ∃ more value, Held containers more value data)
    (containers : List Container) : ∃ (more : List Container) (items : List Captured), items.length = values.length ∧
      (∀ pair ∈ items.zip values, Holds (containers ++ more) pair.1 pair.2) ∧
      (∀ item ∈ items, item.Within (containers ++ more).length) ∧ ClosedBy containers more := by
  induction values generalizing containers with
  | nil => exact ⟨[], [], rfl, List.forall_mem_nil _, List.forall_mem_nil _, List.forall_mem_nil _⟩
  | cons data values ih =>
    rw [List.forall_mem_cons] at h
    obtain ⟨first, value, hfirst⟩ := h.1 containers
    obtain ⟨rest, items, hlength, hholds, hwithin, hclosed⟩ := ih h.2 (containers ++ first)
    rw [List.append_assoc] at hholds hwithin
    refine ⟨first ++ rest, value :: items, congrArg (· + 1) hlength, ?_, ?_, hfirst.closed.append hclosed⟩
    · rw [List.zip_cons_cons, List.forall_mem_cons, ← List.append_assoc]
      rw [← List.append_assoc] at hholds
      exact ⟨hfirst.holds.append rest, hholds⟩
    · rw [List.forall_mem_cons]
      refine ⟨?_, hwithin⟩
      rw [← List.append_assoc]
      exact hfirst.within.mono (length_le_append _ _)

theorem exists_held {f : Value.Filter} (h : Value.Plain f data) (containers : List Container) :
    ∃ more value, Held containers more value data := by
  induction h generalizing containers with
  | @scalar data hscalar =>
    cases data with
    | null => exact held_leaf (fun _ => .null) nofun containers
    | bool b => exact held_leaf (fun _ => .bool b) nofun containers
    | int n => exact held_leaf (fun _ => .int n) nofun containers
    | float repr => exact held_leaf (fun _ => .float repr) nofun containers
    | str s => exact held_leaf (fun _ => .str s) nofun containers
    | list | tuple | mapping | model | object => exact hscalar.elim
  | @list values _ ih =>
    obtain ⟨more, items, hlength, hholds, hwithin, hclosed⟩ := held_all ih containers
    have hplace : (containers ++ more ++ [.sequence items])[(containers ++ more).length]? = some (.sequence items) :=
      List.getElem?_concat_length
    have hvalues : ∀ value ∈ (Container.sequence items).values, value.Within (containers ++ more).length := hwithin
    exact ⟨_, _, held_new hclosed hvalues (.list hplace hlength fun pair hpair => (hholds pair hpair).append _)⟩
  | @mapping values _ _ _ ih =>
    have hsecond : ∀ data ∈ values.map Prod.snd, ∀ containers, ∃ more value, Held containers more value data := by
      intro data hdata
      obtain ⟨entry, hentry, rfl⟩ := List.mem_map.mp hdata
      exact ih entry hentry
    obtain ⟨more, items, hlength, hholds, hwithin, hclosed⟩ := held_all hsecond containers
    rw [List.length_map] at hlength
    have hfst : ((values.map Prod.fst).zip items).map Prod.fst = values.map Prod.fst :=
      List.map_fst_zip (by rw [List.length_map, hlength])
    have hsnd : ((values.map Prod.fst).zip items).map Prod.snd = items :=
      List.map_snd_zip (by rw [List.length_map, hlength])
    have hplace : (containers ++ more ++ [.mapping ((values.map Prod.fst).zip items)])[(containers ++ more).length]? =
        some (.mapping ((values.map Prod.fst).zip items)) := List.getElem?_concat_length
    refine ⟨_, _, held_new hclosed ?_ (.mapping hplace hfst fun pair hpair => ?_)⟩
    · rw [Container.values, hsnd]
      exact hwithin
    · rw [hsnd] at hpair
      exact (hholds pair hpair).append _

/-! ### The result -/

/-- The keys that name no credential come in their order, where they are distinct as text. -/
def KeepsOrder (secret : String → Bool) (tree out : Value) : Prop :=
  ∀ path, (∀ text, .key text ∈ path → secret text = false) → ∀ entries : Mapping,
    tree.get? path = some (.mapping entries) → ((entries.map (·.1.text)).filter fun text => !secret text).Nodup →
    ∃ outs : Mapping, out.get? path = some (.mapping outs) ∧
      outs.map (·.1.text) = (entries.map (·.1.text)).filter fun text => !secret text

/-- What the redactor gives for a captured value: plain data without credential keys, which is otherwise the unfolded
value, a container marked only inside itself. A second time, the texts in it are scrubbed again, and nothing else
changes. -/
structure Redaction (rt : RedactorRuntime) (capture : Capture) (out : Value) : Prop where
  json_safe : Value.Plain rt.filter out
  shows : ∃ tree, Unfolds rt capture.containers [] capture.root tree ∧
    MarksCyclesOnly rt capture.containers capture.root tree ∧ Value.Scrubbed (isSecretKey rt) tree out ∧
    KeepsOrder (isSecretKey rt) tree out
  held : ∃ again : Capture, Holds again.containers again.root out
  again : ∀ again : Capture, Holds again.containers again.root out →
    redact rt again = some (out.mapStrings scrubText)
  stable : out.mapStrings scrubText = out ↔ ∀ s, Value.Occurs (.str s) out → scrubText s = s

theorem Unfolds.keepsOrder (h : Unfolds rt containers [] value tree) :
    KeepsOrder (isSecretKey rt) tree (tree.project rt.filter) := by
  intro path hpath entries hentries hdistinct
  have hkeeps : rt.filter.Keeps path := hpath
  refine ⟨Value.projectMapping rt.filter entries, ?_, map_text_projectMapping hdistinct⟩
  rw [Value.get?_project h.jsonLike hkeeps, hentries, Option.map_some, Value.project_mapping]

theorem fueled_start (containers : List Container) : Fueled containers (containers.length + 1) [] where
  nodup := .nil
  within := fun _ hnil => nomatch hnil
  fuel := Nat.lt_succ_self _

/-- Every capture is redacted. -/
theorem capture_redacted (rt : RedactorRuntime) (capture : Capture) :
    ∃ out, redact rt capture = some out ∧ Redaction rt capture out := by
  obtain ⟨tree, htree⟩ : ∃ tree, Unfolds rt capture.containers [] capture.root tree :=
    exists_unfolds capture.closed (fueled_start _) capture.root_within
  have hplain : Value.Plain rt.filter (tree.project rt.filter) := Value.plain_project rt.marks tree
  refine ⟨_, htree.safe_eq (fueled_start _), hplain, ⟨tree, htree, ?_, ?_, htree.keepsOrder⟩, ?_, ?_, ?_⟩
  · exact htree.marksCyclesOnly fun _ _ _ hnil => nomatch hnil
  · exact Value.scrubbed_project rt.marks htree.jsonLike
  · obtain ⟨more, root, hheld⟩ := exists_held hplain []
    exact ⟨{ containers := more, root, closed := hheld.closed, root_within := hheld.within }, hheld.holds⟩
  · intro again hholds
    have hunfolds : Unfolds rt again.containers [] again.root ((tree.project rt.filter).mapStrings scrubText) :=
      hholds.unfolds fun _ hnil => nomatch hnil
    rw [redact, hunfolds.safe_eq (fueled_start _), Value.project_of_plain (Value.plain_mapStrings hplain _)]
  · exact hplain.mapStrings_eq_self_iff

def asciiRuntime : RedactorRuntime where
  toCasing := asciiCasing
  repr _ _ := ""

def textCapture (s : String) : Capture where
  containers := []
  root := .str s
  closed _ h := nomatch h
  root_within _ h := nomatch h

/-- Behind a quoted value that is redacted, what followed it becomes part of the value. -/
theorem redaction_not_stable :
    ¬ ∀ (rt : RedactorRuntime) (capture : Capture) (out : Value), redact rt capture = some out →
      ∀ again : Capture, Holds again.containers again.root out → redact rt again = some out := by
  intro h
  have hfirst : scrubText "token=\"abc\"def" = "token=<redacted>def" := by decide +kernel
  have hsecond : scrubText "token=<redacted>def" ≠ "token=<redacted>def" := by decide +kernel
  have hagain := h asciiRuntime (textCapture "token=\"abc\"def") (.str "token=<redacted>def")
    (congrArg (fun s => some (Value.str s)) hfirst) (textCapture "token=<redacted>def") (.str _)
  exact hsecond (Value.str.inj (Option.some.inj hagain))

/-! ### What stands under credential keys -/

variable {containers' : List Container}

variable (rt) in
/-- The container without what stands under credential keys. -/
def Container.visible : Container → Container
  | mapping entries => mapping (entries.filter fun entry => !isSecretKey rt entry.1.text)
  | dataclass fields => dataclass (fields.filter fun field => !isSecretKey rt field.1)
  | other => other

/-- Graphs that are the same at the places that can be seen, where sets are put in the same order. -/
structure SeenAlike (rt : RedactorRuntime) (seen : ℕ → Prop) (containers containers' : List Container) : Prop where
  visible : ∀ place, seen place →
    (containers[place]?).map (Container.visible rt) = (containers'[place]?).map (Container.visible rt)
  sorted : ∀ place items, seen place → containers[place]? = some (.set items) →
    sortedByRepr rt containers items = sortedByRepr rt containers' items
  closed : ∀ place container, seen place → containers[place]? = some container →
    ∀ value ∈ (container.visible rt).values, ∀ inner, value.plain = .ref inner → seen inner

theorem projectStructuredValue_visible (safe : Captured → Option Value) (container : Container) :
    projectStructuredValue rt containers safe (container.visible rt)
      = projectStructuredValue rt containers safe container := by
  cases container with
  | mapping entries => simp [projectStructuredValue, Container.visible, safeMapping]
  | dataclass fields => simp [projectStructuredValue, Container.visible, safeMapping, List.filter_map, Function.comp_def]
  | sequence | set | exported => rfl

theorem projectStructuredValue_congr {f g : Captured → Option Value} (h : ∀ value ∈ container.values, f value = g value)
    (hsorted : ∀ items, container = .set items → sortedByRepr rt containers items = sortedByRepr rt containers' items) :
    projectStructuredValue rt containers f container = projectStructuredValue rt containers' g container := by
  have hmapping : ∀ entries : List (Key × Captured), (∀ value ∈ entries.map Prod.snd, f value = g value) →
      safeMapping rt f entries = safeMapping rt g entries := by
    intro entries hentries
    refine congrArg (Option.map _) (mapM_congr fun entry hentry => ?_)
    rw [hentries _ (List.mem_map_of_mem (List.mem_of_mem_filter hentry))]
  cases container with
  | mapping entries => exact hmapping entries h
  | sequence items => exact congrArg (Option.map _) (mapM_congr h)
  | set items =>
    rw [projectStructuredValue, projectStructuredValue, ← hsorted items rfl]
    exact congrArg (Option.map _) (mapM_congr fun item hitem => h item (List.mem_mergeSort.mp hitem))
  | dataclass fields =>
    refine hmapping _ ?_
    rw [List.map_map]
    exact h
  | exported typeName dump =>
    cases dump with
    | none => rfl
    | some dump => exact h dump (List.mem_singleton_self _)

theorem SeenAlike.safe_eq {seen : ℕ → Prop} (h : SeenAlike rt seen containers containers') (fuel : ℕ) (path : List ℕ)
    (hvalue : ∀ place, value.plain = .ref place → seen place) :
    safe rt containers fuel path value = safe rt containers' fuel path value := by
  induction fuel generalizing path value with
  | zero => rfl
  | succ fuel ih =>
    rw [safe, safe]
    cases hplain : value.plain with
    | ref place =>
      dsimp only
      have hseen := hvalue place hplain
      have hvisible := h.visible place hseen
      cases hcontainer : containers[place]? with
      | none =>
        rw [hcontainer] at hvisible
        rw [Option.map_eq_none_iff.mp hvisible.symm, Option.bind_none, Option.bind_none]
      | some container =>
        rw [hcontainer] at hvisible
        obtain ⟨container', hcontainer', hsame⟩ := Option.map_eq_some_iff.mp hvisible.symm
        rw [hcontainer', Option.bind_some, Option.bind_some, ← projectStructuredValue_visible _ container,
          ← projectStructuredValue_visible _ container', hsame]
        refine if_congr Iff.rfl rfl (projectStructuredValue_congr (fun inner hinner => ?_) fun items hset => ?_)
        · exact ih (place :: path) (h.closed place container hseen hcontainer inner hinner)
        · cases container with
          | set items' =>
            obtain rfl := Container.set.inj hset
            exact h.sorted place _ hseen hcontainer
          | mapping | dataclass | sequence | exported => cases hset
    | null | bool | int | float | str | rendered | member => dsimp only

/-- What stands under credential keys does not reach the redacted value: captures that are the same but for it are
redacted to the same. -/
theorem redact_alike (capture capture' : Capture) (hroot : capture'.root = capture.root) (seen : ℕ → Prop)
    (hseen : ∀ place, capture.root.plain = .ref place → seen place)
    (h : SeenAlike rt seen capture.containers capture'.containers) : redact rt capture = redact rt capture' := by
  have henough : ∀ (capture : Capture) (fuel : ℕ), capture.containers.length < fuel →
      safe rt capture.containers fuel [] capture.root = redact rt capture := by
    intro capture fuel hfuel
    obtain ⟨tree, htree⟩ : ∃ tree, Unfolds rt capture.containers [] capture.root tree :=
      exists_unfolds capture.closed (fueled_start _) capture.root_within
    have hstart : redact rt capture = some (tree.project rt.filter) := htree.safe_eq (fueled_start _)
    rw [hstart]
    exact htree.safe_eq ⟨.nil, (fueled_start _).within, hfuel⟩
  obtain ⟨fuel, hfuel, hfuel'⟩ : ∃ fuel, capture.containers.length < fuel ∧ capture'.containers.length < fuel :=
    ⟨_, Nat.lt_succ_of_le (Nat.le_max_left _ _), Nat.lt_succ_of_le (Nat.le_max_right _ _)⟩
  rw [← henough capture fuel hfuel, ← henough capture' fuel hfuel', hroot]
  exact h.safe_eq fuel [] hseen

def holdsSecret (secret : String) : Capture where
  containers := [.mapping [(⟨"api_key", true⟩, .str secret), (⟨"n", true⟩, .int 1)]]
  root := .ref 0
  closed := by simp [Container.values, Captured.Within, Captured.plain]
  root_within := by simp [Captured.Within, Captured.plain]

theorem redact_alike_holdsSecret : redact asciiRuntime (holdsSecret "a") = redact asciiRuntime (holdsSecret "b") := by
  have hkey : isSecretKey asciiRuntime "api_key" = true := by decide +kernel
  have hn : isSecretKey asciiRuntime "n" = false := by decide +kernel
  have hvisible : ∀ secret, Container.visible asciiRuntime
      (.mapping [(⟨"api_key", true⟩, .str secret), (⟨"n", true⟩, .int 1)]) = .mapping [(⟨"n", true⟩, .int 1)] :=
    fun secret => by simp [Container.visible, hkey, hn]
  refine redact_alike _ _ rfl (· = 0) (fun place h => (Captured.ref.inj h).symm) ⟨?_, ?_, ?_⟩
  · rintro place rfl
    exact congrArg some ((hvisible "a").trans (hvisible "b").symm)
  · rintro place items rfl h
    cases h
  · rintro place container rfl h value hvalue inner hinner
    cases h
    rw [hvisible] at hvalue
    cases List.mem_singleton.mp hvalue
    cases hinner

end VidbyteSdk.Harnesses
