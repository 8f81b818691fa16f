import Mathlib.Data.List.MinMax
import VidbyteSdk.Lib.Dicts
import VidbyteSdk.Registries.ProviderKeys

/-!
# Prices of releases

`ModelPricingRegistry.resolve` prices a model by its own row, or by the longest key that it seems to be a release of.
`IsRelease` says what a release of a key is named like. The test of the code lets all such names through, and others.
-/

namespace VidbyteSdk.Registries

open VidbyteSdk.Lib
open Json (lit)

abbrev dash : CodePoint := 0x2D
abbrev dot : CodePoint := 0x2E

/-- The characters that `\d` matches and those that `isalpha` counts as letters. -/
structure Characters where
  isDecimal : CodePoint → Bool
  isAlpha : CodePoint → Bool
  digits : ∀ c : CodePoint, c.isDigit = true → isDecimal c = true
  apart : ∀ c, isDecimal c = true → isAlpha c = false ∧ c ≠ dash ∧ c ≠ dot ∧ c ≠ newline

section

variable (characters : Characters)

/-! ### The test of the code -/

/-- What follows the longest match of `(?:\.\d+)*`; `inside` holds behind a dot with a digit. -/
def afterPatches (inside : Bool) : Text → Text
  | [] => []
  | c :: rest =>
    if inside && characters.isDecimal c || c = dot && rest.head?.any characters.isDecimal then afterPatches true rest
    else c :: rest

/-- `(?:-|$)`, where `$` also matches in front of a newline at the end. -/
def endsNumber (text : Text) : Bool := text = [] || text = [newline] || text.head? = some dash

/-- `\d{1,2}(?:-|$)` -/
def opensShortNumber : Text → Bool
  | c :: rest => characters.isDecimal c &&
      (endsNumber rest || rest.head?.any characters.isDecimal && endsNumber (rest.drop 1))
  | [] => false

/-- `_MINOR_VERSION_SUFFIX.match(remainder)` -/
def isMinorVersion (remainder : Text) : Bool :=
  match afterPatches characters false remainder with
  | c :: rest => c = dash && opensShortNumber characters rest
  | [] => false

/-- `ModelPricingRegistry._is_release_suffix` -/
def isReleaseSuffix (remainder : Text) : Bool :=
  if remainder = lit "-latest" then true
  else if remainder.head? ≠ some dash ∧ remainder.head? ≠ some dot then false
  else if isMinorVersion characters remainder then false
  else !(remainder.head? = some dash && (remainder.drop 1).head?.any characters.isAlpha)

/-! ### The price of a model -/

structure PriceTable (P : Type) where
  rows : List (Text × P)
  nodup : (rows.map Prod.fst).Nodup

/-- `ProviderModelRegistry.normalize_model`; `lower` is `str.lower` and `aliases` the provider's `MODEL_ALIASES`. -/
def normalizeModel (lower : Text → Text) (aliases : List (Text × Text)) (provider : ModelProvider) (model : Text) :
    Text :=
  let rawModel := Json.strip model
  let providerPrefix := lit provider.value ++ lit "/"
  let lookupModel :=
    if providerPrefix.isPrefixOf (lower rawModel) then rawModel.drop providerPrefix.length else rawModel
  (aliases.lookup (lower lookupModel)).getD lookupModel

def prefixMatches {P : Type} (table : PriceTable P) (model : Text) : List (Text × P) :=
  table.rows.filter fun row => row.1.isPrefixOf model && isReleaseSuffix characters (model.drop row.1.length)

/-- `ModelPricingRegistry.resolve`, over the rows of the provider; `normalize` is `normalize_model`. -/
def resolve {P : Type} (normalize : Text → Text) (table : PriceTable P) (model : Text) : Option P :=
  let requestedModel := Json.strip model
  if requestedModel = [] then none
  else match table.rows.lookup requestedModel with
    | some exact => some exact
    | none =>
      let canonicalModel := normalize requestedModel
      match table.rows.lookup canonicalModel with
      | some exact => some exact
      | none => ((prefixMatches characters table canonicalModel).argmax fun row => row.1.length).map Prod.snd

/-! ### Releases -/

/-- A group of digits. -/
def IsNumber (text : Text) : Prop := text ≠ [] ∧ ∀ c ∈ text, characters.isDecimal c = true

def separated (separator : CodePoint) (groups : List Text) : Text := (groups.map (separator :: ·)).flatten

/-- A dash and a first group of at least four digits, then more groups of digits behind dashes. -/
def IsSnapshot (text : Text) : Prop :=
  ∃ first groups, 4 ≤ first.length ∧ (∀ group ∈ first :: groups, IsNumber characters group) ∧
    text = separated dash (first :: groups)

/-- `-latest`, a snapshot, or patch numbers behind dots with or without a snapshot. -/
def IsRelease (remainder : Text) : Prop :=
  remainder = lit "-latest" ∨ IsSnapshot characters remainder ∨
    ∃ patches rest, patches ≠ [] ∧ (∀ patch ∈ patches, IsNumber characters patch) ∧
      (rest = [] ∨ IsSnapshot characters rest) ∧ remainder = separated dot patches ++ rest

/-- The row has the longest key of those that the model is called a release of. -/
def Longest {P : Type} (release : Text → Prop) (table : PriceTable P) (model : Text) (row : Text × P) : Prop :=
  row ∈ table.rows ∧ (∃ rest, model = row.1 ++ rest ∧ release rest) ∧
    ∀ other ∈ table.rows, (∃ rest, model = other.1 ++ rest ∧ release rest) → other.1.length ≤ row.1.length

/-- The price of the longest key that the model is a release of; none where there is no such key. -/
def PricedByRelease {P : Type} (table : PriceTable P) (model : Text) (price : Option P) : Prop :=
  ∀ p, price = some p ↔ ∃ key, Longest (IsRelease characters) table model (key, p)

/-- What a model is priced at: by its own row, by the row of its normalized name, or as a release. -/
def Priced {P : Type} (normalize : Text → Text) (table : PriceTable P) (model : Text) (price : Option P) : Prop :=
  let id := Json.strip model
  if id = [] then price = none
  else match table.rows.lookup id, table.rows.lookup (normalize id) with
    | some p, _ => price = some p
    | none, some p => price = some p
    | none, none => PricedByRelease characters table (normalize id) price

variable {characters} {patches groups : List Text} {rest : Text}

theorem afterPatches_number {group : Text} (h : ∀ c ∈ group, characters.isDecimal c = true) (rest : Text) :
    afterPatches characters true (group ++ rest) = afterPatches characters true rest := by
  induction group with
  | nil => rfl
  | cons c group ih =>
    obtain ⟨hc, hgroup⟩ := List.forall_mem_cons.mp h
    rw [List.cons_append, afterPatches, hc, Bool.true_and, Bool.true_or, if_pos rfl]
    exact ih hgroup

theorem afterPatches_patches (h : ∀ patch ∈ patches, IsNumber characters patch) (hrest : ∀ inside,
    afterPatches characters inside rest = rest) (inside : Bool) :
    afterPatches characters inside (separated dot patches ++ rest) = rest := by
  induction patches generalizing inside with
  | nil => exact hrest inside
  | cons patch patches ih =>
    obtain ⟨⟨hne, hdigits⟩, hpatches⟩ := List.forall_mem_cons.mp h
    obtain ⟨c, digits, rfl⟩ := List.exists_cons_of_ne_nil hne
    have hopen : (inside && characters.isDecimal dot || dot = dot &&
        (c :: (digits ++ (separated dot patches ++ rest))).head?.any characters.isDecimal) = true := by
      simp [hdigits c List.mem_cons_self]
    calc afterPatches characters inside (separated dot ((c :: digits) :: patches) ++ rest)
        = afterPatches characters inside (dot :: (c :: digits ++ (separated dot patches ++ rest))) := by
          simp [separated]
      _ = afterPatches characters true (c :: digits ++ (separated dot patches ++ rest)) := by
          rw [afterPatches]
          exact if_pos hopen
      _ = rest := (afterPatches_number hdigits _).trans (ih hpatches true)

theorem afterPatches_dash (inside : Bool) (rest : Text) :
    afterPatches characters inside (dash :: rest) = dash :: rest := by
  have hdash : characters.isDecimal dash = false := Bool.eq_false_iff.mpr fun h => (characters.apart dash h).2.1 rfl
  rw [afterPatches, hdash, Bool.and_false, Bool.false_or]
  rfl

theorem opensShortNumber_of_long {first : Text} (hlength : 4 ≤ first.length) (h : IsNumber characters first)
    (rest : Text) : opensShortNumber characters (first ++ rest) = false := by
  match first, hlength with
  | a :: b :: c :: d :: first, _ =>
    have hends : ∀ x y : CodePoint, ∀ tail, characters.isDecimal x = true → endsNumber (x :: y :: tail) = false := by
      intro x y tail hx
      simp [endsNumber, (characters.apart x hx).2.1]
    simp only [IsNumber, List.forall_mem_cons] at h
    simp [opensShortNumber, hends, h.2]

variable {remainder : Text}

theorem isReleaseSuffix_of_head (hminor : isMinorVersion characters remainder = false)
    (hhead : remainder.head? = some dot ∨
      remainder.head? = some dash ∧ (remainder.drop 1).head?.any characters.isAlpha = false) :
    isReleaseSuffix characters remainder = true := by
  have hne : dot ≠ dash := by decide
  unfold isReleaseSuffix
  rw [hminor, ite_eq_left_iff]
  intro _
  rcases hhead with hdot | ⟨hdash, halpha⟩
  · simp [hdot, hne]
  · rw [hdash, halpha]
    rfl

theorem isReleaseSuffix_of_isRelease (h : IsRelease characters remainder) :
    isReleaseSuffix characters remainder = true := by
  have hsnapshot : ∀ {rest}, IsSnapshot characters rest → ∃ first tail, 4 ≤ first.length ∧
      IsNumber characters first ∧ rest = dash :: (first ++ tail) := by
    rintro rest ⟨first, groups, hlength, hgroups, rfl⟩
    exact ⟨first, separated dash groups, hlength, hgroups first List.mem_cons_self, rfl⟩
  -- no minor version stands behind patch numbers that a snapshot or nothing follows
  have hminor : ∀ {patches rest}, (∀ patch ∈ patches, IsNumber characters patch) →
      rest = [] ∨ IsSnapshot characters rest → isMinorVersion characters (separated dot patches ++ rest) = false := by
    rintro patches rest hpatches (rfl | hrest)
    · rw [isMinorVersion, afterPatches_patches hpatches fun _ => rfl]
    · obtain ⟨first, tail, hlength, hfirst, rfl⟩ := hsnapshot hrest
      rw [isMinorVersion, afterPatches_patches hpatches fun inside => afterPatches_dash inside _]
      exact (Bool.and_eq_false_iff).mpr (.inr (opensShortNumber_of_long hlength hfirst tail))
  rcases h with rfl | hrest | ⟨patches, rest, hne, hpatches, hrest, rfl⟩
  · rfl
  · refine isReleaseSuffix_of_head (@hminor [] _ nofun (.inr hrest)) (.inr ?_)
    obtain ⟨first, tail, hlength, ⟨hne, hdigits⟩, rfl⟩ := hsnapshot hrest
    obtain ⟨c, digits, rfl⟩ := List.exists_cons_of_ne_nil hne
    exact ⟨rfl, (characters.apart c (hdigits c List.mem_cons_self)).1⟩
  · obtain ⟨patch, patches, rfl⟩ := List.exists_cons_of_ne_nil hne
    exact isReleaseSuffix_of_head (hminor hpatches hrest) (.inl rfl)

theorem mem_separated {separator c : CodePoint} (h : ∀ group ∈ groups, IsNumber characters group)
    (hc : c ∈ separated separator groups) : c = separator ∨ characters.isDecimal c = true := by
  obtain ⟨_, hmem, hc⟩ := List.mem_flatten.mp hc
  obtain ⟨group, hgroup, rfl⟩ := List.mem_map.mp hmem
  exact (List.mem_cons.mp hc).imp_right ((h group hgroup).2 c)

theorem eq_latest_of_isAlpha (h : IsRelease characters remainder) {c : CodePoint}
    (hc : c ∈ remainder) (halpha : characters.isAlpha c = true) (hdash : c ≠ dash) (hdot : c ≠ dot) :
    remainder = lit "-latest" := by
  have hno : ¬ characters.isDecimal c = true := fun hdecimal =>
    Bool.false_ne_true ((characters.apart c hdecimal).1.symm.trans halpha)
  have hsnapshot : ∀ {text}, IsSnapshot characters text → c ∉ text := by
    rintro text ⟨first, groups, -, hgroups, rfl⟩ hc
    exact (mem_separated hgroups hc).elim hdash hno
  rcases h with h | h | ⟨patches, rest, -, hpatches, hrest, rfl⟩
  · exact h
  · exact absurd hc (hsnapshot h)
  · rcases List.mem_append.mp hc with hc | hc
    · exact ((mem_separated hpatches hc).elim hdot hno).elim
    · rcases hrest with rfl | hrest
      · cases hc
      · exact absurd hc (hsnapshot hrest)

/-! ### The longest key -/

section

variable {P : Type} {table : PriceTable P} {model : Text} {a b : Text × P} {release : Text → Prop}

theorem longest_unique (ha : Longest release table model a) (hb : Longest release table model b) : a = b := by
  obtain ⟨hamem, ⟨rest, hrest, hrelease⟩, hamax⟩ := ha
  obtain ⟨hbmem, ⟨rest', hrest', hrelease'⟩, hbmax⟩ := hb
  have hlength := Nat.le_antisymm (hbmax a hamem ⟨rest, hrest, hrelease⟩) (hamax b hbmem ⟨rest', hrest', hrelease'⟩)
  have hkey := (List.append_inj (hrest.symm.trans hrest') hlength).1
  exact List.inj_on_of_nodup_map table.nodup hamem hbmem hkey

theorem mem_prefixMatches : a ∈ prefixMatches characters table model ↔
    a ∈ table.rows ∧ ∃ rest, model = a.1 ++ rest ∧ isReleaseSuffix characters rest = true := by
  unfold prefixMatches
  rw [List.mem_filter, Bool.and_eq_true, List.isPrefixOf_iff_prefix]
  refine and_congr_right fun _ => ⟨?_, ?_⟩
  · rintro ⟨⟨rest, rfl⟩, hrelease⟩
    exact ⟨rest, rfl, by rwa [List.drop_left] at hrelease⟩
  · rintro ⟨rest, rfl, hrelease⟩
    exact ⟨List.prefix_append _ _, by rwa [List.drop_left]⟩

theorem argmax_prefixMatches : (prefixMatches characters table model).argmax (fun row => row.1.length) = some a ↔
    Longest (isReleaseSuffix characters · = true) table model a := by
  have hfound : ∀ {row}, (prefixMatches characters table model).argmax (fun row => row.1.length) = some row →
      Longest (isReleaseSuffix characters · = true) table model row := by
    intro row hrow
    obtain ⟨hmem, hrest⟩ := mem_prefixMatches.mp (List.argmax_mem hrow)
    refine ⟨hmem, hrest, fun other hother hrest => ?_⟩
    exact List.le_of_mem_argmax (f := fun row => row.1.length) (mem_prefixMatches.mpr ⟨hother, hrest⟩) hrow
  refine ⟨hfound, fun h => ?_⟩
  cases hmax : (prefixMatches characters table model).argmax fun row => row.1.length with
  | none =>
    have hmem := mem_prefixMatches.mpr ⟨h.1, h.2.1⟩
    rw [List.argmax_eq_none.mp hmax] at hmem
    cases hmem
  | some row => rw [longest_unique (hfound hmax) h]

/-- The longest key of the test prices as the longest key of a release does. -/
def FallsOnRelease (characters : Characters) (table : PriceTable P) (model : Text) : Prop :=
  ∀ row, Longest (isReleaseSuffix characters · = true) table model row →
    ∃ key, Longest (IsRelease characters) table model (key, row.2)

theorem pricedByRelease_iff : PricedByRelease characters table model
    (((prefixMatches characters table model).argmax fun row => row.1.length).map Prod.snd) ↔
      FallsOnRelease characters table model := by
  have hprice : ∀ p, ((prefixMatches characters table model).argmax fun row => row.1.length).map Prod.snd = some p ↔
      ∃ row, Longest (isReleaseSuffix characters · = true) table model row ∧ row.2 = p := fun p => by
    rw [Option.map_eq_some_iff]
    exact exists_congr fun row => and_congr_left' argmax_prefixMatches
  constructor
  · exact fun h row hrow => (h row.2).mp ((hprice row.2).mpr ⟨row, hrow, rfl⟩)
  · refine fun h p => (hprice p).trans ⟨?_, ?_⟩
    · rintro ⟨row, hrow, rfl⟩
      exact h row hrow
    · rintro ⟨key, hkey⟩
      cases hmax : (prefixMatches characters table model).argmax fun row => row.1.length with
      | none =>
        obtain ⟨rest, hrest, hrelease⟩ := hkey.2.1
        have hmem := mem_prefixMatches.mpr ⟨hkey.1, rest, hrest, isReleaseSuffix_of_isRelease hrelease⟩
        rw [List.argmax_eq_none.mp hmax] at hmem
        cases hmem
      | some row =>
        have hrow := argmax_prefixMatches.mp hmax
        obtain ⟨key', hkey'⟩ := h row hrow
        exact ⟨row, hrow, congrArg Prod.snd (longest_unique hkey' hkey)⟩

def asciiAlpha (c : CodePoint) : Bool := 0x41 ≤ c.val && c.val ≤ 0x5A || 0x61 ≤ c.val && c.val ≤ 0x7A

theorem digit_apart (c : CodePoint) (h : c.isDigit = true) :
    asciiAlpha c = false ∧ c ≠ dash ∧ c ≠ dot ∧ c ≠ newline := by
  simp only [CodePoint.isDigit, Bool.and_eq_true, decide_eq_true_eq] at h
  refine ⟨?_, ?_, ?_, ?_⟩
  · grind [asciiAlpha]
  all_goals
    rintro rfl
    revert h
    decide

def asciiCharacters : Characters where
  isDecimal := CodePoint.isDigit
  isAlpha := asciiAlpha
  digits _ h := h
  apart := digit_apart

def gptTable : PriceTable ℕ := ⟨[(lit "gpt", 1)], List.nodup_singleton _⟩

end

end

end VidbyteSdk.Registries
