import Mathlib.Data.List.Sort
import VidbyteSdk.Lib.Picking
import VidbyteSdk.Sources.LlmsTxt

/-!
# The order of expanded links

The document ids of one expansion are pairwise distinct. Sorting by them gives the document order exactly where the text
order of the padded numbers is the number order: below a thousand it is, and a number of four digits comes in front of
one of three where its first three digits are smaller.
-/

namespace VidbyteSdk.Sources

open Lib

variable {I X : Type} (loading : Loading I X)

/-! ### Document order -/

/-- `a` is in front of `b` in the document. -/
def Precedes (a b : SelectedLink) : Prop :=
  a.sectionIndex < b.sectionIndex ∨
    a.sectionIndex = b.sectionIndex ∧ a.linkSection = b.linkSection ∧ a.linkIndex < b.linkIndex

/-- The padded number `n` comes in front of the padded number `m` in text order: it is at most the first digits of `m`,
as many as it has itself. -/
def NumbersInOrder (n m : ℕ) : Prop := n ≤ leading 3 n m

def InOrder (a b : SelectedLink) : Prop :=
  (a.sectionIndex < b.sectionIndex → NumbersInOrder a.sectionIndex b.sectionIndex) ∧
    (a.sectionIndex = b.sectionIndex → NumbersInOrder a.linkIndex b.linkIndex)

instance (a b : SelectedLink) : Decidable (InOrder a b) := by
  unfold InOrder NumbersInOrder
  infer_instance

theorem pairwise_selectedIn (selection : Selection) (linkSection : LlmsTxtSection) (sectionIndex : ℕ) :
    (selectedIn loading selection linkSection sectionIndex).Pairwise Precedes ∧
      ∀ selected ∈ selectedIn loading selection linkSection sectionIndex, selected.sectionIndex = sectionIndex := by
  unfold selectedIn
  split
  · exact ⟨List.Pairwise.nil, fun _ h => nomatch h⟩
  · constructor
    · refine List.Pairwise.filterMap _ ?_ (pairwise_zipIdx linkSection.links 0)
      intro a b hlt x hx y hy
      dsimp only at hx hy
      split at hx
      · split at hy
        · rw [← Option.some.inj hx, ← Option.some.inj hy]
          exact Or.inr ⟨rfl, rfl, hlt⟩
        · cases hy
      · cases hx
    · intro selected hselected
      obtain ⟨entry, -, hentry⟩ := List.mem_filterMap.mp hselected
      dsimp only at hentry
      split at hentry
      · rw [← Option.some.inj hentry]
      · cases hentry

theorem pairwise_selectedLinks (ir : LlmsTxtDocument) (selection : Selection) :
    (selectedLinks loading ir selection).Pairwise Precedes := by
  unfold selectedLinks
  rw [List.pairwise_flatMap]
  refine ⟨fun entry _ => (pairwise_selectedIn loading selection entry.1 entry.2).1, ?_⟩
  refine (pairwise_zipIdx ir.sections 0).imp fun {a b} hlt x hx y hy => Or.inl ?_
  rw [(pairwise_selectedIn loading selection a.1 a.2).2 x hx, (pairwise_selectedIn loading selection b.1 b.2).2 y hy]
  exact hlt

/-! ### Document ids -/

theorem append_lt_append_left {p x y : Text} : p ++ x < p ++ y ↔ x < y := by
  induction p with
  | nil => exact Iff.rfl
  | cons c p ih =>
    rw [List.cons_append, List.cons_append, List.cons_lt_cons_iff, ih]
    exact ⟨fun h => h.elim (fun hc => absurd hc (lt_irrefl c)) And.right, fun h => Or.inr ⟨rfl, h⟩⟩

theorem zfill_lt_iff {n m : ℕ} (h : n < m) (x y : Text) :
    (zfill 3 n ++ Json.minus :: x < zfill 3 m ++ Json.minus :: y ↔ NumbersInOrder n m) ∧
      zfill 3 n ++ Json.minus :: x ≠ zfill 3 m ++ Json.minus :: y := by
  obtain ⟨hbefore, hafter⟩ := zfill_order 3 h (by decide : Json.minus.val < 0x30) x y
  rcases Nat.lt_or_ge (leading 3 n m) n with hgt | hle
  · have hlt := hafter hgt
    exact ⟨⟨fun h => absurd hlt (lt_asymm h), fun h => absurd h (Nat.not_le_of_lt hgt)⟩, hlt.ne'⟩
  · exact ⟨⟨fun _ => hle, hbefore⟩, (hbefore hle).ne⟩

theorem documentId_lt_iff (hash : Text) {a b : SelectedLink} (h : Precedes a b) :
    (documentId loading hash a < documentId loading hash b ↔ InOrder a b) ∧
      documentId loading hash a ≠ documentId loading hash b := by
  unfold documentId
  rw [append_lt_append_left, Ne, List.append_cancel_left_eq]
  rcases h with hsection | ⟨hsection, hsame, hlink⟩
  · obtain ⟨hlt, hne⟩ := zfill_lt_iff hsection
      (slugify loading.lower a.linkSection.name ++ Json.colon ::
        (zfill 3 a.linkIndex ++ Json.minus :: slugify loading.lower a.link.title))
      (slugify loading.lower b.linkSection.name ++ Json.colon ::
        (zfill 3 b.linkIndex ++ Json.minus :: slugify loading.lower b.link.title))
    refine ⟨hlt.trans ⟨fun h => ⟨fun _ => h, fun heq => absurd heq hsection.ne⟩, fun h => h.1 hsection⟩, hne⟩
  · obtain ⟨hlt, hne⟩ := zfill_lt_iff hlink (slugify loading.lower a.link.title) (slugify loading.lower b.link.title)
    rw [hsection, hsame, append_lt_append_left, List.append_cancel_left_eq, List.cons_lt_cons_self,
      append_lt_append_left, List.cons_lt_cons_self]
    refine ⟨hlt.trans ⟨fun h => ⟨fun hless => absurd hsection hless.ne, fun _ => h⟩, fun h => h.2 hsection⟩, ?_⟩
    intro heq
    exact hne (List.cons.inj (List.append_cancel_left (List.cons.inj heq).2)).2

/-! ### Expansions -/

theorem map_documentId_loadSections {ir : LlmsTxtDocument} {selection : Selection} {hash url : Text}
    {loaded : List (ExpandedItem I)} (h : loadSections loading ir selection hash url = .ok loaded) :
    loaded.map (·.documentId) = (selectedLinks loading ir selection).map (documentId loading hash) := by
  unfold loadSections at h
  generalize selectedLinks loading ir selection = selected at h ⊢
  induction selected generalizing loaded with
  | nil =>
    cases h
    rfl
  | cons first selected ih =>
    rw [List.mapM_cons] at h
    cases hitem : loading.load (loading.urljoin url first.link.url) with
    | error error =>
      rw [hitem] at h
      cases h
    | ok item =>
      rw [hitem] at h
      cases hrest : selected.mapM fun selected => (do
          let item ← loading.load (loading.urljoin url selected.link.url)
          pure (⟨item, documentId loading hash selected, hash, selected.linkSection.name⟩ : ExpandedItem I) :
            Except X (ExpandedItem I)) with
      | error error =>
        simp only [hrest] at h
        cases h
      | ok rest =>
        simp only [hrest] at h
        cases h
        rw [List.map_cons, List.map_cons, ih hrest]

theorem nodup_documentIds (ir : LlmsTxtDocument) (selection : Selection) (hash : Text) :
    ((selectedLinks loading ir selection).map (documentId loading hash)).Nodup := by
  rw [List.Nodup, List.pairwise_map]
  exact (pairwise_selectedLinks loading ir selection).imp fun h => (documentId_lt_iff loading hash h).2

theorem index_ne_documentId (ir : LlmsTxtDocument) (hash : Text) (selected : SelectedLink) :
    (buildIndexItem loading ir hash).documentId ≠ documentId loading hash selected := by
  unfold buildIndexItem documentId
  dsimp only
  rw [Ne, List.append_cancel_left_eq]
  intro heq
  have hcolon : Json.colon ∈ Json.lit "000-index" := by
    rw [heq]
    simp
  exact absurd hcolon (by decide)

theorem mergeSort_loaded_eq_iff {ir : LlmsTxtDocument} {selection : Selection} {hash url : Text}
    {loaded : List (ExpandedItem I)} (h : loadSections loading ir selection hash url = .ok loaded) :
    (loaded.mergeSort fun a b => decide (a.documentId ≤ b.documentId)) = loaded ↔
      (selectedLinks loading ir selection).Pairwise InOrder := by
  have hids := map_documentId_loadSections loading h
  have hpairwise : loaded.Pairwise (fun a b => a.documentId ≤ b.documentId) ↔
      (selectedLinks loading ir selection).Pairwise InOrder := by
    have hmapped := List.pairwise_map (f := fun item : ExpandedItem I => item.documentId) (R := (· ≤ ·)) (l := loaded)
    rw [hids, List.pairwise_map] at hmapped
    rw [← hmapped]
    constructor
    · intro hle
      refine (hle.and (pairwise_selectedLinks loading ir selection)).imp fun {a b} hab => ?_
      obtain ⟨hlt, hne⟩ := documentId_lt_iff loading hash hab.2
      exact hlt.mp (lt_of_le_of_ne hab.1 hne)
    · intro horder
      refine (horder.and (pairwise_selectedLinks loading ir selection)).imp fun {a b} hab => ?_
      exact ((documentId_lt_iff loading hash hab.2).1.mpr hab.1).le
  rw [← hpairwise]
  constructor
  · intro hsame
    rw [← hsame]
    refine (List.pairwise_mergeSort ?_ ?_ loaded).imp fun hle => of_decide_eq_true hle
    · intro a b c hab hbc
      exact decide_eq_true (le_trans (of_decide_eq_true hab) (of_decide_eq_true hbc))
    · intro a b
      rw [Bool.or_eq_true, decide_eq_true_eq, decide_eq_true_eq]
      exact le_total _ _
  · intro hle
    exact List.mergeSort_of_pairwise (hle.imp fun h => decide_eq_true h)

/-- **Expanded links**: the ids of an expansion and of its index differ, and the items come in document order if and only
if the numbers of any two selected links are in order. -/
theorem expansion_order (ir : LlmsTxtDocument) (selection : Selection) (hash url : Text)
    {items : List (ExpandedItem I)} (h : expandSections loading ir selection hash url = .ok items) :
    ((buildIndexItem loading ir hash).documentId :: items.map (·.documentId)).Nodup ∧
      ∃ loaded, loadSections loading ir selection hash url = .ok loaded ∧
        (items = loaded ↔ (selectedLinks loading ir selection).Pairwise InOrder) := by
  unfold expandSections at h
  cases hloaded : loadSections loading ir selection hash url with
  | error error =>
    rw [hloaded] at h
    cases h
  | ok loaded =>
    rw [hloaded] at h
    obtain rfl := Except.ok.inj h
    have hids := map_documentId_loadSections loading hloaded
    refine ⟨?_, loaded, rfl, mergeSort_loaded_eq_iff loading hloaded⟩
    have hperm := ((List.mergeSort_perm loaded fun a b => decide (a.documentId ≤ b.documentId)).map
      fun item => item.documentId)
    rw [(hperm.cons _).nodup_iff, hids, List.nodup_cons]
    refine ⟨fun hmem => ?_, nodup_documentIds loading ir selection hash⟩
    obtain ⟨selected, -, hselected⟩ := List.mem_map.mp hmem
    exact index_ne_documentId loading ir hash selected hselected.symm

/-- A loading in which every link has a document, and a glob that matches everything is one star. -/
def openLoading : Loading Unit Empty where
  lower := id
  fnmatch := fun _ pattern => pattern = Json.lit "*"
  urljoin := fun _ url => url
  load := fun _ => .ok ()
  label := id

def expandAll : Selection := ⟨[Json.lit "*"], [], true⟩

def shortDocument : LlmsTxtDocument :=
  ⟨Json.lit "t", none, none,
    [⟨Json.lit "Docs", [⟨Json.lit "a", Json.lit "u", none⟩, ⟨Json.lit "b", Json.lit "u", none⟩], false⟩]⟩

theorem expansion_order_shortDocument :
    ∃ items, expandSections openLoading shortDocument expandAll (Json.lit "h") (Json.lit "u") = .ok items ∧
      ((buildIndexItem openLoading shortDocument (Json.lit "h")).documentId :: items.map (·.documentId)).Nodup ∧
        ∃ loaded, loadSections openLoading shortDocument expandAll (Json.lit "h") (Json.lit "u") = .ok loaded ∧
          (items = loaded ↔ (selectedLinks openLoading shortDocument expandAll).Pairwise InOrder) :=
  ⟨_, rfl, expansion_order openLoading shortDocument expandAll (Json.lit "h") (Json.lit "u") rfl⟩

def longIndex : Text :=
  Json.lit "# t\n" ++ (List.replicate 1000 (Json.lit "## \n")).flatten ++ Json.lit "- [a](u)\n## \n- [b](v)"

/-- What the check of the long index computes: it parses, its links load, and their numbers are not in order. -/
def longIndexChecks : Bool :=
  match parseLlmsTxt id longIndex with
  | .error _ => false
  | .ok ir =>
    (match loadSections openLoading ir expandAll (Json.lit "h") (Json.lit "u") with
      | .error _ => false
      | .ok _ => true) && !decide ((selectedLinks openLoading ir expandAll).Pairwise InOrder)

/-- The links of the sections 999 and 1000 come out in the other order. -/
theorem long_index_out_of_order :
    ∃ ir items loaded, parseLlmsTxt id longIndex = .ok ir ∧
      expandSections openLoading ir expandAll (Json.lit "h") (Json.lit "u") = .ok items ∧
      loadSections openLoading ir expandAll (Json.lit "h") (Json.lit "u") = .ok loaded ∧ items ≠ loaded := by
  have hchecks : longIndexChecks = true := by decide +kernel
  unfold longIndexChecks at hchecks
  split at hchecks
  · cases hchecks
  · next ir hir =>
    rw [Bool.and_eq_true] at hchecks
    obtain ⟨hloads, horder⟩ := hchecks
    split at hloads
    · cases hloads
    · next loaded hloaded =>
      have horder' : ¬ (selectedLinks openLoading ir expandAll).Pairwise InOrder := by
        rwa [Bool.not_eq_true', decide_eq_false_iff_not] at horder
      refine ⟨ir, _, loaded, hir, ?_, hloaded, fun heq => horder' ((mergeSort_loaded_eq_iff _ hloaded).mp heq)⟩
      rw [expandSections, hloaded]
      rfl

end VidbyteSdk.Sources
