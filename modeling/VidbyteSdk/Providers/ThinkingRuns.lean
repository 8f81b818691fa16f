import VidbyteSdk.Providers.ThinkingRemoval

/-!
# Runs of the thinking guard

What became of each block, by its key: it was signed under the text of a request, or a request removed it. While
the keys seen fit into the record, the bindings hold the hash of just that, whatever was recorded and stripped in
whatever order.
-/

namespace VidbyteSdk.Providers.Thinking

open VidbyteSdk.Lib Json

inductive Op where
  | record (request : Payload (List Json)) (content : Option (List Json))
  | strip (request : Payload (List Json))

variable (sha256 : Text → Digest)

def step (signed : Signed) : Op → Signed
  | .record request content => record sha256 signed request content
  | .strip request => (strip sha256 signed request).2

def bindings (ops : List Op) : Signed := ops.foldl (step sha256) []

def Op.keys : Op → List Digest
  | .record _ content => answerKeys sha256 content
  | .strip request => (thinking request).filterMap fun block => blockKey sha256 block.2

def recordedKeys (ops : List Op) : List Digest :=
  ops.flatMap fun op =>
    match op with
    | .record _ content => answerKeys sha256 content
    | .strip _ => []

def seenKeys (ops : List Op) : List Digest := ops.flatMap (Op.keys sha256)

/-- There are fewer keyed blocks than the record holds. -/
def Few (ops : List Op) : Prop := (seenKeys sha256 ops).dedup.length < capacity

/-! ### What becomes of a block -/

def wholeText (request : Payload (List Json)) : Text :=
  openingText request ++ (request.messages.getD []).flatMap messageText

inductive Fate where
  | signed (before : Text)
  | removed
  deriving DecidableEq

abbrev Fates := Digest → Option Fate

def Fates.of (fates : Fates) (block : ℕ × Json) : Option Fate := (blockKey sha256 block.2).bind fates

/-- A block that was signed under another prefix than the one in front of its message. -/
def Fates.isStale (fates : Fates) (request : Payload (List Json)) (block : ℕ × Json) : Bool :=
  match fates.of sha256 block with
  | some (.signed before) => (prefixTexts request)[block.1]? ≠ some before
  | _ => false

def Fates.isRemoved (fates : Fates) (block : ℕ × Json) : Bool := fates.of sha256 block = some .removed

def Fates.kept (fates : Fates) (request : Payload (List Json)) : List (ℕ × Json) :=
  ((thinking request).takeWhile fun block => !fates.isStale sha256 request block).filter
    fun block => !fates.isRemoved sha256 block

def Fates.gone (fates : Fates) (request : Payload (List Json)) : List (ℕ × Json) :=
  ((thinking request).takeWhile fun block => !fates.isStale sha256 request block).filter
      (fates.isRemoved sha256) ++
    (thinking request).dropWhile fun block => !fates.isStale sha256 request block

def Fates.step (fates : Fates) : Op → Fates
  | .record request content => fun key =>
    if key ∈ answerKeys sha256 content then some (.signed (wholeText request)) else fates key
  | .strip request => fun key =>
    if key ∈ (fates.gone sha256 request).filterMap (fun block => blockKey sha256 block.2) then some .removed
    else fates key

def fates (ops : List Op) : Fates := ops.foldl (Fates.step sha256) fun _ => none

variable {sha256}

theorem bindings_concat (ops : List Op) (op : Op) :
    bindings sha256 (ops ++ [op]) = step sha256 (bindings sha256 ops) op := by
  unfold bindings
  rw [List.foldl_concat]

theorem fates_concat (ops : List Op) (op : Op) :
    fates sha256 (ops ++ [op]) = (fates sha256 ops).step sha256 op := by
  unfold fates
  rw [List.foldl_concat]

theorem seenKeys_concat (ops : List Op) (op : Op) :
    seenKeys sha256 (ops ++ [op]) = seenKeys sha256 ops ++ op.keys sha256 := by
  unfold seenKeys
  rw [List.flatMap_append, List.flatMap_singleton]

/-! ### Prefixes by position -/

theorem getElem?_runningTexts (running : Text) (messages : List (Message (List Json))) (index : ℕ) :
    (runningTexts running messages)[index]? =
      if index ≤ messages.length then some (running ++ (messages.take index).flatMap messageText) else none := by
  induction messages generalizing running index with
  | nil =>
    cases index with
    | zero => simp [runningTexts]
    | succ index => simp [runningTexts]
  | cons message messages ih =>
    cases index with
    | zero => simp [runningTexts]
    | succ index =>
      rw [runningTexts, List.getElem?_cons_succ, ih]
      simp

theorem length_runningTexts (running : Text) (messages : List (Message (List Json))) :
    (runningTexts running messages).length = messages.length + 1 := by
  induction messages generalizing running with
  | nil => rfl
  | cons message messages ih => rw [runningTexts, List.length_cons, ih, List.length_cons]

theorem getLast?_digests (request : Payload (List Json)) :
    (digests sha256 request).getLast? = some (sha256 (wholeText request)) := by
  unfold digests prefixTexts wholeText
  rw [List.getLast?_map, List.getLast?_eq_getElem?, length_runningTexts, Nat.add_sub_cancel,
    getElem?_runningTexts, if_pos (Nat.le_refl _), List.take_length]
  rfl

/-! ### The bindings hold the fates -/

def Fate.mark (sha256 : Text → Digest) : Fate → Digest
  | .signed before => sha256 before
  | .removed => removedMark

def Agrees (sha256 : Text → Digest) (signed : Signed) (fates : Fates) : Prop :=
  ∀ key, signed.lookup key = (fates key).map (Fate.mark sha256)

section Agreement

variable {signed : Signed} {fates : Fates} (h : Agrees sha256 signed fates)
include h

theorem Agrees.recordAt (block : ℕ × Json) :
    recordAt sha256 signed block = (fates.of sha256 block).map (Fate.mark sha256) := by
  unfold Thinking.recordAt Fates.of
  cases blockKey sha256 block.2 with
  | none => rfl
  | some key => exact h key

variable (hne : ∀ text, sha256 text ≠ removedMark)
include hne

theorem Agrees.removedAt (block : ℕ × Json) : removedAt sha256 signed block = fates.isRemoved sha256 block := by
  unfold Thinking.removedAt Fates.isRemoved
  rw [h.recordAt]
  match fates.of sha256 block with
  | none => rfl
  | some (.signed before) => simp [Fate.mark, hne before]
  | some .removed => simp [Fate.mark]

variable (hinj : Function.Injective sha256) (request : Payload (List Json))
include hinj

theorem Agrees.changedAt (block : ℕ × Json) :
    changedAt sha256 signed request block = fates.isStale sha256 request block := by
  unfold Thinking.changedAt Fates.isStale
  rw [h.recordAt]
  match fates.of sha256 block with
  | none => rfl
  | some .removed => simp [Fate.mark]
  | some (.signed before) =>
    have hdigest : (digests sha256 request)[block.1]? = some (sha256 before) ↔
        (prefixTexts request)[block.1]? = some before := by
      unfold digests
      rw [List.getElem?_map, Option.map_eq_some_iff]
      constructor
      · rintro ⟨text, htext, hsame⟩
        rw [htext, hinj hsame]
      · exact fun htext => ⟨before, htext, rfl⟩
    simp [Fate.mark, hne before, hdigest]

theorem Agrees.kept : kept sha256 signed request = fates.kept sha256 request := by
  unfold Thinking.kept Fates.kept
  simp only [h.changedAt hne hinj, h.removedAt hne]

theorem Agrees.gone : gone sha256 signed request = fates.gone sha256 request := by
  have hremoved : Thinking.removedAt sha256 signed = fates.isRemoved sha256 := funext (h.removedAt hne)
  unfold Thinking.gone Fates.gone
  simp only [h.changedAt hne hinj, hremoved]

end Agreement

theorem gone_subset {signed : Signed} {request : Payload (List Json)} :
    ∀ block ∈ gone sha256 signed request, block ∈ thinking request := by
  intro block hblock
  obtain hblock | hblock := List.mem_append.mp hblock
  · exact (List.takeWhile_sublist _).subset (List.mem_filter.mp hblock).1
  · exact (List.dropWhile_sublist _).subset hblock

section Calls

variable {signed : Signed} {seen : List Digest} (hholds : Recency.Holds seen signed)
  (hfit : seen.dedup.length ≤ capacity)
include hholds hfit

theorem record_spec {request : Payload (List Json)} {content : Option (List Json)}
    (hkeys : ∀ key ∈ answerKeys sha256 content, key ∈ seen) :
    (∀ key, (record sha256 signed request content).lookup key =
      if key ∈ answerKeys sha256 content then some (sha256 (wholeText request)) else signed.lookup key) ∧
      Recency.Holds seen (record sha256 signed request content) := by
  by_cases hnone : answerKeys sha256 content = []
  · have hsigned : record sha256 signed request content = signed := if_pos hnone
    rw [hsigned, hnone]
    exact ⟨fun key => (if_neg List.not_mem_nil).symm, hholds⟩
  · have hsigned : record sha256 signed request content =
        Recency.store capacity (answerKeys sha256 content) (sha256 (wholeText request)) signed := by
      unfold record
      simp only [hnone, if_false, getLast?_digests]
    rw [hsigned]
    exact ⟨fun key => hholds.lookup_store hkeys hfit, hholds.store hkeys hfit⟩

theorem strip_bindings_spec {request : Payload (List Json)}
    (hkeys : ∀ key ∈ (Op.strip request).keys sha256, key ∈ seen) :
    (∀ key, (strip sha256 signed request).2.lookup key =
      if key ∈ (gone sha256 signed request).filterMap (fun block => blockKey sha256 block.2)
        then some removedMark else signed.lookup key) ∧
      Recency.Holds seen (strip sha256 signed request).2 := by
  have hmem : ∀ key, key ∈ (removedOf sha256 signed request).filterMap Located.key ↔
      key ∈ (gone sha256 signed request).filterMap fun block => blockKey sha256 block.2 := by
    intro key
    rw [mem_keys_removedOf, List.mem_filterMap]
  have hseen : ∀ key ∈ (removedOf sha256 signed request).filterMap Located.key, key ∈ seen := by
    intro key hkey
    obtain ⟨block, hblock, hkeyBlock⟩ := mem_keys_removedOf.mp hkey
    exact hkeys key (List.mem_filterMap.mpr ⟨block, gone_subset block hblock, hkeyBlock⟩)
  by_cases hremoved : removedOf sha256 signed request = []
  · rw [strip_of_nil hremoved, removedOf_eq_nil_iff.mp hremoved]
    exact ⟨fun key => (if_neg List.not_mem_nil).symm, hholds⟩
  · rw [strip_of_ne_nil hremoved]
    refine ⟨fun key => ?_, hholds.store hseen hfit⟩
    show (Recency.store capacity _ removedMark signed).lookup key = _
    rw [hholds.lookup_store hseen hfit]
    simp only [hmem]

end Calls

theorem Agrees.step (hinj : Function.Injective sha256) (hne : ∀ text, sha256 text ≠ removedMark)
    {signed : Signed} {fates : Fates} {seen : List Digest} (h : Agrees sha256 signed fates)
    (hholds : Recency.Holds seen signed) (hfit : seen.dedup.length ≤ capacity) (op : Op)
    (hop : ∀ key ∈ op.keys sha256, key ∈ seen) :
    Agrees sha256 (Thinking.step sha256 signed op) (fates.step sha256 op) ∧
      Recency.Holds seen (Thinking.step sha256 signed op) := by
  cases op with
  | record request content =>
    obtain ⟨hlookup, hafter⟩ := @record_spec _ _ _ hholds hfit request _ hop
    refine ⟨fun key => (hlookup key).trans ?_, hafter⟩
    simp only [Fates.step]
    split
    · rfl
    · exact h key
  | strip request =>
    obtain ⟨hlookup, hafter⟩ := strip_bindings_spec hholds hfit hop
    refine ⟨fun key => (hlookup key).trans ?_, hafter⟩
    simp only [Fates.step, h.gone hne hinj]
    split
    · rfl
    · exact h key

theorem agrees_run (hinj : Function.Injective sha256) (hne : ∀ text, sha256 text ≠ removedMark)
    {ops : List Op} {seen : List Digest} (hseen : ∀ key ∈ seenKeys sha256 ops, key ∈ seen)
    (hfit : seen.dedup.length ≤ capacity) :
    Agrees sha256 (bindings sha256 ops) (fates sha256 ops) ∧ Recency.Holds seen (bindings sha256 ops) := by
  induction ops using List.reverseRecOn with
  | nil => exact ⟨fun _ => rfl, Recency.Holds.nil seen⟩
  | append_singleton ops op ih =>
    rw [seenKeys_concat] at hseen
    obtain ⟨hagrees, hholds⟩ := ih fun key hkey => hseen key (List.mem_append_left _ hkey)
    rw [bindings_concat, fates_concat]
    exact hagrees.step hinj hne hholds hfit op fun key hkey => hseen key (List.mem_append_right _ hkey)

end VidbyteSdk.Providers.Thinking
