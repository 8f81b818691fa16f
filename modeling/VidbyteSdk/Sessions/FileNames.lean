import Mathlib.Data.List.Find
import VidbyteSdk.Lib.Glob
import VidbyteSdk.Sessions.Intact

/-!
# The names of checkpoint files

`FileSessionStore` (`sessions/stores/file.py`) writes the checkpoint of a session to
`<session>/checkpoints/<seq>-<id>.json` and finds it again by its id alone: a pattern, then the ending, then a test
that only a number is left. A name can be read in one way only, so the files found for an id are those written for
it, and the tree of files is the store of rows that the sessions are proved about.
-/

namespace VidbyteSdk.Sessions

open VidbyteSdk.Lib

variable {J : Type}

/-! ### Names -/

/-- `f"{seq:08d}"` -/
def padded : Int → List Char
  | .ofNat n => (Nat.toDigits 10 n).leftpad 8 '0'
  | .negSucc n => '-' :: (Nat.toDigits 10 (n + 1)).leftpad 7 '0'

def jsonSuffix : List Char := ['.', 'j', 's', 'o', 'n']

/-- `f"-{checkpoint_id}.json"` -/
def nameSuffix (id : String) : List Char := '-' :: (id.toList ++ jsonSuffix)

/-- `f"{seq:08d}-{id}.json"` -/
def fileName (seq : Int) (id : String) : List Char := padded seq ++ nameSuffix id

/-- `str.isdigit` of one character; `otherDigit` is the table of the digits beyond ASCII. -/
def isDigitChar (otherDigit : Char → Bool) (c : Char) : Bool := c.isDigit || (128 ≤ c.toNat && otherDigit c)

/-- `str.isdigit` -/
def isDigits (otherDigit : Char → Bool) (text : List Char) : Bool :=
  !text.isEmpty && text.all (isDigitChar otherDigit)

/-- The tests of `_checkpoint_paths`: the pattern, the ending, and the number in front of it. -/
def isNameOf (otherDigit : Char → Bool) (id : String) (name : List Char) : Bool :=
  Glob.fnmatch ('*' :: Glob.escape (nameSuffix id)) name && (nameSuffix id).isSuffixOf name &&
    isDigits otherDigit ((name.take (name.length - (nameSuffix id).length)).dropWhile (· = '-'))

section Names

variable {otherDigit : Char → Bool}

theorem isDigitChar_of_isDigit {c : Char} (h : c.isDigit = true) : isDigitChar otherDigit c = true := by
  rw [isDigitChar, h, Bool.true_or]

theorem isDigit_of_mem_leftpad {n m : Nat} {c : Char} (h : c ∈ (Nat.toDigits 10 n).leftpad m '0') :
    c.isDigit = true := by
  rw [List.leftpad, List.mem_append, List.mem_replicate] at h
  rcases h with ⟨-, rfl⟩ | h
  · rfl
  · exact Nat.isDigit_of_mem_toDigits (by decide) (by decide) h

theorem leftpad_ne_nil {n m : Nat} : (Nat.toDigits 10 n).leftpad m '0' ≠ [] := by
  rw [List.leftpad]
  exact List.append_ne_nil_of_right_ne_nil _ Nat.toDigits_ne_nil

theorem isDigits_leftpad (n m : Nat) : isDigits otherDigit ((Nat.toDigits 10 n).leftpad m '0') = true := by
  rw [isDigits, Bool.and_eq_true, Bool.not_eq_true', List.isEmpty_eq_false_iff, List.all_eq_true]
  exact ⟨leftpad_ne_nil, fun c hc => isDigitChar_of_isDigit (isDigit_of_mem_leftpad hc)⟩

theorem dropWhile_dash_of_isDigits {text : List Char} (h : isDigits otherDigit text = true) :
    text.dropWhile (· = '-') = text := by
  cases text with
  | nil => rfl
  | cons c text =>
    rw [isDigits, Bool.and_eq_true, List.all_cons, Bool.and_eq_true] at h
    have hc : c ≠ '-' := by
      rintro rfl
      cases h.2.1
    rw [List.dropWhile_cons_of_neg (by simpa using hc)]

theorem isDigits_padded (seq : Int) : isDigits otherDigit ((padded seq).dropWhile (· = '-')) = true := by
  cases seq with
  | ofNat n =>
    rw [padded, dropWhile_dash_of_isDigits (@isDigits_leftpad otherDigit n 8)]
    exact isDigits_leftpad n 8
  | negSucc n =>
    rw [padded, List.dropWhile_cons_of_pos (by rfl), dropWhile_dash_of_isDigits (@isDigits_leftpad otherDigit (n + 1) 7)]
    exact isDigits_leftpad (n + 1) 7

theorem dash_notMem_of_isDigits {text : List Char} (h : isDigits otherDigit text = true) : '-' ∉ text := by
  intro hmem
  rw [isDigits, Bool.and_eq_true, List.all_eq_true] at h
  cases h.2 '-' hmem

theorem rest_inj {p s a b : List Char} (hp : isDigits otherDigit (p.dropWhile (· = '-')) = true)
    (hs : isDigits otherDigit (s.dropWhile (· = '-')) = true) (h : p ++ '-' :: a = s ++ '-' :: b) :
    p.dropWhile (· = '-') = s.dropWhile (· = '-') ∧ a = b := by
  have hdrop : ∀ {t u : List Char}, isDigits otherDigit (t.dropWhile (· = '-')) = true →
      (t ++ u).dropWhile (· = '-') = t.dropWhile (· = '-') ++ u := by
    intro t u ht
    rw [List.dropWhile_append, if_neg]
    rw [isDigits, Bool.and_eq_true, Bool.not_eq_true'] at ht
    rw [ht.1]
    exact Bool.false_ne_true
  have hcut := congrArg (List.dropWhile (· = '-')) h
  rw [hdrop hp, hdrop hs] at hcut
  have hnum : ∀ {t u : List Char}, '-' ∉ t → (t ++ '-' :: u).takeWhile (· ≠ '-') = t := by
    intro t u ht
    rw [List.takeWhile_append_of_pos, List.takeWhile_cons_of_neg (by simp), List.append_nil]
    intro c hc
    simp only [ne_eq, decide_eq_true_eq]
    rintro rfl
    exact ht hc
  have hfront : p.dropWhile (· = '-') = s.dropWhile (· = '-') := by
    have := congrArg (List.takeWhile (· ≠ '-')) hcut
    rwa [hnum (dash_notMem_of_isDigits hp), hnum (dash_notMem_of_isDigits hs)] at this
  rw [hfront] at hcut
  exact ⟨hfront, (List.cons.inj (List.append_cancel_left hcut)).2⟩

theorem toList_inj {a b : String} (h : a.toList ++ jsonSuffix = b.toList ++ jsonSuffix) : a = b :=
  String.toList_injective (List.append_cancel_right h)

theorem isNameOf_fileName {seq : Int} {id q : String} : isNameOf otherDigit q (fileName seq id) = true ↔ id = q := by
  constructor
  · intro h
    rw [isNameOf, Bool.and_eq_true, Bool.and_eq_true, List.isSuffixOf_iff_suffix] at h
    obtain ⟨⟨-, front, hname⟩, hdigits⟩ := h
    rw [← hname, List.length_append, Nat.add_sub_cancel_right, List.take_left' rfl] at hdigits
    exact (toList_inj (rest_inj hdigits (isDigits_padded seq) hname).2).symm
  · rintro rfl
    have hsuffix : nameSuffix id <:+ fileName seq id := List.suffix_append _ _
    rw [isNameOf, Bool.and_eq_true, Bool.and_eq_true, Glob.fnmatch_star_escape, List.isSuffixOf_iff_suffix]
    refine ⟨⟨hsuffix, hsuffix⟩, ?_⟩
    rw [fileName, List.length_append, Nat.add_sub_cancel_right, List.take_left' rfl]
    exact isDigits_padded seq

end Names

theorem padded_injective : Function.Injective padded := by
  have hvalue : ∀ n m : Nat, Nat.ofDigitChars 10 ((Nat.toDigits 10 n).leftpad m '0') 0 = n := by
    intro n m
    rw [List.leftpad, Nat.ofDigitChars_append, Nat.ofDigitChars_replicate_zero, Nat.mul_zero,
      Nat.ofDigitChars_ten_toDigits]
  have hsign : ∀ (n m : Nat) (tail : List Char), (Nat.toDigits 10 n).leftpad m '0' ≠ '-' :: tail := by
    intro n m tail h
    have hmem : '-' ∈ (Nat.toDigits 10 n).leftpad m '0' := by rw [h]; exact List.mem_cons_self
    cases isDigit_of_mem_leftpad hmem
  intro a b h
  cases a with
  | ofNat n =>
    cases b with
    | ofNat k =>
      have := congrArg (Nat.ofDigitChars 10 · 0) h
      simp only [padded, hvalue] at this
      rw [this]
    | negSucc k => exact absurd h (hsign _ _ _)
  | negSucc n =>
    cases b with
    | ofNat k => exact absurd h.symm (hsign _ _ _)
    | negSucc k =>
      have := congrArg (Nat.ofDigitChars 10 · 0) (List.cons.inj h).2
      simp only [hvalue, Nat.add_right_cancel_iff] at this
      rw [this]

theorem fileName_inj {seq seq' : Int} {id id' : String} (h : fileName seq id = fileName seq' id') :
    seq = seq' ∧ id = id' := by
  have hid : id = id' := by
    have hname : isNameOf (fun _ => false) id (fileName seq id) = true := isNameOf_fileName.mpr rfl
    rw [h] at hname
    exact (isNameOf_fileName.mp hname).symm
  rw [hid] at h
  exact ⟨padded_injective (List.append_cancel_right h), hid⟩

/-! ### The tree of files -/

structure CheckpointFile (J : Type) where
  session : String
  name : List Char
  content : Checkpoint J

def CheckpointFile.path (f : CheckpointFile J) : String × List Char := (f.session, f.name)

def fileOf (c : Checkpoint J) : CheckpointFile J := ⟨c.sessionId, fileName c.seq c.id, c⟩

/-- The files under the root. Every checkpoint file is where its checkpoint was written, and the `meta.json` of a
directory belongs to the session of that name. -/
structure FileTree (J : Type) where
  files : List (CheckpointFile J) := []
  metas : List (String × SessionMeta) := []
  written : ∀ f ∈ files, f = fileOf f.content ∧ isPlainSegment f.content.id = true := by exact nofun
  owned : ∀ e ∈ metas, e.2.sessionId = e.1 := by exact nofun

namespace FileTree

/-- `_assert_directory_owner` passes. -/
def mayWriteIn (tree : FileTree J) (sessionId : String) : Bool :=
  (tree.metas.lookup sessionId).all fun m => m.sessionId = sessionId

/-- Whether `_write_checkpoint` writes a checkpoint. -/
def accepts (tree : FileTree J) (c : Checkpoint J) : Bool :=
  isPlainSegment c.sessionId && isPlainSegment c.id && tree.mayWriteIn c.sessionId

/-- `_write_checkpoint`, where the write itself succeeds. -/
def writeCheckpoint (tree : FileTree J) (c : Checkpoint J) : Except SessionException (FileTree J) :=
  if hplain : isPlainSegment c.sessionId && isPlainSegment c.id then
    if tree.mayWriteIn c.sessionId then
      .ok
        { tree with
          files := upsert CheckpointFile.path (fileOf c) tree.files
          written := by
            intro f hf
            rcases mem_upsert.mp hf with rfl | ⟨hf, -⟩
            · exact ⟨rfl, (Bool.and_eq_true_iff.mp hplain).2⟩
            · exact tree.written f hf }
    else .error (.store s!"Session id {c.sessionId} collides with existing session on this filesystem.")
  else .error (.store s!"Invalid session or checkpoint id for file store: {c.sessionId} / {c.id}.")

/-- `_write_meta`, where the write itself succeeds. -/
def writeMeta (tree : FileTree J) (m : SessionMeta) : Except SessionException (FileTree J) :=
  if isPlainSegment m.sessionId then
    if tree.mayWriteIn m.sessionId then
      .ok
        { tree with
          metas := upsert Prod.fst (m.sessionId, m) tree.metas
          owned := by
            intro e he
            rcases mem_upsert.mp he with rfl | ⟨he, -⟩
            · rfl
            · exact tree.owned e he }
    else .error (.store s!"Session id {m.sessionId} collides with existing session on this filesystem.")
  else .error (.store s!"Invalid session id for file store: {m.sessionId}.")

variable (otherDigit : Char → Bool)

/-- `_checkpoint_paths` -/
def checkpointPaths (tree : FileTree J) (id : String) : List (CheckpointFile J) :=
  if isPlainSegment id then tree.files.filter fun f => isNameOf otherDigit id f.name else []

/-- `_read_checkpoint`: the content of the first of the paths. -/
def readCheckpoint (tree : FileTree J) (id : String) : Option (Checkpoint J) :=
  (tree.checkpointPaths otherDigit id).head?.map (·.content)

/-- `_delete_checkpoint` -/
def deleteCheckpoint (tree : FileTree J) (id : String) : FileTree J :=
  { tree with
    files := tree.files.filter fun f => f.path ∉ (tree.checkpointPaths otherDigit id).map (·.path)
    written := fun f hf => tree.written f (List.mem_of_mem_filter hf) }

inductive FileWrite (J : Type) where
  | checkpoint (c : Checkpoint J)
  | metadata (m : SessionMeta)

def write (tree : FileTree J) : FileWrite J → FileTree J
  | .checkpoint c => (tree.writeCheckpoint c).toOption.getD tree
  | .metadata m => (tree.writeMeta m).toOption.getD tree

def writeAll (tree : FileTree J) (writes : List (FileWrite J)) : FileTree J := writes.foldl write tree

variable {otherDigit} {tree : FileTree J} {c : Checkpoint J} {id : String}

theorem mayWriteIn_eq_true (tree : FileTree J) (sessionId : String) : tree.mayWriteIn sessionId = true := by
  rw [mayWriteIn]
  cases hm : tree.metas.lookup sessionId with
  | none => rfl
  | some m => simpa using tree.owned _ (mem_of_lookup hm)

theorem accepts_eq (tree : FileTree J) (c : Checkpoint J) :
    tree.accepts c = (isPlainSegment c.sessionId && isPlainSegment c.id) := by
  rw [accepts, mayWriteIn_eq_true, Bool.and_true]

theorem checkpointPaths_eq (tree : FileTree J) (id : String) :
    tree.checkpointPaths otherDigit id = tree.files.filter fun f => f.content.id = id := by
  have hname : ∀ f ∈ tree.files, (isNameOf otherDigit id f.name = true ↔ f.content.id = id) := by
    intro f hf
    rw [(tree.written f hf).1]
    exact isNameOf_fileName
  rw [checkpointPaths]
  split
  · refine List.filter_congr fun f hf => ?_
    rw [Bool.eq_iff_iff, hname f hf, decide_eq_true_eq]
  · next hplain =>
    refine (List.filter_eq_nil_iff.mpr fun f hf hid => hplain ?_).symm
    rw [← of_decide_eq_true hid]
    exact (tree.written f hf).2

theorem readCheckpoint_eq (tree : FileTree J) (id : String) :
    tree.readCheckpoint otherDigit id = (tree.files.map (·.content)).find? (·.id = id) := by
  rw [readCheckpoint, checkpointPaths_eq, List.head?_filter, List.find?_map]
  rfl

theorem path_inj {f g : CheckpointFile J} (hf : f ∈ tree.files) (hg : g ∈ tree.files) (h : f.path = g.path) :
    f.content.id = g.content.id := by
  rw [(tree.written f hf).1, (tree.written g hg).1] at h
  exact (fileName_inj (Prod.mk.inj h).2).2

theorem files_deleteCheckpoint (tree : FileTree J) (id : String) :
    (tree.deleteCheckpoint otherDigit id).files = tree.files.filter fun f => f.content.id ≠ id := by
  refine List.filter_congr fun f hf => decide_eq_decide.mpr (not_congr ⟨fun h => ?_, fun h => ?_⟩)
  · obtain ⟨g, hg, hpath⟩ := List.mem_map.mp h
    rw [checkpointPaths_eq, List.mem_filter] at hg
    rw [← path_inj hg.1 hf hpath]
    exact of_decide_eq_true hg.2
  · refine List.mem_map.mpr ⟨f, ?_, rfl⟩
    rw [checkpointPaths_eq, List.mem_filter]
    exact ⟨hf, decide_eq_true h⟩

/-! ### The files a sequence of writes leaves -/

theorem files_write_checkpoint (tree : FileTree J) (c : Checkpoint J) :
    (tree.write (.checkpoint c)).files =
      if tree.accepts c then upsert CheckpointFile.path (fileOf c) tree.files else tree.files := by
  rw [write, writeCheckpoint, accepts, mayWriteIn_eq_true, Bool.and_true]
  split <;> rfl

theorem files_write_metadata (tree : FileTree J) (m : SessionMeta) : (tree.write (.metadata m)).files = tree.files := by
  rw [write, writeMeta, mayWriteIn_eq_true]
  split <;> rfl

theorem mem_paths_writeAll {writes : List (FileWrite J)} {path : String × List Char} :
    path ∈ (tree.writeAll writes).files.map (·.path) ↔
      path ∈ tree.files.map (·.path) ∨ ∃ c, .checkpoint c ∈ writes ∧ isPlainSegment c.sessionId = true ∧
        isPlainSegment c.id = true ∧ path = (fileOf c).path := by
  induction writes generalizing tree with
  | nil => simp [writeAll]
  | cons w writes ih =>
    rw [writeAll, List.foldl_cons, ← writeAll, ih]
    cases w with
    | metadata m =>
      rw [files_write_metadata]
      simp
    | checkpoint c =>
      have hkeys : path ∈ (upsert CheckpointFile.path (fileOf c) tree.files).map (·.path) ↔
          path = (fileOf c).path ∨ path ∈ tree.files.map (·.path) := by
        simp only [List.mem_map, mem_upsert]
        constructor
        · rintro ⟨f, rfl | ⟨hf, -⟩, rfl⟩
          · exact Or.inl rfl
          · exact Or.inr ⟨f, hf, rfl⟩
        · rintro (rfl | ⟨f, hf, rfl⟩)
          · exact ⟨_, Or.inl rfl, rfl⟩
          · by_cases h : f.path = (fileOf c).path
            · exact ⟨_, Or.inl rfl, h.symm⟩
            · exact ⟨f, Or.inr ⟨hf, h⟩, rfl⟩
      rw [files_write_checkpoint, accepts_eq]
      by_cases hplain : (isPlainSegment c.sessionId && isPlainSegment c.id) = true
      · rw [if_pos hplain, hkeys]
        rw [Bool.and_eq_true] at hplain
        constructor
        · rintro ((rfl | h) | ⟨d, hd, h⟩)
          · exact Or.inr ⟨c, List.mem_cons_self, hplain.1, hplain.2, rfl⟩
          · exact Or.inl h
          · exact Or.inr ⟨d, List.mem_cons_of_mem _ hd, h⟩
        · rintro (h | ⟨d, hd, h⟩)
          · exact Or.inl (Or.inr h)
          · rcases List.mem_cons.mp hd with heq | hd
            · obtain rfl := FileWrite.checkpoint.inj heq
              exact Or.inl (Or.inl h.2.2)
            · exact Or.inr ⟨d, hd, h⟩
      · rw [if_neg hplain]
        refine or_congr_right ⟨Exists.imp fun d hd => ⟨List.mem_cons_of_mem _ hd.1, hd.2⟩, ?_⟩
        rintro ⟨d, hd, h₁, h₂, h₃⟩
        rcases List.mem_cons.mp hd with heq | hd
        · obtain rfl := FileWrite.checkpoint.inj heq
          exact absurd (Bool.and_eq_true_iff.mpr ⟨h₁, h₂⟩) hplain
        · exact ⟨d, hd, h₁, h₂, h₃⟩

/-- For every sequence of writes and every id, the paths found are those the accepted checkpoints of that id were
written to. Reading and deleting an id touch no other checkpoint, and an id that is no plain name matches nothing. -/
theorem checkpointPaths_exact (otherDigit : Char → Bool) (writes : List (FileWrite J)) (q : String) :
    let tree := ({} : FileTree J).writeAll writes
    (∀ path, path ∈ (tree.checkpointPaths otherDigit q).map (·.path) ↔
      ∃ c, .checkpoint c ∈ writes ∧ isPlainSegment c.sessionId = true ∧ isPlainSegment c.id = true ∧ c.id = q ∧
        path = (fileOf c).path) ∧
    (∀ c, tree.readCheckpoint otherDigit q = some c → fileOf c ∈ tree.files ∧ c.id = q) ∧
    (tree.readCheckpoint otherDigit q = none ↔ ∀ f ∈ tree.files, f.content.id ≠ q) ∧
    (tree.deleteCheckpoint otherDigit q).files = tree.files.filter (fun f => f.content.id ≠ q) ∧
    (isPlainSegment q = false → tree.checkpointPaths otherDigit q = []) := by
  intro tree
  refine ⟨fun path => ?_, fun c hc => ?_, ?_, files_deleteCheckpoint tree q, fun hq => ?_⟩
  · have hpaths : path ∈ tree.files.map (·.path) ↔ _ := mem_paths_writeAll
    simp only [List.map_nil, List.not_mem_nil, false_or] at hpaths
    rw [checkpointPaths_eq]
    constructor
    · intro h
      obtain ⟨f, hf, rfl⟩ := List.mem_map.mp h
      obtain ⟨hf, hid⟩ := List.mem_filter.mp hf
      obtain ⟨c, hc, hs, hi, heq⟩ := hpaths.mp (List.mem_map_of_mem hf)
      refine ⟨c, hc, hs, hi, ?_, heq⟩
      rw [(tree.written f hf).1] at heq
      rw [← of_decide_eq_true hid]
      exact (fileName_inj (Prod.mk.inj heq).2).2.symm
    · rintro ⟨c, hc, hs, hi, rfl, rfl⟩
      obtain ⟨f, hf, heq⟩ := List.mem_map.mp (hpaths.mpr ⟨c, hc, hs, hi, rfl⟩)
      refine List.mem_map.mpr ⟨f, List.mem_filter.mpr ⟨hf, decide_eq_true ?_⟩, heq⟩
      rw [(tree.written f hf).1] at heq
      exact (fileName_inj (Prod.mk.inj heq).2).2
  · rw [readCheckpoint_eq] at hc
    obtain ⟨f, hf, rfl⟩ := List.mem_map.mp (List.mem_of_find?_eq_some hc)
    refine ⟨?_, by simpa using List.find?_some hc⟩
    rw [← (tree.written f hf).1]
    exact hf
  · rw [readCheckpoint_eq, List.find?_eq_none]
    simp
  · rw [checkpointPaths, hq]
    rfl

/-! ### The tree as a store -/

def toStore (tree : FileTree J) : Store J :=
  { backend := .file, checkpoints := tree.files.map (·.content), metas := tree.metas.map Prod.snd }

theorem toStore_readCheckpoint (tree : FileTree J) (id : String) :
    tree.toStore.readCheckpoint id = tree.readCheckpoint otherDigit id := (readCheckpoint_eq tree id).symm

theorem toStore_deleteCheckpoint (tree : FileTree J) (id : String) :
    (tree.deleteCheckpoint otherDigit id).toStore = tree.toStore.without id := by
  have hrows : ((tree.deleteCheckpoint otherDigit id).files.map (·.content))
      = (tree.files.map (·.content)).filter (·.id ≠ id) := by
    rw [files_deleteCheckpoint, List.filter_map]
    rfl
  rw [toStore, hrows]
  rfl

theorem path_fileOf_eq_iff (c d : Checkpoint J) :
    (fileOf c).path = (fileOf d).path ↔ Backend.slot .file c = Backend.slot .file d := by
  simp only [CheckpointFile.path, fileOf, Backend.slot, Prod.mk.injEq, Option.some.injEq]
  constructor
  · rintro ⟨hs, hname⟩
    obtain ⟨hseq, hid⟩ := fileName_inj hname
    exact ⟨⟨hs, hseq⟩, hid⟩
  · rintro ⟨⟨hs, hseq⟩, hid⟩
    rw [hs, hseq, hid]
    exact ⟨rfl, rfl⟩

theorem toStore_write_checkpoint (tree : FileTree J) (c : Checkpoint J) :
    (tree.write (.checkpoint c)).toStore =
      if tree.toStore.refusesCheckpoint c then tree.toStore else tree.toStore.withCheckpoint c := by
  have hrefuses : tree.toStore.refusesCheckpoint c = !tree.accepts c := by
    rw [accepts_eq]
    simp [Store.refusesCheckpoint, toStore]
  have hmetas : (tree.write (.checkpoint c)).metas = tree.metas := by
    rw [write, writeCheckpoint, mayWriteIn_eq_true]
    split <;> rfl
  rw [hrefuses, toStore, files_write_checkpoint, hmetas]
  cases tree.accepts c with
  | false => rfl
  | true =>
    have hmap : (upsert CheckpointFile.path (fileOf c) tree.files).map (·.content)
        = upsert (Backend.slot .file) c (tree.files.map (·.content)) := by
      refine map_upsert (f := CheckpointFile.content) (a := fileOf c) fun f hf => ?_
      rw [(tree.written f hf).1]
      exact (path_fileOf_eq_iff f.content c).symm
    exact congrArg (fun checkpoints => { tree.toStore with checkpoints }) hmap

theorem toStore_write_metadata (tree : FileTree J) (m : SessionMeta) :
    (tree.write (.metadata m)).toStore =
      if tree.toStore.refusesMeta m then tree.toStore else tree.toStore.withMeta m := by
  have hmap : (upsert Prod.fst (m.sessionId, m) tree.metas).map Prod.snd
      = upsert SessionMeta.sessionId m (tree.metas.map Prod.snd) :=
    map_upsert fun e he => by rw [tree.owned e he]
  have hrefuses : tree.toStore.refusesMeta m = !isPlainSegment m.sessionId := by
    simp [Store.refusesMeta, toStore]
  rw [hrefuses, write, writeMeta, mayWriteIn_eq_true]
  cases isPlainSegment m.sessionId with
  | false => rfl
  | true => exact congrArg (fun metas => { tree.toStore with metas }) hmap

inductive FileStep (J : Type) where
  | write (w : FileWrite J)
  | delete (id : String)

variable (otherDigit) in
def step (tree : FileTree J) : FileStep J → FileTree J
  | .write w => tree.write w
  | .delete id => tree.deleteCheckpoint otherDigit id

/-- The step on a store that keeps a row for each slot. -/
def stored (st : Store J) : FileStep J → Store J
  | .write (.checkpoint c) => if st.refusesCheckpoint c then st else st.withCheckpoint c
  | .write (.metadata m) => if st.refusesMeta m then st else st.withMeta m
  | .delete id => st.without id

theorem toStore_step (tree : FileTree J) (s : FileStep J) :
    (tree.step otherDigit s).toStore = stored tree.toStore s := by
  cases s with
  | write w =>
    cases w with
    | checkpoint c => exact toStore_write_checkpoint tree c
    | metadata m => exact toStore_write_metadata tree m
  | delete id => exact toStore_deleteCheckpoint tree id

/-- Writes and deletions in any order leave under the root what they leave in the store, and what is read back of an id
by the names of the files is what the store has of it. -/
theorem toStore_steps (otherDigit : Char → Bool) (steps : List (FileStep J)) (id : String) :
    let tree := steps.foldl (step otherDigit) ({} : FileTree J)
    let store := steps.foldl stored ({ backend := .file } : Store J)
    tree.toStore = store ∧ tree.readCheckpoint otherDigit id = store.readCheckpoint id ∧
      tree.metas.lookup id = store.readMeta id := by
  intro tree store
  have hstore : tree.toStore = store := (List.foldl_hom toStore fun tree s => (toStore_step tree s).symm).symm
  refine ⟨hstore, ?_, ?_⟩
  · rw [← hstore]
    exact (toStore_readCheckpoint tree id).symm
  · rw [← hstore, lookup_eq_find?, Store.readMeta, toStore, List.find?_map]
    refine congrArg (Option.map Prod.snd) (List.find?_congr fun e he => ?_)
    rw [Function.comp_apply, tree.owned e he]

end FileTree

end VidbyteSdk.Sessions
