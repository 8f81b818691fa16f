import Mathlib.Data.List.Infix
import Mathlib.Logic.Relation

/-!
# File trees with symbolic links

A tree is a finite list of entries under their real paths, `[]` being the root folder. A path in it may go
through links and parents; `realPath` resolves it, as the operating system does (`strict`: every part but
the last has to be a folder, and the last has to be there) or as `os.path.realpath` does, which takes what
is not there as it is written. Both give up on a link that its own resolution comes back to.

`walkFrom_append` cuts a resolution in two, so that what lies behind a path depends only on the folder it
resolves to.
-/

namespace VidbyteSdk.Lib

inductive PathPart (ν : Type*) where
  | name (n : ν)
  | parent
  deriving DecidableEq

structure LinkTarget (ν : Type*) where
  absolute : Bool
  parts : List (PathPart ν)
  deriving DecidableEq

inductive EntryKind (ν : Type*) where
  | file
  | folder
  | link (target : LinkTarget ν)
  deriving DecidableEq

structure FileTree (ν : Type*) where
  entries : List (List ν × EntryKind ν)
  nodup : (entries.map Prod.fst).Nodup
  parents : ∀ entry ∈ entries, ∃ path n, entry.1 = path ++ [n] ∧
    (path = [] ∨ (path, EntryKind.folder) ∈ entries)

namespace FileTree

variable {ν : Type*} [DecidableEq ν] (tree : FileTree ν)

def kind : List ν → Option (EntryKind ν)
  | [] => some .folder
  | path => tree.entries.lookup path

/-- One part of a path, where `readLink` resolves a link. -/
def followPart (strict : Bool) (readLink : List ν → LinkTarget ν → Option (List ν)) (path : List ν)
    (part : PathPart ν) : Option (List ν) :=
  if strict ∧ tree.kind path ≠ some .folder then none
  else match part with
    | .parent => some path.dropLast
    | .name n =>
      match tree.kind (path ++ [n]) with
      | some (.link target) => readLink (path ++ [n]) target
      | some _ => some (path ++ [n])
      | none => if strict then none else some (path ++ [n])

/-- Resolves the parts of a path while the links `opened` are being resolved. Every one of them is an
entry, so `depth` is only used up where one comes back. -/
def joinRealPath (strict : Bool) : (depth : Nat) → (opened : List (List ν)) → List ν →
    List (PathPart ν) → Option (List ν)
  | 0, _, _, _ => none
  | depth + 1, opened, path, parts =>
    parts.foldlM (tree.followPart strict fun link target =>
      if link ∈ opened then none
      else joinRealPath strict depth (link :: opened) (if target.absolute then [] else link.dropLast)
        target.parts) path

def walkFrom (strict : Bool) (path : List ν) (parts : List (PathPart ν)) : Option (List ν) :=
  tree.joinRealPath strict (tree.entries.length + 1) [] path parts

def realPath (strict : Bool) (parts : List (PathPart ν)) : Option (List ν) :=
  tree.walkFrom strict [] parts

def folderAt (parts : List (PathPart ν)) : Option (List ν) :=
  (tree.realPath true parts).filter fun path => tree.kind path = some .folder

/-- `Path.is_dir`, which follows links. -/
def isDir (parts : List (PathPart ν)) : Bool := (tree.folderAt parts).isSome

/-- `Path.is_symlink`: a link in the folder behind the rest of the path. -/
def isSymlink (parts : List (PathPart ν)) : Bool :=
  match parts.getLast?, tree.folderAt parts.dropLast with
  | some (.name n), some folder =>
    match tree.kind (folder ++ [n]) with
    | some (.link _) => true
    | _ => false
  | _, _ => false

/-- `Path.rglob("*")`: the entries below the folder behind a path; a link in it is listed, not entered. -/
def rglob (parts : List (PathPart ν)) : List (List (PathPart ν)) :=
  match tree.folderAt parts with
  | none => []
  | some folder =>
    (tree.entries.filter fun entry => folder <+: entry.1 ∧ entry.1 ≠ folder).map fun entry =>
      parts ++ (entry.1.drop folder.length).map .name

/-- The folder behind a path, which may be the target of a link, has the entry. -/
def Lists (parts : List (PathPart ν)) (n : ν) : Prop :=
  ∃ folder, tree.folderAt parts = some folder ∧ (tree.kind (folder ++ [n])).isSome

/-- From a folder to one of its entries. -/
def Enters (parts next : List (PathPart ν)) : Prop :=
  ∃ n, tree.Lists parts n ∧ next = parts ++ [.name n]

variable {tree}

/-! ### Entries -/

variable {kind : EntryKind ν} {path : List ν}

theorem kind_of_mem (h : (path, kind) ∈ tree.entries) :
    tree.kind path = some kind := by
  have hlookup : tree.entries.lookup path = some kind := by
    obtain ⟨before, after, hsplit⟩ := List.append_of_mem h
    rw [List.lookup_eq_some_iff]
    refine ⟨before, after, hsplit, fun entry hentry => ?_⟩
    have hnodup := tree.nodup
    rw [hsplit, List.map_append, List.nodup_append] at hnodup
    have hne := hnodup.2.2 entry.1 (List.mem_map_of_mem hentry) path (by simp)
    simpa using Ne.symm hne
  obtain ⟨folder, n, hpath, -⟩ := tree.parents _ h
  cases path with
  | nil => simp at hpath
  | cons => exact hlookup

theorem mem_of_kind {n : ν}
    (h : tree.kind (path ++ [n]) = some kind) : (path ++ [n], kind) ∈ tree.entries := by
  have hlookup : tree.entries.lookup (path ++ [n]) = some kind := by
    cases path <;> exact h
  obtain ⟨before, after, hsplit, -⟩ := List.lookup_eq_some_iff.mp hlookup
  rw [hsplit]
  simp

theorem kind_folder_of_kind {n : ν}
    (h : tree.kind (path ++ [n]) = some kind) : tree.kind path = some .folder := by
  obtain ⟨folder, n', hpath, hfolder⟩ := tree.parents _ (mem_of_kind h)
  obtain ⟨rfl, -⟩ := List.append_inj' hpath rfl
  rcases hfolder with rfl | hmem
  · rfl
  · exact kind_of_mem hmem

/-! ### Resolution -/

theorem walkFrom_append (strict : Bool) (path : List ν) (before after : List (PathPart ν)) :
    tree.walkFrom strict path (before ++ after)
      = (tree.walkFrom strict path before).bind fun path => tree.walkFrom strict path after :=
  List.foldlM_append

theorem realPath_append {strict : Bool} {before after : List (PathPart ν)}
    (h : tree.realPath strict before = some path) :
    tree.realPath strict (before ++ after) = tree.walkFrom strict path after := by
  unfold realPath at *
  rw [walkFrom_append, h, Option.bind_some]

theorem followPart_false_of_true {readLink readLink' : List ν → LinkTarget ν → Option (List ν)}
    (hlinks : ∀ link target found, readLink link target = some found →
      readLink' link target = some found) {path found : List ν} {part : PathPart ν}
    (h : tree.followPart true readLink path part = some found) :
    tree.followPart false readLink' path part = some found := by
  unfold followPart at h ⊢
  rw [if_neg (by simp)]
  split at h
  · cases h
  cases part with
  | parent => exact h
  | name n =>
    dsimp only at h ⊢
    cases hkind : tree.kind (path ++ [n]) with
    | none =>
      rw [hkind] at h
      cases h
    | some kind =>
      rw [hkind] at h
      cases kind with
      | file | folder => exact h
      | link target => exact hlinks _ target found h

variable {parts : List (PathPart ν)}

/-- What the operating system resolves, `os.path.realpath` resolves the same way. -/
theorem joinRealPath_false_of_true {depth : Nat} {opened : List (List ν)} {path found : List ν}
    (h : tree.joinRealPath true depth opened path parts = some found) :
    tree.joinRealPath false depth opened path parts = some found := by
  induction depth generalizing opened path parts found with
  | zero => cases h
  | succ depth ih =>
    unfold joinRealPath at h ⊢
    induction parts generalizing path with
    | nil => exact h
    | cons part rest ihRest =>
      rw [List.foldlM_cons] at h ⊢
      obtain ⟨path', hpart, hrest⟩ := Option.bind_eq_some_iff.mp h
      refine Option.bind_eq_some_iff.mpr ⟨path', followPart_false_of_true ?_ hpart, ihRest hrest⟩
      intro link target found hlink
      split at hlink
      · cases hlink
      · next hopen =>
        rw [if_neg hopen]
        exact ih hlink

theorem walkFrom_false_of_true {path found : List ν}
    (h : tree.walkFrom true path parts = some found) : tree.walkFrom false path parts = some found :=
  joinRealPath_false_of_true h

theorem walkFrom_name {strict : Bool} {n : ν}
    (h : tree.kind (path ++ [n]) = some kind) (hlink : ∀ target, kind ≠ .link target) :
    tree.walkFrom strict path [.name n] = some (path ++ [n]) := by
  have hfolder := kind_folder_of_kind h
  unfold walkFrom joinRealPath
  rw [List.foldlM_cons, followPart, if_neg (by simp [hfolder]), h]
  cases kind with
  | file | folder => rfl
  | link target => exact absurd rfl (hlink target)

theorem walkFrom_names {strict : Bool} {path names : List ν}
    (h : tree.kind (path ++ names) = some .folder) :
    tree.walkFrom strict path (names.map .name) = some (path ++ names) := by
  induction names using List.reverseRecOn with
  | nil => simp [walkFrom, joinRealPath]
  | append_singleton names n ih =>
    rw [← List.append_assoc] at h
    rw [List.map_append, walkFrom_append, ih (kind_folder_of_kind h), Option.bind_some]
    simpa using walkFrom_name h (by simp)

theorem folderAt_eq_some {folder : List ν} :
    tree.folderAt parts = some folder ↔
      tree.realPath true parts = some folder ∧ tree.kind folder = some .folder := by
  unfold folderAt
  rw [Option.filter_eq_some_iff, decide_eq_true_iff]

end FileTree

end VidbyteSdk.Lib
