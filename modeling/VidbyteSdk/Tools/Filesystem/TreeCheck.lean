import Mathlib.Data.List.Perm.Subperm
import VidbyteSdk.Lib.Checks
import VidbyteSdk.Lib.LinkTree

/-!
# The tree behind a copied folder

`FileSystemPermissions.require_tree_inside_root`: before a folder is copied or zipped, every entry that the
copy would read has to resolve inside the root. `rglob` does not enter folder links, so the tree behind
each of them is walked on its own, once for each real folder.

`Surveyed` is the invariant of the worklist: a checked folder is pending or was walked, and the links of a
walked folder lead to checked ones. `tree_inside_root` is what follows for the check as a whole.
-/

namespace VidbyteSdk.Tools.Filesystem

open VidbyteSdk.Lib

variable {ν : Type} [DecidableEq ν]

/-! ### The check -/

/-- How the check may end but for its return: the tool error, `resolve` on a link that leads back to
itself (Python before 3.13), or no more fuel. -/
inductive TreeError (ν : Type) where
  | toolExecution (message : String) (root : List ν) (path : List (PathPart ν))
  | symlinkLoop (path : List (PathPart ν))
  | outOfFuel

/-- The real folders that were queued, and the paths of those that were not walked so far, the last one
first. -/
structure Walk (ν : Type) where
  checked : List (List ν)
  pending : List (List (PathPart ν))

section

variable (tree : FileTree ν) (onLoop : List (PathPart ν) → Option (List ν)) (root : List ν)

/-- `Path.resolve`. `onLoop` says what becomes of a path through a link that leads back to itself: it
raises, or it is some path. -/
def resolve (path : List (PathPart ν)) : Except (TreeError ν) (List ν) :=
  match tree.realPath false path with
  | some resolved => .ok resolved
  | none =>
    match onLoop path with
    | some resolved => .ok resolved
    | none => .error (.symlinkLoop path)

def checkEntry (walk : Walk ν) (entry : List (PathPart ν)) : Except (TreeError ν) (Walk ν) := do
  let resolved ← resolve tree onLoop entry
  if ¬ root <+: resolved then
    throw (.toolExecution "Filesystem tool path escaped the configured root." root entry)
  else if tree.isSymlink entry ∧ tree.isDir entry ∧ resolved ∉ walk.checked then
    pure ⟨resolved :: walk.checked, entry :: walk.pending⟩
  else pure walk

/-- `while pending` -/
def checkPending : (fuel : Nat) → Walk ν → Except (TreeError ν) Unit
  | _, ⟨_, []⟩ => .ok ()
  | 0, _ => .error .outOfFuel
  | fuel + 1, ⟨checked, path :: pending⟩ => do
    let walk ← (tree.rglob path).foldlM (checkEntry tree onLoop root) ⟨checked, pending⟩
    checkPending fuel walk

/-- `require_tree_inside_root`, with fuel for its loop. -/
def requireTreeInsideRoot (fuel : Nat) (path : List (PathPart ν)) : Except (TreeError ν) Unit := do
  if tree.isDir path then do
    let resolved ← resolve tree onLoop path
    checkPending tree onLoop root fuel ⟨[resolved], [path]⟩
  else pure ()

end

/-! ### One entry -/

variable {tree : FileTree ν} {onLoop : List (PathPart ν) → Option (List ν)} {root : List ν}

/-- The entry `n` of a folder was checked: where it resolves it is inside the root, and the folder behind
it, if it is a link, is checked. -/
def Cleared (tree : FileTree ν) (root : List ν) (checked : List (List ν)) (folder : List ν) (n : ν) :
    Prop :=
  (∀ resolved, tree.walkFrom false folder [.name n] = some resolved → root <+: resolved) ∧
    ∀ target resolved, tree.kind (folder ++ [n]) = some (.link target) →
      tree.walkFrom true folder [.name n] = some resolved → tree.kind resolved = some .folder →
        resolved ∈ checked

def Walked (tree : FileTree ν) (root : List ν) (checked : List (List ν)) (folder : List ν) : Prop :=
  ∀ below n, (tree.kind (folder ++ below ++ [n])).isSome → Cleared tree root checked (folder ++ below) n

/-- Queued folders are real folders, each at most once, and every pending path leads to one. -/
structure Queued (tree : FileTree ν) (walk : Walk ν) : Prop where
  nodup : walk.checked.Nodup
  folders : ∀ folder ∈ walk.checked, tree.kind folder = some .folder
  pending : ∀ path ∈ walk.pending, ∃ folder ∈ walk.checked, tree.folderAt path = some folder

/-- The passes that may be left: one for each pending path and each folder that is not queued. -/
def Walk.left (tree : FileTree ν) (walk : Walk ν) : Nat :=
  tree.entries.length + 1 - walk.checked.length + walk.pending.length

structure Grows (tree : FileTree ν) (walk walk' : Walk ν) : Prop where
  queued : Queued tree walk'
  checked : walk.checked ⊆ walk'.checked
  pending : walk.pending ⊆ walk'.pending
  new : ∀ folder ∈ walk'.checked, folder ∈ walk.checked ∨
    ∃ path ∈ walk'.pending, tree.folderAt path = some folder
  left_eq : walk'.left tree = walk.left tree

theorem Queued.length_le {walk : Walk ν} (h : Queued tree walk) :
    walk.checked.length ≤ tree.entries.length + 1 := by
  have hsubset : walk.checked ⊆ [] :: tree.entries.map Prod.fst := by
    intro folder hfolder
    rcases List.eq_nil_or_concat' folder with rfl | ⟨path, n, rfl⟩
    · exact List.mem_cons_self
    · exact List.mem_cons_of_mem _
        (List.mem_map_of_mem (FileTree.mem_of_kind (h.folders _ hfolder)))
  have hlength := (h.nodup.subperm hsubset).length_le
  rw [List.length_cons, List.length_map] at hlength
  exact hlength

namespace Grows

variable {walk walk₁ walk₂ : Walk ν}

theorem refl (h : Queued tree walk) : Grows tree walk walk :=
  ⟨h, List.Subset.refl _, List.Subset.refl _, fun _ => Or.inl, rfl⟩

theorem trans (h₁ : Grows tree walk walk₁) (h₂ : Grows tree walk₁ walk₂) : Grows tree walk walk₂ where
  queued := h₂.queued
  checked := List.Subset.trans h₁.checked h₂.checked
  pending := List.Subset.trans h₁.pending h₂.pending
  new := by
    intro folder hfolder
    rcases h₂.new folder hfolder with hold | hnew
    · rcases h₁.new folder hold with hfirst | ⟨path, hpath, hat⟩
      · exact Or.inl hfirst
      · exact Or.inr ⟨path, h₂.pending hpath, hat⟩
    · exact Or.inr hnew
  left_eq := h₂.left_eq.trans h₁.left_eq

theorem push (h : Queued tree walk) {path : List (PathPart ν)} {folder : List ν}
    (hat : tree.folderAt path = some folder) (hnew : folder ∉ walk.checked) :
    Grows tree walk ⟨folder :: walk.checked, path :: walk.pending⟩ := by
  have hqueued : Queued tree ⟨folder :: walk.checked, path :: walk.pending⟩ := by
    refine ⟨List.nodup_cons.mpr ⟨hnew, h.nodup⟩, ?_, ?_⟩
    · intro other hother
      rcases List.mem_cons.mp hother with rfl | hother
      · exact (FileTree.folderAt_eq_some.mp hat).2
      · exact h.folders other hother
    · intro other hother
      rcases List.mem_cons.mp hother with rfl | hother
      · exact ⟨folder, List.mem_cons_self, hat⟩
      · obtain ⟨found, hfound, hother⟩ := h.pending other hother
        exact ⟨found, List.mem_cons_of_mem _ hfound, hother⟩
  refine ⟨hqueued, List.subset_cons_self _ _, List.subset_cons_self _ _, ?_, ?_⟩
  · intro other hother
    rcases List.mem_cons.mp hother with rfl | hother
    · exact Or.inr ⟨path, List.mem_cons_self, hat⟩
    · exact Or.inl hother
  · have hlength := hqueued.length_le
    unfold Walk.left
    rw [List.length_cons] at hlength ⊢
    rw [List.length_cons]
    omega

end Grows

theorem Cleared.mono {checked checked' : List (List ν)} {folder : List ν} {n : ν}
    (h : Cleared tree root checked folder n) (hchecked : checked ⊆ checked') :
    Cleared tree root checked' folder n :=
  ⟨h.1, fun target resolved hkind hwalk hfolder => hchecked (h.2 target resolved hkind hwalk hfolder)⟩

theorem resolve_of_realPath {path : List (PathPart ν)} {resolved : List ν}
    (h : tree.realPath false path = some resolved) : resolve tree onLoop path = .ok resolved := by
  unfold resolve
  rw [h]

theorem realPath_entry {strict : Bool} {path : List (PathPart ν)} {folder : List ν} (n : ν)
    (hat : tree.folderAt path = some folder) :
    tree.realPath strict (path ++ [.name n]) = tree.walkFrom strict folder [.name n] := by
  have hpath := (FileTree.folderAt_eq_some.mp hat).1
  cases strict with
  | true => exact FileTree.realPath_append hpath
  | false => exact FileTree.realPath_append (FileTree.walkFrom_false_of_true hpath)

theorem isSymlink_entry {path : List (PathPart ν)} {folder : List ν} {n : ν} {target : LinkTarget ν}
    (hat : tree.folderAt path = some folder) (hkind : tree.kind (folder ++ [n]) = some (.link target)) :
    tree.isSymlink (path ++ [.name n]) = true := by
  unfold FileTree.isSymlink
  rw [List.getLast?_concat, List.dropLast_concat, hat]
  dsimp only
  rw [hkind]

/-- Why the check raises at an entry. -/
def Refused (tree : FileTree ν) (onLoop : List (PathPart ν) → Option (List ν)) (root : List ν)
    (entry : List (PathPart ν)) (e : TreeError ν) : Prop :=
  resolve tree onLoop entry = .error e ∨ ∃ resolved, resolve tree onLoop entry = .ok resolved ∧
    ¬ root <+: resolved ∧
    e = .toolExecution "Filesystem tool path escaped the configured root." root entry

theorem checkEntry_error {walk : Walk ν} {entry : List (PathPart ν)} {e : TreeError ν}
    (h : checkEntry tree onLoop root walk entry = .error e) : Refused tree onLoop root entry e := by
  unfold checkEntry at h
  cases hresolve : resolve tree onLoop entry with
  | error e' =>
    rw [hresolve] at h
    cases h
    exact Or.inl hresolve
  | ok resolved =>
    rw [hresolve] at h
    change (if ¬ root <+: resolved then _ else _) = _ at h
    split at h
    · next hinside =>
      cases h
      exact Or.inr ⟨resolved, hresolve, hinside, rfl⟩
    · split at h <;> cases h

theorem checkEntry_ok {walk walk' : Walk ν} {path : List (PathPart ν)} {folder : List ν} {n : ν}
    (h : Queued tree walk) (hat : tree.folderAt path = some folder)
    (hok : checkEntry tree onLoop root walk (path ++ [.name n]) = .ok walk') :
    Grows tree walk walk' ∧ Cleared tree root walk'.checked folder n ∧
      ∀ other ∈ walk'.pending, other ∈ walk.pending ∨ other = path ++ [.name n] := by
  unfold checkEntry at hok
  obtain ⟨resolved, hresolve, hok⟩ := bind_eq_ok hok
  split at hok
  · cases hok
  next hinside =>
  have hresolved : ∀ found, tree.walkFrom false folder [.name n] = some found → found = resolved := by
    intro found hfound
    rw [← realPath_entry n hat] at hfound
    rw [resolve_of_realPath hfound] at hresolve
    exact Except.ok.inj hresolve
  have hroot : ∀ found, tree.walkFrom false folder [.name n] = some found → root <+: found := by
    intro found hfound
    rw [hresolved found hfound]
    exact not_not.mp hinside
  split at hok
  · next hqueue =>
    cases hok
    obtain ⟨found, hfound⟩ := Option.isSome_iff_exists.mp hqueue.2.1
    have hwalk := (FileTree.folderAt_eq_some.mp hfound).1
    rw [realPath_entry n hat] at hwalk
    have hsame := hresolved found (FileTree.walkFrom_false_of_true hwalk)
    subst hsame
    refine ⟨Grows.push h hfound hqueue.2.2, ⟨hroot, fun _ other _ hother _ => ?_⟩, fun other hother =>
      (List.mem_cons.mp hother).symm⟩
    rw [hresolved other (FileTree.walkFrom_false_of_true hother)]
    exact List.mem_cons_self
  · next hqueue =>
    cases hok
    refine ⟨Grows.refl h, ⟨hroot, fun target other hkind hother hfolder => ?_⟩, fun _ => Or.inl⟩
    have hat' : tree.folderAt (path ++ [.name n]) = some other := by
      rw [FileTree.folderAt_eq_some, realPath_entry n hat]
      exact ⟨hother, hfolder⟩
    have hdir : tree.isDir (path ++ [.name n]) = true := Option.isSome_iff_exists.mpr ⟨other, hat'⟩
    by_contra hnew
    rw [hresolved other (FileTree.walkFrom_false_of_true hother)] at hnew
    exact hqueue ⟨isSymlink_entry hat hkind, hdir, hnew⟩

/-! ### One walk -/

def IsEntry (tree : FileTree ν) (entry : List (PathPart ν)) : Prop :=
  ∃ path folder n, tree.folderAt path = some folder ∧ entry = path ++ [.name n]

theorem checkEntries_ok {entries : List (List (PathPart ν))} {walk walk' : Walk ν} (h : Queued tree walk)
    (hentries : ∀ entry ∈ entries, IsEntry tree entry)
    (hok : entries.foldlM (checkEntry tree onLoop root) walk = .ok walk') :
    Grows tree walk walk' ∧
      (∀ path folder n, path ++ [.name n] ∈ entries → tree.folderAt path = some folder →
        Cleared tree root walk'.checked folder n) ∧
      ∀ other ∈ walk'.pending, other ∈ walk.pending ∨ other ∈ entries := by
  induction entries generalizing walk with
  | nil =>
    cases hok
    exact ⟨Grows.refl h, fun _ _ _ hmem => absurd hmem List.not_mem_nil, fun _ => Or.inl⟩
  | cons entry entries ih =>
    rw [List.foldlM_cons] at hok
    obtain ⟨walk₁, hfirst, hrest⟩ := bind_eq_ok hok
    obtain ⟨path, folder, n, hat, rfl⟩ := hentries entry List.mem_cons_self
    obtain ⟨hgrows, hcleared, hqueued⟩ := checkEntry_ok h hat hfirst
    obtain ⟨hgrows', hall, hrestQueued⟩ := ih hgrows.queued
      (fun other hother => hentries other (List.mem_cons_of_mem _ hother)) hrest
    refine ⟨hgrows.trans hgrows', fun path' folder' n' hmem hat' => ?_, fun other hother => ?_⟩
    · rcases List.mem_cons.mp hmem with hsame | hmem
      · obtain ⟨rfl, hname⟩ := List.append_inj' hsame rfl
        rw [hat] at hat'
        cases hname
        cases hat'
        exact hcleared.mono hgrows'.checked
      · exact hall path' folder' n' hmem hat'
    · rcases hrestQueued other hother with hold | hnew
      · rcases hqueued other hold with hfirst | rfl
        · exact Or.inl hfirst
        · exact Or.inr List.mem_cons_self
      · exact Or.inr (List.mem_cons_of_mem _ hnew)

theorem checkEntries_error {entries : List (List (PathPart ν))} {walk : Walk ν} {e : TreeError ν}
    (h : entries.foldlM (checkEntry tree onLoop root) walk = .error e) :
    ∃ entry ∈ entries, Refused tree onLoop root entry e := by
  induction entries generalizing walk with
  | nil => cases h
  | cons entry entries ih =>
    rw [List.foldlM_cons] at h
    cases hfirst : checkEntry tree onLoop root walk entry with
    | error e' =>
      rw [hfirst] at h
      cases h
      exact ⟨entry, List.mem_cons_self, checkEntry_error hfirst⟩
    | ok walk₁ =>
      rw [hfirst] at h
      obtain ⟨other, hother, hrefused⟩ := ih h
      exact ⟨other, List.mem_cons_of_mem _ hother, hrefused⟩

variable {path entry : List (PathPart ν)}

/-- What `rglob` lists: the entries of the real tree below the folder. -/
theorem mem_rglob {folder : List ν}
    (hat : tree.folderAt path = some folder) : entry ∈ tree.rglob path ↔ ∃ below n,
      (tree.kind (folder ++ below ++ [n])).isSome ∧ entry = path ++ below.map .name ++ [.name n] := by
  unfold FileTree.rglob
  rw [hat]
  dsimp only
  rw [List.mem_map]
  constructor
  · rintro ⟨⟨real, kind⟩, hmem, rfl⟩
    obtain ⟨hentry, hbelow⟩ := List.mem_filter.mp hmem
    obtain ⟨⟨rest, rfl⟩, hne⟩ := of_decide_eq_true hbelow
    rcases List.eq_nil_or_concat' rest with rfl | ⟨below, n, rfl⟩
    · exact absurd (List.append_nil folder) hne
    · refine ⟨below, n, ?_, ?_⟩
      · rw [List.append_assoc, FileTree.kind_of_mem hentry]
        rfl
      · rw [List.drop_left, List.map_append, List.append_assoc]
        rfl
  · rintro ⟨below, n, hkind, rfl⟩
    obtain ⟨kind, hkind⟩ := Option.isSome_iff_exists.mp hkind
    refine ⟨_, List.mem_filter.mpr ⟨FileTree.mem_of_kind hkind, decide_eq_true ⟨?_, ?_⟩⟩, ?_⟩
    · exact ⟨below ++ [n], (List.append_assoc ..).symm⟩
    · intro hsame
      rw [List.append_assoc] at hsame
      simp at hsame
    · rw [List.append_assoc, List.drop_left, List.map_append, List.append_assoc]
      rfl

theorem folderAt_below {path : List (PathPart ν)} {folder below : List ν}
    (hat : tree.folderAt path = some folder)
    (hbelow : tree.kind (folder ++ below) = some .folder) :
    tree.folderAt (path ++ below.map .name) = some (folder ++ below) := by
  rw [FileTree.folderAt_eq_some,
    FileTree.realPath_append (FileTree.folderAt_eq_some.mp hat).1]
  exact ⟨FileTree.walkFrom_names hbelow, hbelow⟩

theorem folderAt_entry {path : List (PathPart ν)} {folder below : List ν} {n : ν}
    (hat : tree.folderAt path = some folder)
    (hkind : (tree.kind (folder ++ below ++ [n])).isSome) :
    tree.folderAt (path ++ below.map .name) = some (folder ++ below) := by
  obtain ⟨kind, hkind⟩ := Option.isSome_iff_exists.mp hkind
  exact folderAt_below hat (FileTree.kind_folder_of_kind hkind)

theorem isEntry_of_mem_rglob {folder : List ν}
    (hat : tree.folderAt path = some folder) (h : entry ∈ tree.rglob path) : IsEntry tree entry := by
  obtain ⟨below, n, hkind, rfl⟩ := (mem_rglob hat).mp h
  exact ⟨_, _, n, folderAt_entry hat hkind, rfl⟩

theorem enters_of_mem_rglob {folder : List ν}
    (hat : tree.folderAt path = some folder) (h : entry ∈ tree.rglob path) :
    Relation.TransGen tree.Enters path entry := by
  obtain ⟨below, n, hkind, rfl⟩ := (mem_rglob hat).mp h
  have hfolder := folderAt_entry hat hkind
  have hlast : tree.Enters (path ++ below.map .name) (path ++ below.map .name ++ [.name n]) :=
    ⟨n, ⟨folder ++ below, hfolder, hkind⟩, rfl⟩
  refine Relation.TransGen.tail' ?_ hlast
  have hbelow := (FileTree.folderAt_eq_some.mp hfolder).2
  clear hlast hfolder hkind h
  induction below using List.reverseRecOn with
  | nil =>
    rw [List.map_nil, List.append_nil]
  | append_singleton below m ih =>
    rw [← List.append_assoc] at hbelow
    have hparent := FileTree.kind_folder_of_kind hbelow
    refine (ih hparent).tail ⟨m, ⟨folder ++ below, folderAt_below hat hparent, ?_⟩, ?_⟩
    · rw [hbelow]
      rfl
    · rw [List.map_append, ← List.append_assoc]
      rfl

/-! ### The worklist -/

/-- Every checked folder is pending or was walked. -/
structure Surveyed (tree : FileTree ν) (root : List ν) (start : List (PathPart ν)) (walk : Walk ν) :
    Prop where
  queued : Queued tree walk
  walked : ∀ folder ∈ walk.checked, Walked tree root walk.checked folder ∨
    ∃ path ∈ walk.pending, tree.folderAt path = some folder
  reached : ∀ path ∈ walk.pending, Relation.ReflTransGen tree.Enters start path

variable {checked : List (List ν)}

theorem Queued.pop {path : List (PathPart ν)} {pending : List (List (PathPart ν))}
    (h : Queued tree ⟨checked, path :: pending⟩) : Queued tree ⟨checked, pending⟩ :=
  ⟨h.nodup, h.folders, fun other hother => h.pending other (List.mem_cons_of_mem _ hother)⟩

theorem Surveyed.step {start path : List (PathPart ν)}
    {pending : List (List (PathPart ν))} {walk' : Walk ν}
    (h : Surveyed tree root start ⟨checked, path :: pending⟩)
    (hok : (tree.rglob path).foldlM (checkEntry tree onLoop root) ⟨checked, pending⟩ = .ok walk') :
    Surveyed tree root start walk' ∧ checked ⊆ walk'.checked ∧
      walk'.left tree + 1 = Walk.left tree ⟨checked, path :: pending⟩ := by
  obtain ⟨folder, -, hat⟩ := h.queued.pending path List.mem_cons_self
  obtain ⟨hgrows, hcleared, hqueued⟩ :=
    checkEntries_ok h.queued.pop (fun _ => isEntry_of_mem_rglob hat) hok
  refine ⟨⟨hgrows.queued, ?_, ?_⟩, hgrows.checked, ?_⟩
  · intro found hfound
    rcases hgrows.new found hfound with hold | hnew
    · rcases h.walked found hold with hwalked | ⟨other, hother, hfound⟩
      · exact Or.inl fun below n hkind => (hwalked below n hkind).mono hgrows.checked
      · rcases List.mem_cons.mp hother with rfl | hother
        · rw [hat] at hfound
          cases hfound
          refine Or.inl fun below n hkind => ?_
          exact hcleared _ _ n ((mem_rglob hat).mpr ⟨below, n, hkind, rfl⟩) (folderAt_entry hat hkind)
        · exact Or.inr ⟨other, hgrows.pending hother, hfound⟩
    · exact Or.inr hnew
  · intro other hother
    have hpath := h.reached path List.mem_cons_self
    rcases hqueued other hother with hold | hnew
    · exact h.reached other (List.mem_cons_of_mem _ hold)
    · exact hpath.trans (enters_of_mem_rglob hat hnew).to_reflTransGen
  · rw [hgrows.left_eq]
    rfl

theorem Surveyed.walked_of_nil {start : List (PathPart ν)}
    (h : Surveyed tree root start ⟨checked, []⟩) : ∀ folder ∈ checked, Walked tree root checked folder := by
  intro folder hfolder
  rcases h.walked folder hfolder with hwalked | ⟨path, hpath, -⟩
  · exact hwalked
  · exact absurd hpath List.not_mem_nil

/-- The worklist ends with every checked folder walked, or raises at an entry that it reached; it needs
no more passes than may be left. -/
theorem checkPending_spec (onLoop : List (PathPart ν) → Option (List ν)) (fuel : Nat)
    {start : List (PathPart ν)} {walk : Walk ν} (h : Surveyed tree root start walk) :
    match checkPending tree onLoop root fuel walk with
    | .ok () => ∃ checked, walk.checked ⊆ checked ∧ ∀ folder ∈ checked, Walked tree root checked folder
    | .error e => e = .outOfFuel ∧ fuel < walk.left tree ∨
        ∃ entry, Relation.TransGen tree.Enters start entry ∧ Refused tree onLoop root entry e := by
  induction fuel generalizing walk with
  | zero =>
    obtain ⟨checked, pending⟩ := walk
    cases pending with
    | nil => exact ⟨checked, List.Subset.refl _, h.walked_of_nil⟩
    | cons path pending => exact Or.inl ⟨rfl, Nat.succ_pos _⟩
  | succ fuel ih =>
    obtain ⟨checked, pending⟩ := walk
    cases pending with
    | nil => exact ⟨checked, List.Subset.refl _, h.walked_of_nil⟩
    | cons path pending =>
      unfold checkPending
      cases hpass : (tree.rglob path).foldlM (checkEntry tree onLoop root) ⟨checked, pending⟩ with
      | error e =>
        obtain ⟨entry, hentry, hrefused⟩ := checkEntries_error hpass
        obtain ⟨folder, -, hat⟩ := h.queued.pending path List.mem_cons_self
        refine Or.inr ⟨entry, ?_, hrefused⟩
        exact (enters_of_mem_rglob hat hentry).trans_right (h.reached path List.mem_cons_self)
      | ok walk' =>
        obtain ⟨hsurveyed, hchecked, hleft⟩ := h.step hpass
        have hrest := ih hsurveyed
        show match checkPending tree onLoop root fuel walk' with
          | .ok () => _
          | .error e => _
        cases hend : checkPending tree onLoop root fuel walk' with
        | error e =>
          rw [hend] at hrest
          rcases hrest with ⟨hfuel, hlt⟩ | hrefused
          · exact Or.inl ⟨hfuel, by omega⟩
          · exact Or.inr hrefused
        | ok _ =>
          rw [hend] at hrest
          obtain ⟨final, hsubset, hwalked⟩ := hrest
          exact ⟨final, List.Subset.trans hchecked hsubset, hwalked⟩

/-! ### What the check says of a tree -/

theorem folder_below_checked {start path : List (PathPart ν)}
    {first folder : List ν} (hstart : tree.folderAt start = some first) (hfirst : first ∈ checked)
    (hwalked : ∀ folder ∈ checked, Walked tree root checked folder)
    (hpath : Relation.ReflTransGen tree.Enters start path) (hat : tree.folderAt path = some folder) :
    ∃ top ∈ checked, ∃ below, folder = top ++ below := by
  induction hpath generalizing folder with
  | refl =>
    rw [hstart] at hat
    cases hat
    exact ⟨first, hfirst, [], (List.append_nil _).symm⟩
  | tail _ henter ih =>
    obtain ⟨n, ⟨parent, hparent, hkind⟩, rfl⟩ := henter
    obtain ⟨top, htop, below, rfl⟩ := ih hparent
    have hcleared := hwalked top htop below n hkind
    obtain ⟨hwalk, hfolder⟩ := FileTree.folderAt_eq_some.mp hat
    rw [realPath_entry n hparent] at hwalk
    obtain ⟨kind, hkind⟩ := Option.isSome_iff_exists.mp hkind
    by_cases hlink : ∃ target, kind = .link target
    · obtain ⟨target, rfl⟩ := hlink
      exact ⟨folder, hcleared.2 target folder hkind hwalk hfolder, [], (List.append_nil _).symm⟩
    · have hstep : tree.walkFrom true (top ++ below) [.name n] = some (top ++ below ++ [n]) :=
        FileTree.walkFrom_name hkind fun target ht => hlink ⟨target, ht⟩
      rw [hstep] at hwalk
      cases hwalk
      exact ⟨top, htop, below ++ [n], List.append_assoc ..⟩

theorem not_refused_outOfFuel {entry : List (PathPart ν)} :
    ¬ Refused tree onLoop root entry .outOfFuel := by
  rintro (hresolve | ⟨resolved, -, -, hsame⟩)
  · unfold resolve at hresolve
    split at hresolve
    · cases hresolve
    · split at hresolve <;> cases hresolve
  · cases hsame

/-- The check of a tree ends: it makes at most as many passes as the tree has folders. It returns only if
every entry that is reached from the folder, by descending into folders and following folder links,
resolves inside the root; it raises only at such an entry that does not, or that does not resolve. -/
theorem tree_inside_root (tree : FileTree ν) (onLoop : List (PathPart ν) → Option (List ν)) (root : List ν)
    (path : List (PathPart ν)) :
    (∀ spare, ∀ e, requireTreeInsideRoot tree onLoop root (tree.entries.length + 1 + spare) path
      = .error e → e ≠ .outOfFuel) ∧
    ∀ fuel,
      (requireTreeInsideRoot tree onLoop root fuel path = .ok () →
        ∀ entry, Relation.TransGen tree.Enters path entry →
          ∀ resolved, tree.realPath false entry = some resolved → root <+: resolved) ∧
      ∀ e, requireTreeInsideRoot tree onLoop root fuel path = .error e → e ≠ .outOfFuel →
        ∃ entry, Relation.TransGen tree.Enters path entry ∧ Refused tree onLoop root entry e := by
  by_cases hdir : tree.isDir path
  · obtain ⟨first, hat⟩ := Option.isSome_iff_exists.mp hdir
    obtain ⟨hpath, hfolder⟩ := FileTree.folderAt_eq_some.mp hat
    have hrun : ∀ fuel, requireTreeInsideRoot tree onLoop root fuel path
        = checkPending tree onLoop root fuel ⟨[first], [path]⟩ := by
      intro fuel
      unfold requireTreeInsideRoot
      rw [if_pos hdir, resolve_of_realPath (FileTree.walkFrom_false_of_true hpath)]
      rfl
    have hsurveyed : Surveyed tree root path ⟨[first], [path]⟩ := by
      refine ⟨⟨by simp, ?_, ?_⟩, ?_, ?_⟩
      · intro folder hmem
        rw [List.mem_singleton.mp hmem]
        exact hfolder
      · intro other hmem
        rw [List.mem_singleton.mp hmem]
        exact ⟨first, List.mem_singleton_self first, hat⟩
      · intro folder hmem
        rw [List.mem_singleton.mp hmem]
        exact Or.inr ⟨path, List.mem_singleton_self path, hat⟩
      · intro other hmem
        rw [List.mem_singleton.mp hmem]
    refine ⟨fun spare e herror => ?_, fun fuel => ⟨fun hok entry hentry resolved hresolved => ?_,
      fun e herror hfuel => ?_⟩⟩
    · have h := checkPending_spec onLoop (tree.entries.length + 1 + spare) hsurveyed
      rw [← hrun, herror] at h
      rcases h with ⟨-, hlt⟩ | ⟨entry, -, hrefused⟩
      · have hleft : Walk.left tree ⟨[first], [path]⟩ = tree.entries.length + 1 := rfl
        omega
      · rintro rfl
        exact not_refused_outOfFuel hrefused
    · have h := checkPending_spec onLoop fuel hsurveyed
      rw [← hrun, hok] at h
      obtain ⟨checked, hsubset, hwalked⟩ := h
      have hfirst : first ∈ checked := hsubset (List.mem_singleton_self first)
      obtain ⟨parent, hparent, n, ⟨folder, hfolderAt, hkind⟩, rfl⟩ :=
        Relation.TransGen.tail'_iff.mp hentry
      obtain ⟨top, htop, below, rfl⟩ := folder_below_checked hat hfirst hwalked hparent hfolderAt
      rw [realPath_entry n hfolderAt] at hresolved
      exact (hwalked top htop below n hkind).1 resolved hresolved
    · have h := checkPending_spec onLoop fuel hsurveyed
      rw [← hrun, herror] at h
      exact h.resolve_left fun hleft => hfuel hleft.1
  · have hrun : ∀ fuel, requireTreeInsideRoot tree onLoop root fuel path = .ok () := by
      intro fuel
      unfold requireTreeInsideRoot
      rw [if_neg hdir]
      rfl
    refine ⟨fun spare e herror => ?_, fun fuel => ⟨fun _ entry hentry => ?_, fun e herror => ?_⟩⟩
    · rw [hrun] at herror
      cases herror
    · obtain ⟨first, ⟨n, ⟨folder, hat, -⟩, -⟩, -⟩ := Relation.TransGen.head'_iff.mp hentry
      exact absurd (Option.isSome_iff_exists.mpr ⟨folder, hat⟩) hdir
    · rw [hrun] at herror
      cases herror

/-! ### A link to the folder above -/

/-- A folder `0` with a folder `1`, whose link `2` leads back to `0`. -/
def looping : FileTree Nat where
  entries := [([0], .folder), ([0, 1], .folder), ([0, 1, 2], .link ⟨false, [.parent]⟩)]
  nodup := by decide
  parents := by
    intro entry hentry
    simp only [List.mem_cons, List.not_mem_nil, or_false] at hentry
    rcases hentry with rfl | rfl | rfl
    · exact ⟨[], 0, rfl, Or.inl rfl⟩
    · exact ⟨[0], 1, rfl, Or.inr (by simp)⟩
    · exact ⟨[0, 1], 2, rfl, Or.inr (by simp)⟩

/-- The same folder reached through its own link. -/
theorem tree_inside_root_looping :
    requireTreeInsideRoot looping (fun _ => none) [0] 4 [.name 0, .name 1] = .ok () ∧
      [0] <+: [0, 1] := by
  have hlink : looping.Enters [.name 0, .name 1] [.name 0, .name 1, .name 2] :=
    ⟨2, ⟨[0, 1], rfl, rfl⟩, rfl⟩
  have hagain : looping.Enters [.name 0, .name 1, .name 2] [.name 0, .name 1, .name 2, .name 1] :=
    ⟨1, ⟨[0], rfl, rfl⟩, rfl⟩
  exact ⟨rfl, ((tree_inside_root looping (fun _ => none) [0] [.name 0, .name 1]).2 4).1 rfl
    [.name 0, .name 1, .name 2, .name 1] (Relation.TransGen.tail (.single hlink) hagain) [0, 1] rfl⟩

example : requireTreeInsideRoot looping (fun _ => none) [0, 1] 4 [.name 0, .name 1]
    = .error (.toolExecution "Filesystem tool path escaped the configured root." [0, 1]
      [.name 0, .name 1, .name 2]) :=
  rfl

end VidbyteSdk.Tools.Filesystem
