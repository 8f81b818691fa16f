import VidbyteSdk.Lib.Json

/-!
# Lines of a text

A text as lines that end in a newline and a rest without one.
-/

namespace VidbyteSdk.Lib

abbrev newline : CodePoint := 0x0A

abbrev carriageReturn : CodePoint := 0x0D

def lines : Text → List Text
  | [] => []
  | c :: rest =>
    if c = newline then [] :: lines rest
    else
      match lines rest with
      | [] => [[c]]
      | l :: ls => (c :: l) :: ls

def unlines (ls : List Text) : Text := ls.flatMap fun l => l ++ [newline]

/-- `"\n".join(texts)`. -/
def joinLines (texts : List Text) : Text := [newline].intercalate texts

/-- `text.rpartition("\n")`: what stands before the last newline, the newline, and what follows. -/
def rpartition : Text → Text × Text × Text
  | [] => ([], [], [])
  | c :: rest =>
    match rpartition rest with
    | (head, [], tail) => if c = newline then ([], [c], rest) else (head, [], c :: tail)
    | (head, sep, tail) => (c :: head, sep, tail)

/-- What reading a file in text mode makes of its line ends. -/
def universalNewlines : Text → Text
  | [] => []
  | c :: rest =>
    if c = 0x0D then
      match rest with
      | [] => [newline]
      | d :: rest =>
        if d = newline then newline :: universalNewlines rest
        else newline :: universalNewlines (d :: rest)
    else c :: universalNewlines rest

attribute [local grind =] lines universalNewlines

def WholeLines (t : Text) : Prop := t = [] ∨ t.getLast? = some newline

instance (t : Text) : Decidable (WholeLines t) := inferInstanceAs (Decidable (_ ∨ _))

@[simp] theorem unlines_nil : unlines [] = [] := rfl

@[simp] theorem unlines_cons (l : Text) (ls : List Text) :
    unlines (l :: ls) = l ++ newline :: unlines ls := by
  simp [unlines]

@[simp] theorem unlines_append (ls ms : List Text) :
    unlines (ls ++ ms) = unlines ls ++ unlines ms := List.flatMap_append

@[simp] theorem joinLines_nil : joinLines [] = [] := rfl

@[simp] theorem joinLines_singleton (text : Text) : joinLines [text] = text := List.intercalate_singleton

theorem joinLines_cons_cons (text next : Text) (rest : List Text) :
    joinLines (text :: next :: rest) = text ++ newline :: joinLines (next :: rest) := by
  rw [joinLines, joinLines, List.intercalate_cons_cons, List.append_assoc, List.singleton_append]

theorem length_joinLines (texts : List Text) :
    (joinLines texts).length = (texts.map List.length).sum + (texts.length - 1) := by
  induction texts with
  | nil => rfl
  | cons text texts ih =>
    cases texts with
    | nil =>
      rw [joinLines_singleton]
      rfl
    | cons next rest =>
      rw [joinLines_cons_cons, List.length_append, List.length_cons, ih]
      simp only [List.map_cons, List.sum_cons, List.length_cons]
      omega

theorem length_lt_joinLines {text : Text} {texts : List Text} (h : text ∈ texts) (hmany : texts.length ≠ 1) :
    text.length < (joinLines texts).length := by
  obtain ⟨before, after, rfl⟩ := List.append_of_mem h
  rw [length_joinLines]
  simp only [List.length_append, List.length_cons, List.map_append, List.map_cons, List.sum_append,
    List.sum_cons] at hmany ⊢
  omega

theorem wholeLines_unlines (ls : List Text) : WholeLines (unlines ls) := by
  induction ls using List.reverseRecOn with
  | nil => exact Or.inl rfl
  | append_singleton ls l _ => exact Or.inr (by simp)

variable {t : Text}

theorem universalNewlines_of_notMem (h : (0x0D : CodePoint) ∉ t) :
    universalNewlines t = t := by
  induction t with
  | nil => rfl
  | cons c t ih =>
    rw [List.mem_cons, not_or] at h
    rw [universalNewlines.eq_def]
    simp only [if_neg (Ne.symm h.1), ih h.2]

theorem length_universalNewlines_le (t : Text) : (universalNewlines t).length ≤ t.length := by
  fun_induction universalNewlines t with
  | case1 => exact Nat.le_refl 0
  | case2 => exact Nat.le_refl 1
  | case3 rest ih =>
    simp only [List.length_cons]
    omega
  | case4 d rest _ ih =>
    simp only [List.length_cons] at ih ⊢
    omega
  | case5 c rest _ ih =>
    simp only [List.length_cons]
    omega

theorem mem_universalNewlines {c : CodePoint} (h : c ∈ universalNewlines t) :
    c ∈ t ∨ c = newline := by
  fun_induction universalNewlines t with
  | case1 => cases h
  | case2 => exact .inr (List.mem_singleton.mp h)
  | case3 rest ih =>
    rcases List.mem_cons.mp h with rfl | h
    · exact .inr rfl
    · exact (ih h).imp_left fun h => by simp [h]
  | case4 d rest _ ih =>
    rcases List.mem_cons.mp h with rfl | h
    · exact .inr rfl
    · exact (ih h).imp_left fun h => List.mem_cons_of_mem _ h
  | case5 d rest _ ih =>
    rcases List.mem_cons.mp h with rfl | h
    · exact .inl List.mem_cons_self
    · exact (ih h).imp_left fun h => List.mem_cons_of_mem _ h

theorem return_notMem_universalNewlines (t : Text) : (0x0D : CodePoint) ∉ universalNewlines t := by
  have hne : (0x0D : CodePoint) ≠ newline := by decide
  fun_induction universalNewlines t with
  | case1 => exact List.not_mem_nil
  | case2 => simpa using hne
  | case3 rest ih => simpa [hne] using ih
  | case4 d rest _ ih => simpa [hne] using ih
  | case5 c rest hc ih => simpa [Ne.symm hc] using ih

theorem newline_notMem_of_mem_lines {t l : Text} (hl : l ∈ lines t) : newline ∉ l := by
  induction t generalizing l with
  | nil => cases hl
  | cons c t ih =>
    rw [lines] at hl
    split at hl
    · rcases List.mem_cons.mp hl with rfl | hl
      · exact List.not_mem_nil
      · exact ih hl
    · next hc =>
      split at hl
      · obtain rfl := List.mem_singleton.mp hl
        simpa using Ne.symm hc
      · next m ms hms =>
        rw [hms] at ih
        rcases List.mem_cons.mp hl with rfl | hl
        · rw [List.mem_cons, not_or]
          exact ⟨Ne.symm hc, ih List.mem_cons_self⟩
        · exact ih (List.mem_cons_of_mem _ hl)

theorem mem_of_mem_lines {t l : Text} {c : CodePoint} (hl : l ∈ lines t) (hc : c ∈ l) : c ∈ t := by
  induction t generalizing l with
  | nil => cases hl
  | cons d t ih =>
    rw [lines] at hl
    split at hl
    · rcases List.mem_cons.mp hl with rfl | hl
      · cases hc
      · exact List.mem_cons_of_mem _ (ih hl hc)
    · split at hl
      · obtain rfl := List.mem_singleton.mp hl
        exact List.mem_singleton.mp hc ▸ List.mem_cons_self
      · next m ms hms =>
        rw [hms] at ih
        rcases List.mem_cons.mp hl with rfl | hl
        · rcases List.mem_cons.mp hc with rfl | hc
          · exact List.mem_cons_self
          · exact List.mem_cons_of_mem _ (ih List.mem_cons_self hc)
        · exact List.mem_cons_of_mem _ (ih (List.mem_cons_of_mem _ hl) hc)

theorem lines_of_notMem (h : newline ∉ t) : lines t = if t = [] then [] else [t] := by
  induction t with
  | nil => rfl
  | cons c t ih =>
    rw [List.mem_cons, not_or] at h
    rw [lines, if_neg (Ne.symm h.1), ih h.2]
    by_cases ht : t = []
    · simp [ht]
    · simp [ht]

theorem lines_append {l : Text} (h : newline ∉ l) (t : Text) :
    lines (l ++ newline :: t) = l :: lines t := by
  induction l with
  | nil => simp [lines]
  | cons c l ih =>
    rw [List.mem_cons, not_or] at h
    rw [List.cons_append, lines, if_neg (Ne.symm h.1), ih h.2]

theorem lines_unlines {ls : List Text} (hls : ∀ l ∈ ls, newline ∉ l)
    (ht : newline ∉ t) : lines (unlines ls ++ t) = ls ++ if t = [] then [] else [t] := by
  induction ls with
  | nil => exact lines_of_notMem ht
  | cons l ls ih =>
    rw [unlines_cons, List.append_assoc, List.cons_append, lines_append (hls l (by simp)),
      ih fun l hl => hls l (by simp [hl]), List.cons_append]

theorem rpartition_of_notMem (h : newline ∉ t) : rpartition t = ([], [], t) := by
  induction t with
  | nil => rfl
  | cons c t ih =>
    rw [List.mem_cons, not_or] at h
    rw [rpartition, ih h.2]
    simp only [if_neg (Ne.symm h.1)]

theorem rpartition_append (p : Text) (h : newline ∉ t) :
    rpartition (p ++ newline :: t) = (p, [newline], t) := by
  induction p with
  | nil =>
    rw [List.nil_append, rpartition, rpartition_of_notMem h]
    simp
  | cons c p ih => rw [List.cons_append, rpartition, ih]

theorem rpartition_wholeLines {keep t : Text} (hkeep : WholeLines keep) (ht : newline ∉ t) :
    ∃ head sep, rpartition (keep ++ t) = (head, sep, t) ∧ head ++ sep = keep := by
  rcases hkeep with rfl | hlast
  · exact ⟨[], [], rpartition_of_notMem ht, rfl⟩
  · obtain ⟨p, rfl⟩ := List.getLast?_eq_some_iff.mp hlast
    refine ⟨p, [newline], ?_, rfl⟩
    rw [List.append_assoc]
    exact rpartition_append p ht

end VidbyteSdk.Lib
