import VidbyteSdk.Tools.Calculator
import Mathlib.Tactic.Linarith

/-!
# What a calculator expression can cost

Every power that a walk executes on integers is bounded before it is computed, in evaluations that raise as well, and no
string is repeated or formatted. In an evaluation that does not raise, what an operator or a call produces has at most
`MAX_PRINT_INT_BITS` bits, and a sign keeps the size of its operand, which can be a literal of any size.
-/

namespace VidbyteSdk.Tools

open Lib

variable {F C : Type}

def Expression.literalBits : Expression F → ℕ
  | .int n => bitLength n
  | .float _ | .str _ | .other _ => 0
  | .unary _ operand => operand.literalBits
  | .binary _ left right => left.literalBits + right.literalBits
  | .call _ args => literalBitsOfArgs args
where
  literalBitsOfArgs : List (Expression F) → ℕ
    | [] => 0
    | arg :: args => arg.literalBits + literalBitsOfArgs args

namespace Operation

def power? : Operation F C → Option (ℤ × ℤ)
  | .operator .pow (.int base) (.int exponent) => some (base, exponent)
  | .call .pow (.int base :: .int exponent :: _) => some (base, exponent)
  | .call .round (_ :: .int digits :: _) => some (10, digits)
  | _ => none

def altersText : Operation F C → Bool
  | .operator op left right => (left.isStr || right.isStr) && !(op = .add && left.isStr && right.isStr)
  | _ => false

theorem operator_ne_sign {op : BinaryOperator} {left right : PyValue F C} (sign : UnaryOperator)
    (operand : PyValue F C) : operator op left right ≠ .sign sign operand :=
  fun h => nomatch h

theorem call_ne_sign {function : CalculatorFunction} {args : List (PyValue F C)} (sign : UnaryOperator)
    (operand : PyValue F C) : call function args ≠ .sign sign operand :=
  fun h => nomatch h

/-- What the checks in front of an operation promise. -/
structure Permitted (operation : Operation F C) : Prop where
  power : ∀ base exponent, operation.power? = some (base, exponent) →
    exponent.natAbs ≤ MAX_PRINT_EXPONENT ∧ bitLength (base ^ exponent.natAbs) ≤ MAX_PRINT_INT_BITS
  text : operation.altersText = false

end Operation

/-- An integer has at most so many bits. -/
def PyValue.Within (bits : ℕ) (value : PyValue F C) : Prop := ∀ n, value = .int n → bitLength n ≤ bits

/-- An operation that gave a value: an operator or a call one within the bound, a sign one as long as its operand. -/
def Executed.Yielded (bits : ℕ) (executed : Executed F C) : Prop :=
  ∃ value, executed.outcome = .ok value ∧ value.Within bits ∧
    match executed.operation with
    | .sign _ operand => ∀ n, value = .int n → ∃ m, operand = .int m ∧ bitLength n = bitLength m
    | _ => value.Within MAX_PRINT_INT_BITS

/-! ### The checks -/

variable (floats : Floats F C) (walker : Walker)

theorem power_of_requirePower {base exponent : ℤ}
    (h : requirePower floats walker (.inl base) (.inl exponent) = .ok ()) :
    exponent.natAbs ≤ MAX_PRINT_EXPONENT ∧ bitLength (base ^ exponent.natAbs) ≤ MAX_PRINT_INT_BITS := by
  unfold requirePower at h
  dsimp only at h
  split at h
  · cases h
  · next hexponent =>
    split at h
    · cases h
    · next hresult =>
      rw [decide_eq_true_eq, Nat.not_lt] at hexponent hresult
      refine ⟨hexponent, bitLength_pow_le ?_ (by decide)⟩
      exact hresult

theorem power_of_requireOperands {left right : PyValue F C} {base exponent : ℤ} (hleft : left = .int base)
    (hright : right = .int exponent) (h : requireOperands floats walker .pow left right = .ok ()) :
    exponent.natAbs ≤ MAX_PRINT_EXPONENT ∧ bitLength (base ^ exponent.natAbs) ≤ MAX_PRINT_INT_BITS := by
  subst hleft hright
  exact power_of_requirePower floats walker h

theorem permitted_operator {op : BinaryOperator} {left right : PyValue F C}
    (h : requireOperands floats walker op left right = .ok ()) : (Operation.operator op left right).Permitted := by
  constructor
  · intro base exponent hpower
    unfold Operation.power? at hpower
    split at hpower
    · next hoperation =>
      obtain ⟨rfl, rfl⟩ := Prod.mk.inj (Option.some.inj hpower)
      cases hoperation
      exact power_of_requireOperands floats walker rfl rfl h
    · next hoperation => cases hoperation
    · next hoperation => cases hoperation
    · cases hpower
  · unfold requireOperands at h
    rw [Operation.altersText]
    split at h
    · next hconcat => rw [hconcat, Bool.not_true, Bool.and_false]
    · cases left <;> cases right <;> first | rfl | cases h

theorem permitted_call {function : CalculatorFunction} {args : List (PyValue F C)}
    (h : requireCall floats walker function args = .ok ()) : (Operation.call function args).Permitted := by
  refine ⟨?_, rfl⟩
  intro base exponent hpower
  unfold Operation.power? at hpower
  split at hpower
  · next hoperation => cases hoperation
  · next hoperation =>
    obtain ⟨rfl, rfl⟩ := Prod.mk.inj (Option.some.inj hpower)
    cases hoperation
    exact power_of_requireOperands floats walker rfl rfl h
  · next hoperation =>
    obtain ⟨rfl, rfl⟩ := Prod.mk.inj (Option.some.inj hpower)
    cases hoperation
    exact power_of_requireOperands floats walker rfl rfl h
  · cases hpower

theorem permitted_sign (op : UnaryOperator) (operand : PyValue F C) : (Operation.sign op operand).Permitted :=
  ⟨fun _ _ hpower => (nomatch hpower), rfl⟩

theorem within_of_bounded {value value' : PyValue F C} (h : bounded walker value = .ok value') :
    value' = value ∧ value.Within MAX_PRINT_INT_BITS := by
  unfold bounded at h
  dsimp only at h
  split at h
  · split at h
    · cases h
    · next hbits =>
      refine ⟨(Except.ok.inj h).symm, fun n hn => ?_⟩
      cases hn
      exact Nat.not_lt.mp hbits
  · next hint =>
    exact ⟨(Except.ok.inj h).symm, fun n hn => absurd hn (hint n)⟩

theorem applySign_int {op : UnaryOperator} {operand : PyValue F C} {n : ℤ}
    (h : applySign floats op operand = .ok (.int n)) : ∃ m, operand = .int m ∧ bitLength n = bitLength m := by
  cases op <;> cases operand <;> cases h
  · exact ⟨n, rfl, rfl⟩
  · next m => exact ⟨m, rfl, bitLength_neg m⟩

/-! ### Walks -/

def Safe (log : List (Executed F C)) : Prop := ∀ executed ∈ log, executed.operation.Permitted

/-- Every operation executed so far gave a value. -/
def AllYielded (bits : ℕ) (log : List (Executed F C)) : Prop := ∀ executed ∈ log, executed.Yielded bits

theorem Safe.concat {log : List (Executed F C)} (h : Safe log) {executed : Executed F C}
    (hpermitted : executed.operation.Permitted) : Safe (log ++ [executed]) := by
  intro other hother
  rcases List.mem_append.mp hother with hother | hother
  · exact h other hother
  · exact List.mem_singleton.mp hother ▸ hpermitted

variable {bits : ℕ}

theorem AllYielded.concat {log : List (Executed F C)} (h : AllYielded bits log) {executed : Executed F C}
    (hyielded : executed.Yielded bits) : AllYielded bits (log ++ [executed]) := by
  intro other hother
  rcases List.mem_append.mp hother with hother | hother
  · exact h other hother
  · exact List.mem_singleton.mp hother ▸ hyielded

variable {floats walker}

theorem wp_execute {operation : Operation F C} {Q : PyValue F C → List (Executed F C) → Prop}
    {log : List (Executed F C)} (hsafe : Safe log) (hpermitted : operation.Permitted)
    (hvalue : ∀ value, operation.apply floats = .ok value →
      Q value (log ++ [⟨operation, operation.apply floats⟩])) :
    Prog.wp Safe (execute floats operation) Q (fun _ => Safe) log := by
  have hnext : Safe (log ++ [⟨operation, operation.apply floats⟩]) := hsafe.concat hpermitted
  rw [execute, Prog.wp_bind, Prog.wp_modify, Prog.wp_ofExcept]
  exact ⟨hnext, hvalue, fun _ _ => hnext⟩

/-- What a node leaves behind that does not raise. -/
def Evaluated (bits : ℕ) (value : PyValue F C) (log : List (Executed F C)) : Prop :=
  value.Within bits ∧ Safe log ∧ AllYielded bits log

theorem wp_execute_bounded (hbits : MAX_PRINT_INT_BITS ≤ bits) {operation : Operation F C}
    (hsign : ∀ op operand, operation ≠ .sign op operand) {log : List (Executed F C)} (hsafe : Safe log)
    (hyielded : AllYielded bits log) (hpermitted : operation.Permitted) :
    Prog.wp Safe (do
      let value ← execute floats operation
      Prog.ofExcept (bounded walker value)) (Evaluated bits) (fun _ => Safe) log := by
  rw [Prog.wp_bind]
  refine wp_execute hsafe hpermitted fun value hvalue => ?_
  rw [Prog.wp_ofExcept]
  refine ⟨fun result hresult => ?_, fun _ _ => hsafe.concat hpermitted⟩
  obtain ⟨rfl, hwithin⟩ := within_of_bounded walker hresult
  have hwithin' : result.Within bits := fun n hn => Nat.le_trans (hwithin n hn) hbits
  refine ⟨hwithin', hsafe.concat hpermitted, hyielded.concat ⟨result, hvalue, hwithin', ?_⟩⟩
  cases operation with
  | sign op operand => exact absurd rfl (hsign op operand)
  | operator => exact hwithin
  | call => exact hwithin

theorem walk_call (function : Option CalculatorFunction) (args : List (Expression F)) :
    (∃ error, walk floats walker (.call function args) = Prog.throw error) ∨
      ∃ called, walk floats walker (.call function args) = (do
        let values ← walkArgs floats walker args
        Prog.ofExcept (requireCall floats walker called values)
        let value ← execute floats (.call called values)
        Prog.ofExcept (bounded walker value)) := by
  rw [walk.eq_def]
  cases walker with
  | safePrint => exact Or.inl ⟨_, rfl⟩
  | calculator =>
    cases function with
    | none => exact Or.inl ⟨_, rfl⟩
    | some called => exact Or.inr ⟨called, rfl⟩

mutual

theorem wp_walk (hbits : MAX_PRINT_INT_BITS ≤ bits) (e : Expression F) (hliterals : e.literalBits ≤ bits)
    {log : List (Executed F C)} (hsafe : Safe log) (hyielded : AllYielded bits log) :
    Prog.wp Safe (walk floats walker e) (Evaluated bits) (fun _ => Safe) log := by
  cases e with
  | int n =>
    rw [walk, Prog.wp_pure]
    refine ⟨fun m hm => ?_, hsafe, hyielded⟩
    cases hm
    exact hliterals
  | float x =>
    rw [walk, Prog.wp_pure]
    exact ⟨fun m hm => (nomatch hm), hsafe, hyielded⟩
  | str text =>
    rw [walk, Prog.wp_pure]
    exact ⟨fun m hm => (nomatch hm), hsafe, hyielded⟩
  | unary op operand =>
    rw [walk, Prog.wp_bind]
    refine Prog.wp_post (wp_walk hbits operand hliterals hsafe hyielded) ?_ fun _ _ h => h
    rintro value log ⟨hwithin, hsafe, hyielded⟩
    rw [Prog.wp_bind, Prog.wp_ofExcept]
    refine ⟨fun _ _ => ?_, fun _ _ => hsafe⟩
    refine wp_execute hsafe (permitted_sign op value) fun result hresult => ?_
    have hsame : ∀ n, result = .int n → ∃ m, value = .int m ∧ bitLength n = bitLength m := by
      rintro n rfl
      exact applySign_int floats hresult
    have hwithin' : result.Within bits := by
      intro n hn
      obtain ⟨m, hm, hlength⟩ := hsame n hn
      exact hlength ▸ hwithin m hm
    exact ⟨hwithin', hsafe.concat (permitted_sign op value), hyielded.concat ⟨result, hresult, hwithin', hsame⟩⟩
  | binary op left right =>
    rw [walk, Prog.wp_bind]
    refine Prog.wp_post (wp_walk hbits left (Nat.le_trans (Nat.le_add_right _ _) hliterals) hsafe hyielded) ?_
      fun _ _ h => h
    rintro leftValue log ⟨-, hsafe, hyielded⟩
    rw [Prog.wp_bind]
    refine Prog.wp_post (wp_walk hbits right (Nat.le_trans (Nat.le_add_left _ _) hliterals) hsafe hyielded) ?_
      fun _ _ h => h
    rintro rightValue log ⟨-, hsafe, hyielded⟩
    rw [Prog.wp_bind, Prog.wp_ofExcept]
    refine ⟨fun _ hrequired => ?_, fun _ _ => hsafe⟩
    exact wp_execute_bounded hbits Operation.operator_ne_sign hsafe hyielded
      (permitted_operator floats walker hrequired)
  | call function args =>
    rcases walk_call function args with ⟨error, herror⟩ | ⟨called, hcalled⟩
    · rw [herror, Prog.wp_throw]
      exact hsafe
    · rw [hcalled, Prog.wp_bind]
      refine Prog.wp_post (wp_walkArgs hbits args hliterals hsafe hyielded) ?_ fun _ _ h => h
      rintro values log ⟨hsafe, hyielded⟩
      rw [Prog.wp_bind, Prog.wp_ofExcept]
      refine ⟨fun _ hrequired => ?_, fun _ _ => hsafe⟩
      exact wp_execute_bounded hbits Operation.call_ne_sign hsafe hyielded (permitted_call floats walker hrequired)
  | other typeName =>
    rw [walk, Prog.wp_throw]
    exact hsafe

theorem wp_walkArgs (hbits : MAX_PRINT_INT_BITS ≤ bits) (args : List (Expression F))
    (hliterals : Expression.literalBits.literalBitsOfArgs args ≤ bits) {log : List (Executed F C)} (hsafe : Safe log)
    (hyielded : AllYielded bits log) :
    Prog.wp Safe (walkArgs floats walker args) (fun _ log => Safe log ∧ AllYielded bits log) (fun _ => Safe) log := by
  cases args with
  | nil =>
    rw [walkArgs, Prog.wp_pure]
    exact ⟨hsafe, hyielded⟩
  | cons arg args =>
    rw [walkArgs, Prog.wp_bind]
    refine Prog.wp_post (wp_walk hbits arg (Nat.le_trans (Nat.le_add_right _ _) hliterals) hsafe hyielded) ?_
      fun _ _ h => h
    rintro value log ⟨-, hsafe, hyielded⟩
    rw [Prog.wp_bind]
    refine Prog.wp_post (wp_walkArgs hbits args (Nat.le_trans (Nat.le_add_left _ _) hliterals) hsafe hyielded) ?_
      fun _ _ h => h
    rintro values log hlog
    rw [Prog.wp_pure]
    exact hlog

end

def noFloats : Floats Empty Empty where
  neg := Empty.elim
  operator := fun _ _ _ => .error .other
  exceeds := fun x _ => x.elim
  scaledExceeds := fun _ x _ => x.elim
  less := fun _ _ => false
  abs := Empty.elim
  absComplex := fun z => z.elim
  round := fun x => x.elim
  roundDigits := fun x _ => x.elim
  format := fun _ _ => .error .other

theorem walk_negated_int (floats : Floats F C) (walker : Walker) (n : ℤ) :
    (walk floats walker (.unary .uSub (.int n)) []).result = .ok (.int (-n)) ∧
      (walk floats walker (.unary .uSub (.int n)) []).final = [⟨.sign .uSub (.int n), .ok (.int (-n))⟩] :=
  ⟨rfl, rfl⟩

end VidbyteSdk.Tools
