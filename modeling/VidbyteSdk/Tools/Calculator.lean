import VidbyteSdk.Lib.BitLength
import VidbyteSdk.Lib.Json
import VidbyteSdk.Lib.Prog
import Mathlib.Data.Int.GCD

/-!
# The calculator

The expression walkers of `tools/builtins/code_execution.py` and `tools/builtins/calculator.py`. A walk is a program
over the log of the operations it executes, each with its outcome. Floating point, complex numbers and the `%` of a
string are parameters; integers and strings are concrete.
-/

namespace VidbyteSdk.Tools

open Lib

def MAX_PRINT_EXPONENT : ℕ := 128

def MAX_PRINT_INT_BITS : ℕ := 4096

inductive UnaryOperator
  | uAdd
  | uSub
  deriving DecidableEq

inductive BinaryOperator
  | add
  | sub
  | mult
  | div
  | floorDiv
  | mod
  | pow
  deriving DecidableEq

/-- `_CALCULATOR_FUNCTIONS` -/
inductive CalculatorFunction
  | abs
  | round
  | min
  | max
  | pow
  deriving DecidableEq

/-- An expression; a call has no function where it names none of the five or has keywords, and any other node is known
by the name of its type. -/
inductive Expression (F : Type)
  | int (n : ℤ)
  | float (x : F)
  | str (text : Text)
  | unary (op : UnaryOperator) (operand : Expression F)
  | binary (op : BinaryOperator) (left right : Expression F)
  | call (function : Option CalculatorFunction) (args : List (Expression F))
  | other (typeName : String)

/-- What a node evaluates to; complex numbers come out of powers of negative numbers. -/
inductive PyValue (F C : Type)
  | int (n : ℤ)
  | float (x : F)
  | str (text : Text)
  | complex (z : C)

inductive WalkError
  | toolExecution (message : String)
  | typeError
  | valueError
  | zeroDivisionError
  | other
  deriving DecidableEq

/-- The arithmetic that is not on integers. `operator` is of operands that are not both integers, of the true division
of integers and of the negative powers of an integer. -/
structure Floats (F C : Type) where
  neg : F → F
  operator : BinaryOperator → PyValue F C → PyValue F C → Except WalkError (F ⊕ C)
  /-- `abs(x) > n` -/
  exceeds : F → ℕ → Bool
  /-- `bits * abs(x) > n` -/
  scaledExceeds : ℕ → F → ℕ → Bool
  /-- `left < right`, where one of them is a float. -/
  less : ℤ ⊕ F → ℤ ⊕ F → Bool
  abs : F → F
  absComplex : C → Except WalkError F
  round : F → Except WalkError ℤ
  roundDigits : F → ℤ → Except WalkError F
  format : Text → PyValue F C → Except WalkError Text

namespace PyValue

variable {F C : Type}

def ofResult : F ⊕ C → PyValue F C
  | .inl x => .float x
  | .inr z => .complex z

def number? : PyValue F C → Option (ℤ ⊕ F)
  | .int n => some (.inl n)
  | .float x => some (.inr x)
  | _ => none

def isStr : PyValue F C → Bool
  | .str _ => true
  | _ => false

end PyValue

section Operations

variable {F C : Type} (floats : Floats F C)

/-- `_UNARY_OPERATORS[op](operand)` -/
def applySign : UnaryOperator → PyValue F C → Except WalkError (PyValue F C)
  | .uAdd, .int n => .ok (.int n)
  | .uAdd, .float x => .ok (.float x)
  | .uSub, .int n => .ok (.int (-n))
  | .uSub, .float x => .ok (.float (floats.neg x))
  | _, .complex z => .ok (.complex z)
  | _, .str _ => .error .typeError

def applyToInts (op : BinaryOperator) (a b : ℤ) : Except WalkError (PyValue F C) :=
  match op with
  | .add => .ok (.int (a + b))
  | .sub => .ok (.int (a - b))
  | .mult => .ok (.int (a * b))
  | .div => (floats.operator .div (.int a) (.int b)).map .ofResult
  | .floorDiv => if b = 0 then .error .zeroDivisionError else .ok (.int (a.fdiv b))
  | .mod => if b = 0 then .error .zeroDivisionError else .ok (.int (a.fmod b))
  | .pow => if 0 ≤ b then .ok (.int (a ^ b.toNat)) else (floats.operator .pow (.int a) (.int b)).map .ofResult

/-- A string `n` times. -/
def repeated (text : Text) (n : ℤ) : Text := (List.replicate n.toNat text).flatten

/-- `_BINARY_OPERATORS[op](left, right)` -/
def applyOperator (op : BinaryOperator) (left right : PyValue F C) : Except WalkError (PyValue F C) :=
  match left, right with
  | .int a, .int b => applyToInts floats op a b
  | .str s, .str t =>
    match op with
    | .add => .ok (.str (s ++ t))
    | .mod => (floats.format s (.str t)).map .str
    | _ => .error .typeError
  | .str s, right =>
    match op, right with
    | .mult, .int n => .ok (.str (repeated s n))
    | .mod, _ => (floats.format s right).map .str
    | _, _ => .error .typeError
  | left, .str t =>
    match op, left with
    | .mult, .int n => .ok (.str (repeated t n))
    | _, _ => .error .typeError
  | left, right => (floats.operator op left right).map .ofResult

/-- `left < right` -/
def less : PyValue F C → PyValue F C → Except WalkError Bool
  | .str s, .str t => .ok (decide (s < t))
  | .int a, .int b => .ok (decide (a < b))
  | left, right =>
    match left.number?, right.number? with
    | some x, some y => .ok (floats.less x y)
    | _, _ => .error .typeError

/-- `min` or `max` of some values, the first of those that are least or greatest. -/
def extremum (least : Bool) : PyValue F C → List (PyValue F C) → Except WalkError (PyValue F C)
  | best, [] => .ok best
  | best, item :: items => do
    let better ← if least then less floats item best else less floats best item
    extremum least (if better then item else best) items

/-- `min(*args)` or `max(*args)`; a single string is the sequence of its characters. -/
def applyExtremum (least : Bool) : List (PyValue F C) → Except WalkError (PyValue F C)
  | [] => .error .typeError
  | [.str []] => .error .valueError
  | [.str (c :: cs)] => extremum floats least (.str [c]) (cs.map fun c => .str [c])
  | [_] => .error .typeError
  | value :: values => extremum floats least value values

/-- `round(x, n)`: half to even, at a power of ten. -/
def roundInt (x n : ℤ) : ℤ :=
  if 0 ≤ n then x
  else
    let unit := 10 ^ n.natAbs
    let rest := x.fmod unit
    if unit < 2 * rest ∨ 2 * rest = unit ∧ (x.fdiv unit).fmod 2 = 1 then x - rest + unit else x - rest

/-- `pow(a, b, c)`; a negative exponent needs an inverse modulo `c`. -/
def powMod (a b c : ℤ) : Except WalkError ℤ :=
  if c = 0 then .error .valueError
  else if 0 ≤ b then .ok ((a ^ b.toNat).fmod c)
  else if Int.gcd a c = 1 then .ok ((Int.gcdA a c ^ b.natAbs).fmod c)
  else .error .valueError

/-- `function(*args)` -/
def applyFunction (function : CalculatorFunction) (args : List (PyValue F C)) : Except WalkError (PyValue F C) :=
  match function, args with
  | .abs, [.int n] => .ok (.int n.natAbs)
  | .abs, [.float x] => .ok (.float (floats.abs x))
  | .abs, [.complex z] => (floats.absComplex z).map .float
  | .round, [.int n] => .ok (.int n)
  | .round, [.float x] => (floats.round x).map .int
  | .round, [.int n, .int digits] => .ok (.int (roundInt n digits))
  | .round, [.float x, .int digits] => (floats.roundDigits x digits).map .float
  | .min, args => applyExtremum floats true args
  | .max, args => applyExtremum floats false args
  | .pow, [base, exponent] => applyOperator floats .pow base exponent
  | .pow, [.int a, .int b, .int c] => (powMod a b c).map .int
  | _, _ => .error .typeError

end Operations

/-! ### Walks -/

inductive Operation (F C : Type)
  | sign (op : UnaryOperator) (operand : PyValue F C)
  | operator (op : BinaryOperator) (left right : PyValue F C)
  | call (function : CalculatorFunction) (args : List (PyValue F C))

structure Executed (F C : Type) where
  operation : Operation F C
  outcome : Except WalkError (PyValue F C)

/-- Which of the two classes walks: `CalculatorExpression`, or `SafePrintExpression`, which knows no calls. -/
inductive Walker
  | safePrint
  | calculator
  deriving DecidableEq

/-- `BOUND_NAME` -/
def Walker.boundName : Walker → String
  | .safePrint => "simulated runtime"
  | .calculator => "calculator"

section Walk

variable {F C : Type} (floats : Floats F C) (walker : Walker)

def Operation.apply : Operation F C → Except WalkError (PyValue F C)
  | .sign op operand => applySign floats op operand
  | .operator op left right => applyOperator floats op left right
  | .call function args => applyFunction floats function args

abbrev Walk (F C α : Type) := Prog (List (Executed F C)) WalkError α

def execute (operation : Operation F C) : Walk F C (PyValue F C) := do
  Prog.modify (· ++ [⟨operation, operation.apply floats⟩])
  Prog.ofExcept (operation.apply floats)

/-- `_require_number` -/
def requireNumber (value : PyValue F C) : Except WalkError Unit :=
  if value.number?.isSome then .ok () else .error (.toolExecution "unary signs apply to numbers only")

def requirePower (left right : ℤ ⊕ F) : Except WalkError Unit :=
  let bound := walker.boundName
  let exponentExceeds :=
    match right with
    | .inl n => decide (MAX_PRINT_EXPONENT < n.natAbs)
    | .inr x => floats.exceeds x MAX_PRINT_EXPONENT
  let resultExceeds :=
    match left, right with
    | .inl a, .inl n => decide (MAX_PRINT_INT_BITS < bitLength a.natAbs * n.natAbs)
    | .inl a, .inr x => floats.scaledExceeds (bitLength a.natAbs) x MAX_PRINT_INT_BITS
    | .inr _, _ => false
  if exponentExceeds then .error (.toolExecution s!"exponent exceeds the {bound} bound")
  else if resultExceeds then .error (.toolExecution s!"power result exceeds the {bound} bound")
  else .ok ()

/-- `_require_operands` -/
def requireOperands (op : BinaryOperator) (left right : PyValue F C) : Except WalkError Unit :=
  if op = .add && left.isStr && right.isStr then .ok ()
  else
    match left.number?, right.number? with
    | some x, some y => if op = .pow then requirePower floats walker x y else .ok ()
    | _, _ => .error (.toolExecution "arithmetic applies to numbers only")

/-- `_bounded` -/
def bounded (value : PyValue F C) : Except WalkError (PyValue F C) :=
  let bound := walker.boundName
  match value with
  | .int n =>
    if MAX_PRINT_INT_BITS < bitLength n then .error (.toolExecution s!"integer result exceeds the {bound} bound")
    else .ok value
  | _ => .ok value

/-- The check of a call's arguments: `pow(a, b)` is a power, and `round(x, n)` computes one of ten. -/
def requireCall (function : CalculatorFunction) (args : List (PyValue F C)) : Except WalkError Unit :=
  match function, args with
  | .pow, base :: exponent :: _ => requireOperands floats walker .pow base exponent
  | .round, _ :: digits :: _ => requireOperands floats walker .pow (.int 10) digits
  | _, _ => .ok ()

mutual

/-- `_walk` -/
def walk : Expression F → Walk F C (PyValue F C)
  | .int n => pure (.int n)
  | .float x => pure (.float x)
  | .str text => pure (.str text)
  | .unary op operand => do
    let value ← walk operand
    Prog.ofExcept (requireNumber value)
    execute floats (.sign op value)
  | .binary op left right => do
    let leftValue ← walk left
    let rightValue ← walk right
    Prog.ofExcept (requireOperands floats walker op leftValue rightValue)
    let value ← execute floats (.operator op leftValue rightValue)
    Prog.ofExcept (bounded walker value)
  | .call function args =>
    match walker, function with
    | .safePrint, _ => Prog.throw (.toolExecution "unsupported expression node Call")
    | .calculator, none =>
      Prog.throw (.toolExecution "only positional calls to abs, round, min, max, and pow are supported")
    | .calculator, some function => do
      let values ← walkArgs args
      Prog.ofExcept (requireCall floats walker function values)
      let value ← execute floats (.call function values)
      Prog.ofExcept (bounded walker value)
  | .other typeName => Prog.throw (.toolExecution s!"unsupported expression node {typeName}")

def walkArgs : List (Expression F) → Walk F C (List (PyValue F C))
  | [] => pure []
  | arg :: args => do
    let value ← walk arg
    let values ← walkArgs args
    pure (value :: values)

end

end Walk

end VidbyteSdk.Tools
