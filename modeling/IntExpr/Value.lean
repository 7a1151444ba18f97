import IntExpr.Config
import IntExpr.Decimal
import IntExpr.Operator

/-!
# Value — checked integer arithmetic

A value is an integer or a failure, and a failure of an operand is the result of the operation, that
of the left operand first. Integers of a result lie in the configured range, or there is an
overflow. Division rounds toward zero, and a remainder has the sign of the dividend.

A failure names its operands. Where one of them has too many digits to be written, there is no
value but a `LimitError`.
-/

namespace IntExpr

inductive Failure where
  /-- A literal that is no run of digits, or too great. -/
  | illegalLiteral (text : String)
  | divisionByZero (x : Int)
  | moduloOfZero (x : Int)
  | negativeExponent (x y : Int)
  | overflow (x : Int) (op : BinOp) (y : Int)
  | illegalOperator (x : Int) (symbol : String) (y : Int)
  /-- A failure that is known by its message alone. -/
  | reported (message : String)
  deriving DecidableEq, Repr

namespace Failure

def message : Failure → String
  | .illegalLiteral text => s!"illegal literal '{text}'"
  | .divisionByZero x => s!"division by zero: '{x} / 0'"
  | .moduloOfZero x => s!"modulo of zero: '{x} % 0'"
  | .negativeExponent x y => s!"negative exponent: '{x} ^ {y}'"
  | .overflow x op y => s!"integer overflow: '{x} {op.symbol} {y}'"
  | .illegalOperator x symbol y => s!"illegal op: '{x} {symbol} {y}'"
  | .reported message => message

/-- The integers that the message names. -/
def integers : Failure → List Int
  | .divisionByZero x | .moduloOfZero x => [x]
  | .negativeExponent x y | .overflow x _ y | .illegalOperator x _ y => [x, y]
  | .illegalLiteral _ | .reported _ => []

end Failure

/-- The outcome of a computation. -/
inductive Value where
  | int (v : Int)
  | failure (f : Failure)
  deriving DecidableEq, Repr

namespace Value

def text : Value → Except Decimal.LimitError String
  | .int v => Decimal.write v
  | .failure f => .ok f.message

/-- The value of a failure, if every integer that it names can be written. -/
def fail (f : Failure) : Except Decimal.LimitError Value :=
  if ∀ v ∈ f.integers, Decimal.Writable v then .ok (.failure f) else .error .writing

def ofLiteral (c : Config) (text : String) : Except Decimal.LimitError Value :=
  if Decimal.IsNumeral text.toList then do
    let n ← Decimal.read text.toList
    if c.InRange n then return .int n else fail (.illegalLiteral text)
  else fail (.illegalLiteral text)

/-! ### Operations on integers -/

def checked (c : Config) (x : Int) (op : BinOp) (y r : Int) : Except Decimal.LimitError Value :=
  if c.InRange r then .ok (.int r) else fail (.overflow x op y)

/-- `product` multiplied `n` times by `x`, unless a product on the way leaves the range. -/
def multiply (c : Config) (x : Int) : Nat → Int → Option Int
  | 0, product => some product
  | n + 1, product =>
    if c.InRange (product * x) then multiply c x n (product * x) else none

/-- `x` to the power `n`, unless a product on the way leaves the range. The powers of 0, 1 and -1
take no multiplication. -/
def power (c : Config) (x : Int) (n : Nat) : Option Int :=
  if x = 0 ∨ x = 1 then some (if n = 0 then 1 else x)
  else if x = -1 then some (if n % 2 = 0 then 1 else -1)
  else multiply c x n 1

/-- The quotient of the absolute values, with the sign of `x / y`. -/
def quotient (x y : Int) : Int :=
  let q : Int := (x.natAbs / y.natAbs : Nat)
  if decide (x < 0) = decide (y < 0) then q else -q

def operate (c : Config) (op : BinOp) (x y : Int) : Except Decimal.LimitError Value :=
  match op with
  | .add => checked c x .add y (x + y)
  | .sub => checked c x .sub y (x - y)
  | .mul => checked c x .mul y (x * y)
  | .div => if y = 0 then fail (.divisionByZero x) else checked c x .div y (quotient x y)
  | .mod => if y = 0 then fail (.moduloOfZero x) else checked c x .mod y (x - y * quotient x y)
  | .pow =>
    if y < 0 then fail (.negativeExponent x y)
    else match power c x y.toNat with
      | some r => .ok (.int r)
      | none => fail (.overflow x .pow y)

/-! ### Operations on values -/

def lift (f : Int → Int → Except Decimal.LimitError Value) :
    Value → Value → Except Decimal.LimitError Value
  | .failure e, _ => .ok (.failure e)
  | .int _, .failure e => .ok (.failure e)
  | .int x, .int y => f x y

def apply (c : Config) (op : BinOp) : Value → Value → Except Decimal.LimitError Value :=
  lift (operate c op)

/-- The value of the operation that a text stands for. -/
def applySymbol (c : Config) (symbol : String) : Value → Value → Except Decimal.LimitError Value :=
  lift fun x y =>
    match BinOp.ofSymbol? symbol with
    | some op => operate c op x y
    | none => fail (.illegalOperator x symbol y)

/-- Division rounds toward zero. -/
theorem quotient_eq_tdiv (x y : Int) : quotient x y = x.tdiv y := by
  have hneg (n : Nat) : decide (Int.negSucc n < 0) = true := decide_eq_true (Int.negSucc_lt_zero n)
  have hpos (n : Nat) : decide (Int.ofNat n < 0) = false :=
    decide_eq_false (Int.not_lt.mpr (Int.natCast_nonneg n))
  unfold quotient
  cases x with
  | ofNat m =>
    cases y with
    | ofNat n => rw [hpos, hpos]; rfl
    | negSucc n => rw [hpos, hneg]; rfl
  | negSucc m =>
    cases y with
    | ofNat n => rw [hneg, hpos]; rfl
    | negSucc n => rw [hneg, hneg]; rfl

@[simp] theorem apply_failure_left (c : Config) (op : BinOp) (f : Failure) (v : Value) :
    apply c op (.failure f) v = .ok (.failure f) := rfl

@[simp] theorem apply_failure_right (c : Config) (op : BinOp) (x : Int) (f : Failure) :
    apply c op (.int x) (.failure f) = .ok (.failure f) := rfl

@[simp] theorem apply_int (c : Config) (op : BinOp) (x y : Int) :
    apply c op (.int x) (.int y) = operate c op x y := rfl

theorem applySymbol_symbol (c : Config) (op : BinOp) (v w : Value) :
    applySymbol c op.symbol v w = apply c op v w := by
  simp [applySymbol, apply]

theorem checked_of_inRange {c : Config} {x y r : Int} {op : BinOp} (h : c.InRange r) :
    checked c x op y r = .ok (.int r) := if_pos h

theorem checked_of_not_inRange {c : Config} {x y r : Int} {op : BinOp} (h : ¬ c.InRange r) :
    checked c x op y r = fail (.overflow x op y) := if_neg h

end Value

end IntExpr
