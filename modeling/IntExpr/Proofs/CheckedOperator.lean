import IntExpr.Proofs.DigitLimit
import IntExpr.Proofs.FirstFailure

/-!
# CheckedOperator — what an operator makes of two integers

`BinOp.Computes op x y r`: the integer `r` is `x op y`, whatever the size of the three.  A checked operator
has this integer for its value if it is in range, and an overflow if it is not; where there is no such
integer, the failure says why (`apply_int_spec`).  The operands may lie outside the range.

* `BinOp.exact_of_computes`, `BinOp.computes_of_exact`: the relation says what the function `BinOp.exact` says.
* `apply_of_computes`, `apply_of_not_inRange`, `apply_of_undefined`: the three ends of an operation.
-/

namespace IntExpr

variable {c : Config} {op : BinOp} {x y r : Int} {w : Value}

/-- The integer `r` is `x op y`.  A quotient is rounded toward zero, and a remainder is what the divisor,
taken so many times, leaves of the dividend; a power has an exponent of at least zero. -/
inductive BinOp.Computes : BinOp → Int → Int → Int → Prop
  | add (x y : Int) : BinOp.Computes .add x y (x + y)
  | sub (x y : Int) : BinOp.Computes .sub x y (x - y)
  | mul (x y : Int) : BinOp.Computes .mul x y (x * y)
  | div (x : Int) {y : Int} : y ≠ 0 → BinOp.Computes .div x y (x.tdiv y)
  | mod (x : Int) {y : Int} : y ≠ 0 → BinOp.Computes .mod x y (x - y * x.tdiv y)
  | pow (x : Int) (n : Nat) : BinOp.Computes .pow x n (x ^ n)

theorem BinOp.exact_of_computes (h : op.Computes x y r) : op.exact x y = some r := by
  cases h with
  | add | sub | mul => rfl
  | div _ hy => exact if_neg hy
  | mod _ hy => rw [BinOp.exact, if_neg hy, Int.tmod_def]
  | pow x n =>
    have hn : ¬ (n : Int) < 0 := Int.not_lt.mpr (Int.natCast_nonneg n)
    rw [BinOp.exact, if_neg hn, Int.toNat_natCast]

theorem BinOp.computes_of_exact (h : op.exact x y = some r) : op.Computes x y r := by
  cases op with
  | add =>
    obtain rfl : x + y = r := Option.some.inj h
    exact .add x y
  | sub =>
    obtain rfl : x - y = r := Option.some.inj h
    exact .sub x y
  | mul =>
    obtain rfl : x * y = r := Option.some.inj h
    exact .mul x y
  | div =>
    by_cases hy : y = 0
    · exact nomatch (if_pos hy).symm.trans h
    · obtain rfl : x.tdiv y = r := Option.some.inj ((if_neg hy).symm.trans h)
      exact .div x hy
  | mod =>
    by_cases hy : y = 0
    · exact nomatch (if_pos hy).symm.trans h
    · obtain rfl : x.tmod y = r := Option.some.inj ((if_neg hy).symm.trans h)
      rw [Int.tmod_def]
      exact .mod x hy
  | pow =>
    by_cases hy : y < 0
    · exact nomatch (if_pos hy).symm.trans h
    · obtain ⟨n, rfl⟩ := Int.eq_ofNat_of_zero_le (Int.not_lt.mp hy)
      rw [BinOp.exact, if_neg hy, Int.toNat_natCast] at h
      obtain rfl : x ^ n = r := Option.some.inj h
      exact .pow x n

namespace Value

theorem apply_of_computes (h : op.Computes x y r) (hr : c.InRange r) :
    apply c op (.int x) (.int y) = .ok (.int r) := by
  rw [apply_int, operate_eq, BinOp.exact_of_computes h]
  exact checked_of_inRange hr

theorem apply_of_not_inRange (h : op.Computes x y r) (hr : ¬ c.InRange r)
    (hw : apply c op (.int x) (.int y) = .ok w) : w = .failure (.overflow x op y) := by
  rw [apply_int, operate_eq, BinOp.exact_of_computes h] at hw
  exact eq_failure_of_fail ((checked_of_not_inRange hr).symm.trans hw)

theorem apply_of_undefined (h : ∀ r, ¬ op.Computes x y r)
    (hw : apply c op (.int x) (.int y) = .ok w) :
    op.exact x y = none ∧ w = .failure (op.undefined x y) := by
  have hnone : op.exact x y = none :=
    Option.eq_none_iff_forall_ne_some.mpr fun r hr => h r (BinOp.computes_of_exact hr)
  rw [apply_int, operate_eq, hnone] at hw
  exact ⟨hnone, eq_failure_of_fail hw⟩

/-- A message whose last piece names the right operand. -/
theorem shown_of_last {middle last : String} (first : String) (x : Int)
    (h : last = middle ++ toString y ++ "'") :
    first ++ toString x ++ last = first ++ toString x ++ middle ++ toString y ++ "'" := by
  rw [h]
  simp only [String.append_assoc]

/-- What is said where there is no result, for each operator that may have none. -/
theorem message_of_exact_eq_none (h : op.exact x y = none) :
    op = .div ∧ y = 0 ∧ (op.undefined x y).message = s!"division by zero: '{x} / {y}'" ∨
    op = .mod ∧ y = 0 ∧ (op.undefined x y).message = s!"modulo of zero: '{x} % {y}'" ∨
    op = .pow ∧ y < 0 ∧ (op.undefined x y).message = s!"negative exponent: '{x} ^ {y}'" := by
  rcases BinOp.exact_eq_none_iff.mp h with ⟨rfl, rfl⟩ | ⟨rfl, rfl⟩ | ⟨rfl, hy⟩
  · exact .inl ⟨rfl, rfl, shown_of_last "division by zero: '" x (by decide)⟩
  · exact .inr (.inl ⟨rfl, rfl, shown_of_last "modulo of zero: '" x (by decide)⟩)
  · exact .inr (.inr ⟨rfl, hy, rfl⟩)

/-- **A checked operator and the unbounded integers.**  The integer `x op y` is the value if it is in range,
and this needs no digits to be written.  Otherwise the value, if there is one, is the overflow, or the
failure that says why there is no such integer, and it names both operands.  So an integer that is a value
is in range.  There is no value only if one of the operands has too many digits. -/
theorem apply_int_spec (c : Config) (op : BinOp) (x y : Int) :
    (∀ r, op.Computes x y r → -(2 ^ (c.intBits - 1)) ≤ r ∧ r ≤ 2 ^ (c.intBits - 1) - 1 →
      apply c op (.int x) (.int y) = .ok (.int r)) ∧
    (∀ r w, op.Computes x y r → ¬ (-(2 ^ (c.intBits - 1)) ≤ r ∧ r ≤ 2 ^ (c.intBits - 1) - 1) →
      apply c op (.int x) (.int y) = .ok w →
      ∃ f, w = .failure f ∧ f.message = s!"integer overflow: '{x} {op.symbol} {y}'") ∧
    (∀ w, (∀ r, ¬ op.Computes x y r) → apply c op (.int x) (.int y) = .ok w →
      ∃ f, w = .failure f ∧
        (op = .div ∧ y = 0 ∧ f.message = s!"division by zero: '{x} / {y}'" ∨
          op = .mod ∧ y = 0 ∧ f.message = s!"modulo of zero: '{x} % {y}'" ∨
          op = .pow ∧ y < 0 ∧ f.message = s!"negative exponent: '{x} ^ {y}'")) ∧
    (∀ v, apply c op (.int x) (.int y) = .ok (.int v) →
      -(2 ^ (c.intBits - 1)) ≤ v ∧ v ≤ 2 ^ (c.intBits - 1) - 1) ∧
    (∀ e, apply c op (.int x) (.int y) = .error e → ¬ (Decimal.Writable x ∧ Decimal.Writable y)) ∧
    applySymbol c op.symbol (.int x) (.int y) = apply c op (.int x) (.int y) := by
  simp only [← Config.inRange_iff]
  refine ⟨?_, ?_, ?_, ?_, ?_, applySymbol_symbol c op _ _⟩
  · intro r hr hrange
    exact apply_of_computes hr hrange
  · intro r w hr hrange hw
    exact ⟨_, apply_of_not_inRange hr hrange hw, rfl⟩
  · intro w hnone hw
    obtain ⟨hexact, hfailure⟩ := apply_of_undefined hnone hw
    exact ⟨_, hfailure, message_of_exact_eq_none hexact⟩
  · intro v hv
    exact (operate_eq_ok_int_iff.mp hv).2
  · rintro e he ⟨hx, hy⟩
    obtain ⟨w, hw⟩ := exists_operate (c := c) (o := op) hx hy
    exact nomatch he.symm.trans hw

/-- In a range of -2 to 1, operands outside of it leave a remainder in it. -/
theorem apply_int_spec_of_two_bits :
    BinOp.Computes .mod 5 (-4) 1 ∧ apply { intBits := 2 } .mod (.int 5) (.int (-4)) = .ok (.int 1) := by
  have hmod : BinOp.Computes .mod 5 (-4) 1 := .mod 5 (by decide)
  exact ⟨hmod, (apply_int_spec { intBits := 2 } .mod 5 (-4)).1 1 hmod (by decide)⟩

end Value

end IntExpr
