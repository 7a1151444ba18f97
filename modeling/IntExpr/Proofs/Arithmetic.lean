import IntExpr.Value
import Mathlib.Algebra.Ring.Int.Parity

/-!
# Arithmetic — the operators over the unbounded integers

`BinOp.exact` is the result of an operator where there is one, of whatever size; `BinOp.undefined` is
the failure where there is none.  Checked arithmetic computes the exact result and then looks at its
range (`operate_eq`).

* `inRange_of_mul_pow`: a product that is in range after multiplications by a factor of at least two in
  size was in range before them.
* `power_eq`: the early exit of repeated multiplication, and the bases that take no multiplication,
  change nothing.
-/

namespace IntExpr

variable {c : Config} {x p v : Int}

/-! ### The range -/

namespace Config

theorem inRange_iff : c.InRange v ↔ -(2 ^ (c.intBits - 1)) ≤ v ∧ v ≤ 2 ^ (c.intBits - 1) - 1 := by
  have hhalf : (c.halfRange : Int) = 2 ^ (c.intBits - 1) := Int.natCast_pow 2 _
  rw [InRange, intMin, intMax, hhalf]

theorem two_le_halfRange (c : Config) : 2 ≤ c.halfRange := by
  have hbits := c.two_le_intBits
  show 2 ≤ 2 ^ (c.intBits - 1)
  exact Nat.le_self_pow (by omega) 2

theorem inRange_of_natAbs_le_one (h : v.natAbs ≤ 1) : c.InRange v := by
  have htwo := c.two_le_halfRange
  unfold InRange intMin intMax
  omega

/-- Half of what is in range is in range. -/
theorem inRange_of_two_mul_natAbs_le {w : Int} (hw : c.InRange w) (h : 2 * v.natAbs ≤ w.natAbs) :
    c.InRange v := by
  have htwo := c.two_le_halfRange
  unfold InRange intMin intMax at hw ⊢
  omega

theorem inRange_of_mul (hx : 2 ≤ x.natAbs) (h : c.InRange (p * x)) : c.InRange p := by
  refine inRange_of_two_mul_natAbs_le h ?_
  rw [Int.natAbs_mul, Nat.mul_comm 2]
  exact Nat.mul_le_mul_left p.natAbs hx

theorem inRange_of_mul_pow (hx : 2 ≤ x.natAbs) (n : Nat) (h : c.InRange (p * x ^ n)) :
    c.InRange p := by
  induction n with
  | zero => rwa [pow_zero, mul_one] at h
  | succ n ih =>
    rw [pow_succ, ← mul_assoc] at h
    exact ih (inRange_of_mul hx h)

end Config

/-! ### Powers -/

namespace Value

theorem multiply_eq (hx : 2 ≤ x.natAbs) (n : Nat) (hp : c.InRange p) :
    multiply c x n p = if c.InRange (p * x ^ n) then some (p * x ^ n) else none := by
  induction n generalizing p with
  | zero => rw [multiply, pow_zero, mul_one, if_pos hp]
  | succ n ih =>
    rw [multiply, pow_succ', ← mul_assoc]
    by_cases hnext : c.InRange (p * x)
    · rw [if_pos hnext, ih hnext]
    · -- the loop stops here, and no later product comes back into the range
      rw [if_neg hnext, if_neg fun h => hnext (Config.inRange_of_mul_pow hx n h)]

theorem natAbs_pow_le_one (hx : x.natAbs ≤ 1) (n : Nat) : (x ^ n).natAbs ≤ 1 := by
  rw [Int.natAbs_pow]
  exact Nat.le_trans (Nat.pow_le_pow_left hx n) (Nat.le_of_eq (Nat.one_pow n))

/-- The bases that take no multiplication. -/
theorem power_of_natAbs_le_one (hx : x.natAbs ≤ 1) (n : Nat) : power c x n = some (x ^ n) := by
  have hcases : x = 0 ∨ x = 1 ∨ x = -1 := by omega
  rcases hcases with rfl | rfl | rfl
  · rw [power, if_pos (.inl rfl), zero_pow_eq]
  · rw [power, if_pos (.inr rfl), one_pow, ite_self]
  · rw [power, if_neg (by decide), if_pos rfl]
    by_cases heven : n % 2 = 0
    · rw [if_pos heven, (Nat.even_iff.mpr heven).neg_one_pow]
    · rw [if_neg heven, (Nat.not_even_iff_odd.mp (mt Nat.even_iff.mp heven)).neg_one_pow]

theorem power_eq (x : Int) (n : Nat) :
    power c x n = if c.InRange (x ^ n) then some (x ^ n) else none := by
  by_cases hx : x.natAbs ≤ 1
  · rw [power_of_natAbs_le_one hx, if_pos (Config.inRange_of_natAbs_le_one (natAbs_pow_le_one hx n))]
  · have hone : c.InRange 1 := Config.inRange_of_natAbs_le_one (Nat.le_refl 1)
    have h01 : ¬ (x = 0 ∨ x = 1) := by omega
    have hminus : x ≠ -1 := by omega
    rw [power, if_neg h01, if_neg hminus, multiply_eq (by omega) n hone, one_mul]

end Value

/-! ### Operators -/

namespace BinOp

/-- The result of `x op y`, if there is one. -/
def exact (op : BinOp) (x y : Int) : Option Int :=
  match op with
  | .add => some (x + y)
  | .sub => some (x - y)
  | .mul => some (x * y)
  | .div => if y = 0 then none else some (x.tdiv y)
  | .mod => if y = 0 then none else some (x.tmod y)
  | .pow => if y < 0 then none else some (x ^ y.toNat)

/-- What is said where there is no result. -/
def undefined (op : BinOp) (x y : Int) : Failure :=
  match op with
  | .div => .divisionByZero x
  | .mod => .moduloOfZero x
  | _ => .negativeExponent x y

end BinOp

namespace Value

/-- Checked arithmetic is exact arithmetic and a look at the range. -/
theorem operate_eq (c : Config) (op : BinOp) (x y : Int) : operate c op x y =
    match op.exact x y with
    | some r => checked c x op y r
    | none => fail (op.undefined x y) := by
  cases op with
  | add | sub | mul => rfl
  | div =>
    by_cases hy : y = 0
    · rw [operate, BinOp.exact, if_pos hy, if_pos hy]
      rfl
    · rw [operate, BinOp.exact, if_neg hy, if_neg hy, quotient_eq_tdiv]
  | mod =>
    by_cases hy : y = 0
    · rw [operate, BinOp.exact, if_pos hy, if_pos hy]
      rfl
    · rw [operate, BinOp.exact, if_neg hy, if_neg hy, quotient_eq_tdiv, Int.tmod_def]
  | pow =>
    by_cases hy : y < 0
    · rw [operate, BinOp.exact, if_pos hy, if_pos hy]
      rfl
    · rw [operate, BinOp.exact, if_neg hy, if_neg hy, power_eq]
      dsimp only
      by_cases hr : c.InRange (x ^ y.toNat)
      · rw [if_pos hr, checked_of_inRange hr]
      · rw [if_neg hr, checked_of_not_inRange hr]

/-! ### Integers as results -/

theorem fail_ne_ok_int (f : Failure) : fail f ≠ .ok (.int v) := by
  unfold fail
  split <;> nofun

theorem look_eq_ok_int_iff {r : Int} {f : Failure} :
    (if c.InRange r then .ok (.int r) else fail f) = .ok (.int v) ↔ r = v ∧ c.InRange v := by
  by_cases hr : c.InRange r
  · rw [if_pos hr]
    constructor
    · rintro ⟨⟩
      exact ⟨rfl, hr⟩
    · rintro ⟨rfl, -⟩
      rfl
  · rw [if_neg hr]
    refine ⟨fun h => absurd h (fail_ne_ok_int f), ?_⟩
    rintro ⟨rfl, hv⟩
    exact absurd hv hr

theorem operate_eq_ok_int_iff {op : BinOp} {y : Int} :
    operate c op x y = .ok (.int v) ↔ op.exact x y = some v ∧ c.InRange v := by
  rw [operate_eq]
  cases op.exact x y with
  | none => exact ⟨fun h => absurd h (fail_ne_ok_int _), nofun⟩
  | some r =>
    rw [Option.some_inj]
    exact look_eq_ok_int_iff

theorem apply_eq_ok_int_iff {op : BinOp} {w w' : Value} : apply c op w w' = .ok (.int v) ↔
    ∃ x y, w = .int x ∧ w' = .int y ∧ op.exact x y = some v ∧ c.InRange v := by
  constructor
  · intro h
    cases w with
    | failure f => exact nomatch h
    | int x =>
      cases w' with
      | failure f => exact nomatch h
      | int y => exact ⟨x, y, rfl, rfl, operate_eq_ok_int_iff.mp h⟩
  · rintro ⟨x, y, rfl, rfl, hop⟩
    exact operate_eq_ok_int_iff.mpr hop

end Value

end IntExpr
