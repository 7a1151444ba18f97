import IntExpr.Proofs.CheckedOperator

/-!
# Division — quotient and remainder in a range that has one negative integer more

In a range from `-2 ^ k` to `2 ^ k - 1` there is one division whose quotient is out of range, that of the
least integer by `-1`.  Everything else that division has to do with lies between zero and the dividend
(`Toward`): the remainder, and the multiple of the divisor that is taken away.  So these are in range
wherever the dividend is.

* `tmod_toward`: a remainder is between zero and the dividend.
* `inRange_tdiv_iff`: the one quotient that is out of range.
* `Value.quotient_and_remainder`: the checked operators undo each other.
-/

namespace IntExpr

variable {c : Config} {x y v : Int}

/-! ### Between zero and an integer -/

/-- The integer `v` lies between zero and `x`, on whichever side of zero that is. -/
def Toward (x v : Int) : Prop := 0 ≤ v ∧ v ≤ x ∨ x ≤ v ∧ v ≤ 0

theorem Toward.sub (h : Toward x v) : Toward x (x - v) := by
  unfold Toward at h ⊢
  omega

theorem Config.InRange.toward (hx : c.InRange x) (h : Toward x v) : c.InRange v := by
  have htwo := c.two_le_halfRange
  unfold Config.InRange Config.intMin Config.intMax at hx ⊢
  unfold Toward at h
  omega

theorem tmod_toward (x y : Int) : Toward x (x.tmod y) := by
  have hle : (x.tmod y).natAbs ≤ x.natAbs := by
    rw [Int.natAbs_tmod]
    exact Nat.mod_le _ _
  unfold Toward
  rcases Int.le_total 0 x with hx | hx
  · have hnonneg := Int.tmod_nonneg y hx
    omega
  · -- the remainder of `-x` is that of `x` with the other sign
    have hnonneg := Int.tmod_nonneg y (Int.neg_nonneg_of_nonpos hx)
    rw [Int.neg_tmod] at hnonneg
    omega

theorem natAbs_tmod_lt (x : Int) (hy : y ≠ 0) : (x.tmod y).natAbs < y.natAbs := by
  rw [Int.natAbs_tmod]
  exact Nat.mod_lt _ (Int.natAbs_pos.mpr hy)

theorem sign_tmod_of_ne_zero (h : x.tmod y ≠ 0) : (x.tmod y).sign = x.sign := by
  have hdvd : ¬ y ∣ x := fun hdvd => h (Int.tmod_eq_zero_of_dvd hdvd)
  rw [Int.sign_tmod, if_neg hdvd]

/-! ### The quotient -/

/-- A divisor of at least two in size halves the dividend or does more to it. -/
theorem two_mul_natAbs_tdiv_le (x : Int) (hy : 2 ≤ y.natAbs) : 2 * (x.tdiv y).natAbs ≤ x.natAbs := by
  have hquot : (x.tdiv y).natAbs = x.natAbs / y.natAbs := Int.natAbs_tdiv x y
  have hhalf : x.natAbs / y.natAbs ≤ x.natAbs / 2 := Nat.div_le_div_left hy (by decide)
  omega

/-- **The one quotient that is out of range** is that of the least integer by `-1`. -/
theorem inRange_tdiv_iff (hx : c.InRange x) (hy : y ≠ 0) :
    c.InRange (x.tdiv y) ↔ ¬ (x = c.intMin ∧ y = -1) := by
  by_cases hsize : 2 ≤ y.natAbs
  · have hne : y ≠ -1 := by omega
    exact ⟨fun _ h => hne h.2,
      fun _ => Config.inRange_of_two_mul_natAbs_le hx (two_mul_natAbs_tdiv_le x hsize)⟩
  · have hunit : y = 1 ∨ y = -1 := by omega
    rcases hunit with rfl | rfl
    · rw [Int.tdiv_one]
      exact ⟨fun _ h => absurd h.2 (by decide), fun _ => hx⟩
    · -- the range has `-x` for each `x` but its least
      rw [Int.tdiv_neg, Int.tdiv_one]
      unfold Config.InRange Config.intMin Config.intMax at *
      omega

/-! ### The operators -/

theorem computes_tmod (x : Int) (hy : y ≠ 0) : BinOp.Computes .mod x y (x.tmod y) := by
  rw [Int.tmod_def]
  exact .mod x hy

namespace Value

theorem apply_div_of_not_inRange (hx : Decimal.Writable x) (hw : Decimal.Writable y) (hy : y ≠ 0)
    (h : ¬ c.InRange (x.tdiv y)) :
    apply c .div (.int x) (.int y) = .ok (.failure (.overflow x .div y)) := by
  obtain ⟨w, happly⟩ := exists_operate (c := c) (o := .div) hx hw
  have hfailure := apply_of_not_inRange (.div x hy) h happly
  rw [apply_int, happly, hfailure]

/-- **Quotient and remainder.**  A remainder is always in range, less than the divisor in size, and zero or
of the sign of the dividend.  A quotient overflows only where the least integer is divided by `-1`; in all
other cases the quotient times the divisor, and the remainder added to that, are in range, and the sum is
the dividend. -/
theorem quotient_and_remainder (c : Config) (hc : 2 ^ (c.intBits - 1) < 10 ^ Decimal.digitLimit)
    (hx : -(2 ^ (c.intBits - 1)) ≤ x ∧ x ≤ 2 ^ (c.intBits - 1) - 1)
    (hy : -(2 ^ (c.intBits - 1)) ≤ y ∧ y ≤ 2 ^ (c.intBits - 1) - 1) (hzero : y ≠ 0) :
    ∃ r, apply c .mod (.int x) (.int y) = .ok (.int r) ∧ r.natAbs < y.natAbs ∧ (r = 0 ∨ r.sign = x.sign) ∧
      ((∃ f, apply c .div (.int x) (.int y) = .ok (.failure f) ∧
          f.message = s!"integer overflow: '{x} {BinOp.div.symbol} {y}'") ↔
        x = -(2 ^ (c.intBits - 1)) ∧ y = -1) ∧
      (¬ (x = -(2 ^ (c.intBits - 1)) ∧ y = -1) →
        ∃ q p, apply c .div (.int x) (.int y) = .ok (.int q) ∧
          apply c .mul (.int q) (.int y) = .ok (.int p) ∧
          apply c .add (.int p) (.int r) = .ok (.int x)) := by
  have hmin : -(2 ^ (c.intBits - 1)) = c.intMin := by
    rw [Config.intMin, c.halfRange_eq, Int.natCast_pow]
    rfl
  rw [← Config.inRange_iff] at hx hy
  rw [← c.halfRange_eq, ← Decimal.writeBound_eq] at hc
  rw [hmin]
  have hdiv := inRange_tdiv_iff hx hzero
  have hremainder := tmod_toward x y
  refine ⟨x.tmod y, apply_of_computes (computes_tmod x hzero) (hx.toward hremainder), natAbs_tmod_lt x hzero,
    or_iff_not_imp_left.mpr sign_tmod_of_ne_zero, ⟨?_, fun h => ?_⟩, fun h => ?_⟩
  · rintro ⟨f, hf, -⟩
    by_contra hne
    have hquot := apply_of_computes (c := c) (.div x hzero) (hdiv.mpr hne)
    cases hquot.symm.trans hf
  · have hover := apply_div_of_not_inRange (Config.writable_of_inRange hc hx)
      (Config.writable_of_inRange hc hy) hzero fun hquot => hdiv.mp hquot h
    exact ⟨_, hover, rfl⟩
  · have hsplit := Int.tdiv_mul_add_tmod x y
    -- the multiple of the divisor is what the remainder leaves of the dividend
    have hproduct : x.tdiv y * y = x - x.tmod y := by omega
    have hinRange : c.InRange (x.tdiv y * y) := hproduct ▸ hx.toward hremainder.sub
    have hsum : BinOp.Computes .add (x.tdiv y * y) (x.tmod y) x := by
      have hadd := BinOp.Computes.add (x.tdiv y * y) (x.tmod y)
      rwa [hsplit] at hadd
    exact ⟨x.tdiv y, x.tdiv y * y, apply_of_computes (.div x hzero) (hdiv.mpr h),
      apply_of_computes (.mul _ _) hinRange, apply_of_computes hsum hx⟩

/-- The least integer of three bits, divided by `-1` and by `3`. -/
theorem quotient_and_remainder_of_least :
    (∃ f, apply { intBits := 3 } .div (.int (-4)) (.int (-1)) = .ok (.failure f) ∧
      f.message = "integer overflow: '-4 / -1'") ∧
    ∃ r q p, apply { intBits := 3 } .mod (.int (-4)) (.int 3) = .ok (.int r) ∧
      apply { intBits := 3 } .div (.int (-4)) (.int 3) = .ok (.int q) ∧
      apply { intBits := 3 } .mul (.int q) (.int 3) = .ok (.int p) ∧
      apply { intBits := 3 } .add (.int p) (.int r) = .ok (.int (-4)) := by
  have hc : 2 ^ (({ intBits := 3 } : Config).intBits - 1) < 10 ^ Decimal.digitLimit :=
    Nat.lt_of_lt_of_le (by decide : 2 ^ 2 < 10 ^ 1) (Nat.pow_le_pow_right (by decide) (by decide))
  obtain ⟨-, -, -, -, hover, -⟩ :=
    quotient_and_remainder (x := -4) (y := -1) { intBits := 3 } hc (by decide) (by decide) (by decide)
  obtain ⟨r, hr, -, -, -, hback⟩ :=
    quotient_and_remainder (x := -4) (y := 3) { intBits := 3 } hc (by decide) (by decide) (by decide)
  obtain ⟨q, p, hq, hp, hx⟩ := hback (by decide)
  exact ⟨hover.mpr (by decide), r, q, p, hr, hq, hp, hx⟩

end Value

end IntExpr
