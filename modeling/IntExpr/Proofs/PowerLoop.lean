import IntExpr.Proofs.DigitLimit
import Mathlib.Data.Nat.Find

/-!
# PowerLoop — repeated multiplication up to the first overflow

`Multiplies` lists the products that the loop of `multiply` computes, one at each turn, and says how it ends.
For a base of at least two in size these are the powers of the base (`powers`).  They grow in size, whatever
their signs, and so the powers before one that is in range are in range (`inRange_pow_of_le`), also before the
least integer of the range, which has no counterpart among the positive ones.

* `multiplies_multiply`, `Multiplies.unique`: the loop ends, in one way only, with what `multiply` gives.
* `not_inRange_pow`: a power that is as high as the range is wide is out of range.
* `power_stops_at_first_overflow`: where the loop stops, and after how many multiplications.
-/

namespace IntExpr.Value

variable {c : Config} {x p : Int} {n k : Nat} {products : List Int} {r : Option Int}

/-! ### The loop -/

/-- The loop of `multiply`, with `n` turns to go and the product `p` so far, computes the `products` and ends
with `r`. -/
inductive Multiplies (c : Config) (x : Int) : Nat → Int → List Int → Option Int → Prop
  | finish {p : Int} : Multiplies c x 0 p [] (some p)
  | turn {n : Nat} {p : Int} {products : List Int} {r : Option Int} :
    c.InRange (p * x) → Multiplies c x n (p * x) products r →
    Multiplies c x (n + 1) p (p * x :: products) r
  /-- A product that is out of range is the last one. -/
  | overflow {n : Nat} {p : Int} : ¬ c.InRange (p * x) → Multiplies c x (n + 1) p [p * x] none

theorem multiplies_multiply (c : Config) (x : Int) (n : Nat) (p : Int) :
    ∃ products, Multiplies c x n p products (multiply c x n p) := by
  induction n generalizing p with
  | zero => exact ⟨[], .finish⟩
  | succ n ih =>
    rw [multiply]
    by_cases hnext : c.InRange (p * x)
    · rw [if_pos hnext]
      obtain ⟨products, h⟩ := ih (p * x)
      exact ⟨_, .turn hnext h⟩
    · rw [if_neg hnext]
      exact ⟨_, .overflow hnext⟩

theorem Multiplies.unique {products' : List Int} {r' : Option Int} (h : Multiplies c x n p products r)
    (h' : Multiplies c x n p products' r') : products = products' ∧ r = r' := by
  induction h generalizing products' r' with
  | finish =>
    cases h'
    exact ⟨rfl, rfl⟩
  | turn hnext _ ih =>
    cases h' with
    | turn _ h' =>
      obtain ⟨rfl, rfl⟩ := ih h'
      exact ⟨rfl, rfl⟩
    | overflow hout => exact absurd hnext hout
  | overflow hout =>
    cases h' with
    | turn hnext _ => exact absurd hnext hout
    | overflow _ => exact ⟨rfl, rfl⟩

theorem Multiplies.eq_multiply (h : Multiplies c x n p products r) : r = multiply c x n p := by
  obtain ⟨products', h'⟩ := multiplies_multiply c x n p
  exact (h.unique h').2

/-! ### Powers in range -/

theorem inRange_pow_of_le (hx : 2 ≤ x.natAbs) (hk : k ≤ n) (h : c.InRange (x ^ n)) :
    c.InRange (x ^ k) := by
  rw [← Nat.add_sub_cancel' hk, pow_add] at h
  exact Config.inRange_of_mul_pow hx (n - k) h

/-- A power that is as high as the range is wide is out of range. -/
theorem not_inRange_pow (hx : 2 ≤ x.natAbs) (hn : c.intBits ≤ n) : ¬ c.InRange (x ^ n) := by
  intro h
  have hwide := inRange_pow_of_le hx hn h
  have hsize : 2 ^ c.intBits ≤ (x ^ c.intBits).natAbs := by
    rw [Int.natAbs_pow]
    exact Nat.pow_le_pow_left hx c.intBits
  -- the range has the integers up to `halfRange` in size, and the power is twice as large
  have hdouble : 2 ^ c.intBits = 2 * c.halfRange := by
    have hbits : 1 ≤ c.intBits := Nat.le_of_succ_le c.two_le_intBits
    rw [c.halfRange_eq, ← Nat.pow_succ', Nat.succ_eq_add_one, Nat.sub_add_cancel hbits]
  have hpos := c.halfRange_pos
  unfold Config.InRange Config.intMin Config.intMax at hwide
  omega

/-- Where a power is out of range there is a first one that is, and it is no higher than the range is wide. -/
theorem exists_first_not_inRange (hx : 2 ≤ x.natAbs) (h : ¬ c.InRange (x ^ n)) :
    ∃ k, k ≤ n ∧ k ≤ c.intBits ∧ ¬ c.InRange (x ^ k) ∧ ∀ j, j < k → c.InRange (x ^ j) := by
  have hex : ∃ k, ¬ c.InRange (x ^ k) := ⟨n, h⟩
  have hbits : ¬ c.InRange (x ^ c.intBits) := not_inRange_pow hx (Nat.le_refl _)
  refine ⟨Nat.find hex, Nat.find_min' hex h, Nat.find_min' hex hbits, Nat.find_spec hex, fun j hj => ?_⟩
  exact not_not.mp (Nat.find_min hex hj)

/-! ### The products of the loop -/

/-- The powers of `x` after that with the exponent `k`, so many of them. -/
def powersAfter (x : Int) (k m : Nat) : List Int := (List.range' (k + 1) m).map (x ^ ·)

/-- The powers of `x` with the exponents from one to `m`. -/
def powers (x : Int) (m : Nat) : List Int := powersAfter x 0 m

theorem length_powers (x : Int) (m : Nat) : (powers x m).length = m := by
  rw [powers, powersAfter, List.length_map, List.length_range']

theorem powersAfter_succ (x : Int) (k m : Nat) :
    powersAfter x k (m + 1) = x ^ (k + 1) :: powersAfter x (k + 1) m := by
  rw [powersAfter, List.range'_succ, List.map_cons, powersAfter]

theorem powers_succ (x : Int) (m : Nat) : powers x (m + 1) = powers x m ++ [x ^ (m + 1)] := by
  simp only [powers, powersAfter, List.range'_1_concat, List.map_append, List.map_singleton, Nat.zero_add,
    Nat.add_comm 1 m]

/-- As long as they are in range, the products are the powers. -/
theorem multiplies_append {m : Nat} (hin : ∀ j, k < j → j ≤ k + m → c.InRange (x ^ j))
    (h : Multiplies c x n (x ^ (k + m)) products r) :
    Multiplies c x (m + n) (x ^ k) (powersAfter x k m ++ products) r := by
  induction m generalizing k with
  | zero =>
    rw [Nat.zero_add]
    exact h
  | succ m ih =>
    have hnext : c.InRange (x ^ (k + 1)) := hin (k + 1) (by omega) (by omega)
    have hplace : k + (m + 1) = k + 1 + m := by omega
    rw [hplace] at h
    have hrest := ih (fun j hlt hle => hin j (by omega) (by omega)) h
    rw [Nat.add_right_comm, powersAfter_succ, List.cons_append]
    rw [pow_succ] at hnext hrest ⊢
    exact .turn hnext hrest

theorem multiplies_powers (h : ∀ k, k ≤ n → c.InRange (x ^ k)) :
    Multiplies c x n 1 (powers x n) (some (x ^ n)) := by
  have hend : Multiplies c x 0 (x ^ (0 + n)) [] (some (x ^ n)) := by
    rw [Nat.zero_add]
    exact .finish
  have hall := multiplies_append (fun j _ hle => h j (by omega)) hend
  rw [List.append_nil, pow_zero] at hall
  exact hall

theorem multiplies_powers_of_overflow (hk : k ≤ n) (hout : ¬ c.InRange (x ^ k))
    (hin : ∀ j, j < k → c.InRange (x ^ j)) : Multiplies c x n 1 (powers x k) none := by
  cases k with
  | zero =>
    -- no turn is needed for the power that is one
    have hone : c.InRange (x ^ 0) := Config.inRange_of_natAbs_le_one (by simp)
    exact absurd hone hout
  | succ k =>
    obtain ⟨left, rfl⟩ : ∃ left, n = k + (left + 1) := ⟨n - (k + 1), by omega⟩
    have hlast : Multiplies c x (left + 1) (x ^ (0 + k)) [x ^ (k + 1)] none := by
      rw [Nat.zero_add]
      rw [pow_succ] at hout ⊢
      exact .overflow hout
    have hall := multiplies_append (fun j _ hle => hin j (by omega)) hlast
    rw [pow_zero] at hall
    rw [powers_succ]
    exact hall

/-! ### Powers of integers -/

theorem power_eq_multiply (hx : 2 ≤ x.natAbs) (n : Nat) : power c x n = multiply c x n 1 := by
  have hunit : ¬ (x = 0 ∨ x = 1) := by omega
  have hminus : x ≠ -1 := by omega
  rw [power, if_neg hunit, if_neg hminus]

theorem operate_pow (c : Config) (x : Int) (n : Nat) :
    operate c .pow x n = checked c x .pow n (x ^ n) := by
  have hn : ¬ (n : Int) < 0 := Int.not_lt.mpr (Int.natCast_nonneg n)
  rw [operate_eq, BinOp.exact, if_neg hn, Int.toNat_natCast]

/-- The loop multiplies no more often than the range is wide, whatever the exponent. -/
theorem Multiplies.length_le (hx : 2 ≤ x.natAbs) (h : Multiplies c x n 1 products r) :
    products.length ≤ c.intBits := by
  by_cases hrange : c.InRange (x ^ n)
  · have hloop := multiplies_powers fun k hk => inRange_pow_of_le hx hk hrange
    rw [(h.unique hloop).1, length_powers]
    exact Nat.not_lt.mp fun hlt => not_inRange_pow hx (Nat.le_of_lt hlt) hrange
  · obtain ⟨k, hk, hbits, hout, hin⟩ := exists_first_not_inRange hx hrange
    have hloop := multiplies_powers_of_overflow hk hout hin
    rw [(h.unique hloop).1, length_powers]
    exact hbits

/-- **Repeated multiplication stops at the first overflow and nowhere else.**  If a power is in range, so are
all lower ones, and the loop comes to it.  If it is not, the loop stops at the first power that is out of range
and the result is the overflow; its message names base and exponent, which must not be too long for that.
This first power is no higher than the range is wide, so the loop multiplies no more often, and every higher
exponent overflows. -/
theorem power_stops_at_first_overflow (c : Config) (hx : 2 ≤ x.natAbs) (n : Nat) :
    (c.InRange (x ^ n) →
      (∀ k, k ≤ n → c.InRange (x ^ k)) ∧ Multiplies c x n 1 (powers x n) (some (x ^ n)) ∧
        operate c .pow x n = .ok (.int (x ^ n))) ∧
    (¬ c.InRange (x ^ n) →
      (∃ k, k ≤ n ∧ k ≤ c.intBits ∧ ¬ c.InRange (x ^ k) ∧ (∀ j, j < k → c.InRange (x ^ j)) ∧
        Multiplies c x n 1 (powers x k) none) ∧
      operate c .pow x n = fail (.overflow x .pow n) ∧
      (Decimal.Writable x → Decimal.Writable n →
        operate c .pow x n = .ok (.failure (.overflow x .pow n)))) ∧
    (c.intBits ≤ n → ¬ c.InRange (x ^ n)) ∧
    (∃ products, Multiplies c x n 1 products (power c x n)) ∧
    ∀ products r, Multiplies c x n 1 products r → r = power c x n ∧ products.length ≤ c.intBits := by
  rw [power_eq_multiply hx]
  refine ⟨fun h => ?_, fun h => ?_, fun h => not_inRange_pow hx h, multiplies_multiply c x n 1,
    fun products r h => ⟨h.eq_multiply, h.length_le hx⟩⟩
  · have hall : ∀ k, k ≤ n → c.InRange (x ^ k) := fun k hk => inRange_pow_of_le hx hk h
    exact ⟨hall, multiplies_powers hall, (operate_pow c x n).trans (checked_of_inRange h)⟩
  · obtain ⟨k, hk, hbits, hout, hin⟩ := exists_first_not_inRange hx h
    have hover : operate c .pow x n = fail (.overflow x .pow n) :=
      (operate_pow c x n).trans (checked_of_not_inRange h)
    refine ⟨⟨k, hk, hbits, hout, hin, multiplies_powers_of_overflow hk hout hin⟩, hover, fun hxw hnw => ?_⟩
    rw [hover]
    exact fail_of_writable (List.forall_mem_cons.mpr ⟨hxw, List.forall_mem_singleton.mpr hnw⟩)

/-- In four bits the powers of `-2` come down to the least integer, and the next one is out of range. -/
theorem power_stops_at_first_overflow_after_least :
    operate { intBits := 4 } .pow (-2) 3 = .ok (.int (-8)) ∧
      (∀ k, k ≤ 3 → Config.InRange { intBits := 4 } ((-2) ^ k)) ∧
      Multiplies { intBits := 4 } (-2) (10 ^ 12) 1 [-2, 4, -8, 16] none ∧
      operate { intBits := 4 } .pow (-2) (10 ^ 12 : Nat) = .ok (.failure (.overflow (-2) .pow (10 ^ 12 : Nat))) := by
  obtain ⟨hleast, -⟩ := power_stops_at_first_overflow (x := -2) { intBits := 4 } (by decide) 3
  obtain ⟨hall, -, hvalue⟩ := hleast (by decide)
  obtain ⟨-, hover, hwide, -⟩ := power_stops_at_first_overflow (x := -2) { intBits := 4 } (by decide) (10 ^ 12)
  obtain ⟨⟨k, -, hbits, hout, hin, hloop⟩, -, hfailure⟩ := hover (hwide (by decide))
  have hk : k = 4 := by
    have hnot : ¬ k ≤ 3 := fun hle => hout (hall k hle)
    have hle : k ≤ 4 := hbits
    omega
  subst hk
  exact ⟨hvalue, hall, hloop, hfailure (by decide) (by decide)⟩

end IntExpr.Value
