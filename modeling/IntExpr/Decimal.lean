/-!
# Decimal — integers and their digits

Integers of any size are computed with, but text and integers convert only up to `digitLimit`
digits. `read` and `write` are the two conversions, `LimitError` what they refuse.
-/

namespace IntExpr.Decimal

/-- The largest count of digits that is read or written. -/
def digitLimit : Nat := 4300

inductive LimitError where
  /-- A text of this many digits, leading zeros included, is too long to read. -/
  | reading (digits : Nat)
  | writing
  deriving DecidableEq, Repr

def LimitError.message : LimitError → String
  | .reading n => s!"Exceeds the limit ({digitLimit} digits) for integer string conversion: " ++
      s!"value has {n} digits; use sys.set_int_max_str_digits() to increase the limit"
  | .writing => s!"Exceeds the limit ({digitLimit} digits) for integer string conversion; " ++
      "use sys.set_int_max_str_digits() to increase the limit"

/-- A non-empty run of ASCII digits. -/
def IsNumeral (cs : List Char) : Prop := cs ≠ [] ∧ ∀ c ∈ cs, c.isDigit = true

instance (cs : List Char) : Decidable (IsNumeral cs) :=
  decidable_of_iff (cs ≠ [] ∧ cs.all Char.isDigit = true) (and_congr_right fun _ => List.all_eq_true)

def value (cs : List Char) : Nat := Nat.ofDigitChars 10 cs 0

def read (cs : List Char) : Except LimitError Nat :=
  if cs.length ≤ digitLimit then .ok (value cs) else .error (.reading cs.length)

/-- The least number that has too many digits to be written. -/
def writeBound : Nat := Nat.pow 10 digitLimit

/-- Integers of at most `digitLimit` digits; the sign is not counted. -/
def Writable (v : Int) : Prop := v.natAbs < writeBound

/-- A number of at most three binary digits for each of `k` decimal ones lies below `10 ^ k`. -/
theorem lt_pow_of_log2_lt {n k : Nat} (h : n.log2 < 3 * k) : n < Nat.pow 10 k := by
  have short : n < Nat.pow 2 (3 * k) := by
    by_cases h0 : n = 0
    · exact h0 ▸ Nat.two_pow_pos _
    · exact (Nat.log2_lt h0).mp h
  have cube : Nat.pow 2 (3 * k) = Nat.pow (Nat.pow 2 3) k := Nat.pow_mul _ _ _
  exact Nat.lt_of_lt_of_le (cube ▸ short) (Nat.pow_le_pow_left (by decide) k)

theorem writable_of_log2_lt {v : Int} (h : v.natAbs.log2 < 3 * digitLimit) : Writable v := by
  unfold Writable writeBound
  exact lt_pow_of_log2_lt h

instance (v : Int) : Decidable (Writable v) :=
  if h : v.natAbs.log2 < 3 * digitLimit then .isTrue (writable_of_log2_lt h)
  else inferInstanceAs (Decidable (_ < _))

/-- The digits of an integer, after a minus if it is negative, unless they are too many. -/
def write (v : Int) : Except LimitError String :=
  if Writable v then .ok (toString v) else .error .writing

/-! ### Reading what was written -/

theorem value_toDigits (n : Nat) : value (Nat.toDigits 10 n) = n :=
  Nat.ofDigitChars_toDigits (by decide) (by decide)

theorem isNumeral_toDigits (n : Nat) : IsNumeral (Nat.toDigits 10 n) :=
  ⟨Nat.toDigits_ne_nil, fun _ h => Nat.isDigit_of_mem_toDigits (by decide) (by decide) h⟩

theorem write_of_writable {v : Int} (h : Writable v) : write v = .ok (toString v) := if_pos h

end IntExpr.Decimal
