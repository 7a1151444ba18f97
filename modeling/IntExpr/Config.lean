/-!
# Config — the open behaviours of reading and evaluating

What becomes of characters outside the alphabet, how a chain of powers groups, and how wide the
range of integers is. The range of a width is decided by the length of an integer in binary
(`isShort_iff`), so that no bound of a huge width is ever computed.
-/

namespace IntExpr

/-- What becomes of a character outside the alphabet. -/
inductive UnknownCharacters where
  | skip
  | reject
  deriving DecidableEq, Repr

/-- How a chain such as `2 ^ 3 ^ 2` groups. -/
inductive Associativity where
  | left
  | right
  deriving DecidableEq, Repr

/-- The settings of one run; integers are checked against a signed range of `intBits` bits. -/
structure Config where
  unknownCharacters : UnknownCharacters := .skip
  associativity : Associativity := .left
  intBits : Nat := 64
  two_le_intBits : 2 ≤ intBits := by decide
  deriving DecidableEq, Repr

namespace Config

/-- The number of integers in either half of the range, the negative and the other ones. -/
def halfRange (c : Config) : Nat := Nat.pow 2 (c.intBits - 1)

def intMin (c : Config) : Int := -c.halfRange

def intMax (c : Config) : Int := c.halfRange - 1

def InRange (c : Config) (v : Int) : Prop := c.intMin ≤ v ∧ v ≤ c.intMax

/-- The place of an integer in its half of the range, counted from zero: `m` for `m` itself and for
`-m - 1`. -/
def place : Int → Nat
  | .ofNat m => m
  | .negSucc m => m

def isShort (n m : Nat) : Bool := m = 0 || m.log2 + 1 < n

theorem halfRange_pos (c : Config) : 0 < c.halfRange := Nat.two_pow_pos _

theorem isShort_iff (c : Config) (m : Nat) : isShort c.intBits m = true ↔ m < c.halfRange := by
  have two := c.two_le_intBits
  by_cases h0 : m = 0
  · exact ⟨fun _ => h0 ▸ c.halfRange_pos, fun _ => by simp [isShort, h0]⟩
  · have len : m.log2 < c.intBits - 1 ↔ m < c.halfRange := Nat.log2_lt h0
    simp only [isShort, h0, decide_false, Bool.false_or, decide_eq_true_eq]
    omega

/-- The two halves of the range are alike: `m` and `-m - 1` lie in it together. -/
theorem inRange_iff_place (c : Config) (v : Int) : c.InRange v ↔ place v < c.halfRange := by
  have pos := c.halfRange_pos
  unfold InRange intMin intMax
  cases v with
  | ofNat m => simp only [place, Int.ofNat_eq_natCast]; omega
  | negSucc m => simp only [place, Int.negSucc_eq]; omega

instance (c : Config) (v : Int) : Decidable (c.InRange v) :=
  decidable_of_iff (isShort c.intBits (place v) = true)
    ((isShort_iff c _).trans (inRange_iff_place c v).symm)

end Config

end IntExpr
