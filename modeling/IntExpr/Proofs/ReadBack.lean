import IntExpr.Proofs.FirstFailure
import IntExpr.Proofs.Signs

/-!
# ReadBack — the decimal text of an integer, read as an expression

The text of an integer is a minus, if it is negative, and the digits of its size.  Zeros in front of the
first digit change neither the number that the digits denote nor the tree but for its literal's text.  A
negative integer is read as zero minus its size, so its size has to be in range: that of the least integer
of the range is not, and it alone is not read back (`read_back`).
-/

namespace IntExpr

variable {c : Config} {v : Int} {k n : Nat}

/-- A text with `k` zeros in front of its first digit. -/
def zeroPadded (k : Nat) (s : String) : String :=
  String.ofList (s.toList.takeWhile (!·.isDigit) ++
    (List.replicate k '0' ++ s.toList.dropWhile (!·.isDigit)))

/-- The digits of a text, in order. -/
def digitsOf (s : String) : List Char := s.toList.filter Char.isDigit

/-! ### Digits with zeros in front of them -/

theorem isNumeral_padded (k n : Nat) : Decimal.IsNumeral (List.replicate k '0' ++ Nat.toDigits 10 n) := by
  obtain ⟨hne, hdigits⟩ := Decimal.isNumeral_toDigits n
  refine ⟨by simp [hne], ?_⟩
  intro x hx
  rcases List.mem_append.mp hx with hx | hx
  · rw [(List.mem_replicate.mp hx).2]
    rfl
  · exact hdigits x hx

theorem value_padded (k n : Nat) : Decimal.value (List.replicate k '0' ++ Nat.toDigits 10 n) = n := by
  rw [Decimal.value, Nat.ofDigitChars_append, Nat.ofDigitChars_replicate_zero, Nat.mul_zero]
  exact Decimal.value_toDigits n

/-! ### The text of an integer -/

/-- The sign in the text of an integer. -/
def signText (v : Int) : String := if v < 0 then "-" else ""

theorem toList_toString (v : Int) :
    (toString v).toList = (signText v).toList ++ Nat.toDigits 10 v.natAbs := by
  cases v with
  | ofNat n =>
    have hsign : signText (.ofNat n) = "" := if_neg (by simp)
    rw [hsign]
    exact Nat.toList_repr
  | negSucc n =>
    have hsign : signText (.negSucc n) = "-" := if_pos (Int.negSucc_lt_zero n)
    have htext : toString (Int.negSucc n) = "-" ++ (n + 1).repr := rfl
    rw [hsign, htext, String.toList_append, Nat.toList_repr]
    rfl

theorem signText_cases (v : Int) : 0 ≤ v ∧ signText v = "" ∨ v < 0 ∧ signText v = "-" := by
  unfold signText
  split_ifs with h
  · exact .inr ⟨h, rfl⟩
  · exact .inl ⟨by omega, rfl⟩

/-- Zeros stand between the sign and the digits. -/
theorem zeroPadded_toString (k : Nat) (v : Int) : zeroPadded k (toString v) =
    signText v ++ String.ofList (List.replicate k '0' ++ Nat.toDigits 10 v.natAbs) := by
  obtain ⟨d, ds, hds⟩ := List.exists_cons_of_ne_nil (Nat.toDigits_ne_nil (n := v.natAbs) (b := 10))
  have hd : d.isDigit = true := (Decimal.isNumeral_toDigits v.natAbs).2 d (by simp [hds])
  have hminus : ('-').isDigit = false := rfl
  apply String.toList_injective
  unfold zeroPadded
  rw [String.toList_ofList, String.toList_append, String.toList_ofList, toList_toString, hds]
  rcases signText_cases v with ⟨-, hsign⟩ | ⟨-, hsign⟩ <;> simp [hsign, hd, hminus]

theorem digitsOf_zeroPadded (k : Nat) (v : Int) :
    digitsOf (zeroPadded k (toString v)) = List.replicate k '0' ++ Nat.toDigits 10 v.natAbs := by
  have hdigits := List.filter_eq_self.mpr (isNumeral_padded k v.natAbs).2
  rw [zeroPadded_toString, digitsOf, String.toList_append, String.toList_ofList, List.filter_append,
    hdigits]
  rcases signText_cases v with ⟨-, hsign⟩ | ⟨-, hsign⟩ <;> rw [hsign] <;> rfl

/-! ### Reading it -/

/-- A text of digits alone is its own literal. -/
theorem parse_numeral {p : String} (limit : Nat) (c : Config) (h : Decimal.IsNumeral p.toList) :
    parse limit c p = .ok (.literal p) ∧ SinglePrimary c p := by
  obtain ⟨hrejected, hsymbols⟩ := Lexes.number h c.unknownCharacters 0
  have hlex : tokenize c.unknownCharacters p = .ok (scan c.unknownCharacters p).tokens :=
    tokenize_eq_ok_iff.mpr ⟨hrejected, rfl⟩
  have htext : DerivesText c.associativity ((scan c.unknownCharacters p).tokens.map Token.symbol)
      (.literal p) := ⟨_, 0, (Derives.number p).chain_of_factor .sum, hsymbols⟩
  refine ⟨?_, _, _, 0, hlex, .number p, hsymbols⟩
  refine (parse_of_derivesText limit hlex htext).1 ?_
  rw [scan, hsymbols]
  exact Nat.zero_le limit

/-- The tree of the text of an integer: a literal, negated for a negative one. -/
theorem parse_zeroPadded (limit : Nat) (c : Config) (k : Nat) (v : Int) :
    parse limit c (zeroPadded k (toString v)) = .ok (if v < 0
      then .negate (.literal (String.ofList (digitsOf (zeroPadded k (toString v)))))
      else .literal (String.ofList (digitsOf (zeroPadded k (toString v))))) := by
  rw [digitsOf_zeroPadded, zeroPadded_toString]
  have hnumeral := isNumeral_padded k v.natAbs
  rw [← String.toList_ofList (l := List.replicate k '0' ++ Nat.toDigits 10 v.natAbs)] at hnumeral
  obtain ⟨hliteral, hsingle⟩ := parse_numeral limit c hnumeral
  rcases signText_cases v with ⟨hv, hsign⟩ | ⟨hv, hsign⟩
  · rw [hsign, String.empty_append, hliteral, if_neg (by omega)]
  · have hsigns : ∀ x ∈ "-".toList, x = '+' ∨ x = '-' ∨ isSeparator x = true := by simp
    rw [hsign, parse_of_signs hsigns hsingle hliteral, if_pos hv]
    rfl

/-- What the digits come to: the integer, or the failure that names them. -/
theorem value_digits {text : String} (hnumeral : Decimal.IsNumeral text.toList)
    (hshort : text.length ≤ Decimal.digitLimit) :
    Tree.value c (.literal text : Expr) =
      if c.InRange (Decimal.value text.toList) then .ok (.int (Decimal.value text.toList))
      else .ok (.failure (.illegalLiteral text)) := by
  have hread : Decimal.read text.toList = .ok (Decimal.value text.toList) :=
    if_pos (by rwa [String.length_toList])
  have hliteral : Value.ofLiteral c text = if c.InRange (Decimal.value text.toList)
      then .ok (.int (Decimal.value text.toList)) else Value.fail (.illegalLiteral text) := by
    rw [Value.ofLiteral, if_pos hnumeral, hread]
    rfl
  rw [Tree.value, hliteral]
  split_ifs <;> rfl

/-- **Integers are read back from their decimal text**, with any number of zeros in front of their digits
as long as the digits are not too many to be read.  The one exception is the least integer of the range:
its size is no integer of the range, and the failure names its digits as they were written. -/
theorem read_back (limit : Nat) (c : Config) (v : Int) (k : Nat)
    (hc : 2 ^ (c.intBits - 1) < 10 ^ Decimal.digitLimit) (hlo : -(2 ^ (c.intBits - 1)) ≤ v)
    (hhi : v ≤ 2 ^ (c.intBits - 1) - 1) :
    ∃ s, (Value.int v).text = .ok s ∧
      ((digitsOf (zeroPadded k s)).length ≤ Decimal.digitLimit →
        ∃ t, parse limit c (zeroPadded k s) = .ok t ∧
          (v ≠ -(2 ^ (c.intBits - 1)) → t.evaluate c = .ok (.int v)) ∧
          (v = -(2 ^ (c.intBits - 1)) → ∃ f, t.evaluate c = .ok (.failure f) ∧
            f.message = s!"illegal literal '{String.ofList (digitsOf (zeroPadded k s))}'")) := by
  have hrange : c.InRange v := Config.inRange_iff.mpr ⟨hlo, hhi⟩
  rw [← c.halfRange_eq, ← Decimal.writeBound_eq] at hc
  refine ⟨toString v, Decimal.write_of_writable (Config.writable_of_inRange hc hrange), ?_⟩
  intro hshort
  refine ⟨_, parse_zeroPadded limit c k v, ?_⟩
  rw [digitsOf_zeroPadded] at hshort ⊢
  generalize htext : String.ofList (List.replicate k '0' ++ Nat.toDigits 10 v.natAbs) = text
  have hlist : text.toList = List.replicate k '0' ++ Nat.toDigits 10 v.natAbs := by simp [← htext]
  have hdigits := value_digits (c := c) (hlist ▸ isNumeral_padded k v.natAbs)
    (by rwa [← String.length_toList, hlist])
  rw [hlist, value_padded] at hdigits
  simp only [Tree.evaluate_eq_value]
  have hpos := c.halfRange_pos
  have hhalf : (c.halfRange : Int) = 2 ^ (c.intBits - 1) := Int.natCast_pow 2 _
  rw [← hhalf] at hlo hhi ⊢
  by_cases hv : v < 0
  · rw [if_pos hv]
    constructor
    · intro hne
      have hsize : c.InRange (v.natAbs : Int) := by
        unfold Config.InRange Config.intMin Config.intMax
        omega
      have hback : -(v.natAbs : Int) = v := by omega
      rw [if_pos hsize] at hdigits
      have hneg : c.InRange (-(v.natAbs : Int)) := by rwa [hback]
      rw [Tree.value_negate_of_int hdigits hneg, hback]
    · intro heq
      have hsize : ¬ c.InRange (v.natAbs : Int) := by
        unfold Config.InRange Config.intMin Config.intMax
        omega
      rw [if_neg hsize] at hdigits
      exact ⟨_, Tree.value_negate_of_failure hdigits, rfl⟩
  · have hsize : (v.natAbs : Int) = v := by omega
    rw [hsize, if_pos hrange] at hdigits
    rw [if_neg hv]
    exact ⟨fun _ => hdigits, fun heq => by omega⟩

/-- Zeros in front of the digits of the least integer of eight bits and of the one after it. -/
theorem read_back_of_least :
    (∃ t, parse 200 { intBits := 8 } "-00128" = .ok t ∧ ∃ f, t.evaluate { intBits := 8 } = .ok (.failure f) ∧
      f.message = "illegal literal '00128'") ∧
    ∃ t, parse 200 { intBits := 8 } "-0127" = .ok t ∧ t.evaluate { intBits := 8 } = .ok (.int (-127)) := by
  have hc : 2 ^ (({ intBits := 8 } : Config).intBits - 1) < 10 ^ Decimal.digitLimit :=
    Nat.lt_of_lt_of_le (by decide : 2 ^ 7 < 10 ^ 3) (Nat.pow_le_pow_right (by decide) (by decide))
  constructor
  · obtain ⟨s, hs, hread⟩ := read_back 200 { intBits := 8 } (-128) 2 hc (by decide) (by decide)
    obtain rfl : "-128" = s := Except.ok.inj hs
    obtain ⟨t, ht, -, hleast⟩ := hread (by decide)
    exact ⟨t, ht, hleast (by decide)⟩
  · obtain ⟨s, hs, hread⟩ := read_back 200 { intBits := 8 } (-127) 1 hc (by decide) (by decide)
    obtain rfl : "-127" = s := Except.ok.inj hs
    obtain ⟨t, ht, hint, -⟩ := hread (by decide)
    exact ⟨t, ht, hint (by decide)⟩

end IntExpr
