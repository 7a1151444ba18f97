import IntExpr.Config.Settings
import IntExpr.Proofs.DigitLimit
import Mathlib.Data.List.TakeWhile

/-!
# WidthTexts — texts that stand for a width

A text never stands for an integer that is too long to be written (`writable_of_read`): of the digits that
count no more than the limit are read.  A plain numeral of more digits is refused, although there is nothing
else wrong with it (`readIntBits_of_long`).
-/

namespace IntExpr

open Decimal (Writable)

variable {text : String} {cs : List Char} {x : Char} {n : Nat} {v : Int}

/-! ### The value of digits -/

namespace Decimal

theorem two_le_writeBound : 2 ≤ writeBound := by
  rw [writeBound_eq]
  calc 2 ≤ 10 ^ 1 := by decide
    _ ≤ 10 ^ digitLimit := Nat.pow_le_pow_right (by decide) (by decide)

theorem value_cons (x : Char) (cs : List Char) :
    value (x :: cs) = 10 ^ cs.length * (x.toNat - '0'.toNat) + value cs := by
  rw [value, Nat.ofDigitChars_cons, Nat.ofDigitChars_eq_ofDigitChars_zero, Nat.mul_zero, Nat.zero_add, value]

/-- A run of digits denotes a number of no more digits. -/
theorem value_lt_pow (h : ∀ x ∈ cs, x.isDigit = true) : value cs < 10 ^ cs.length := by
  induction cs with
  | nil => decide
  | cons x cs ih =>
    obtain ⟨hx, hcs⟩ := List.forall_mem_cons.mp h
    have hrest := ih hcs
    have hdigit : x.toNat - '0'.toNat ≤ 9 := Nat.sub_le_of_le_add (Char.isDigit_iff_toNat.mp hx).2
    have hfirst : 10 ^ cs.length * (x.toNat - '0'.toNat) ≤ 10 ^ cs.length * 9 :=
      Nat.mul_le_mul_left _ hdigit
    rw [value_cons, List.length_cons, Nat.pow_succ]
    omega

/-- Without zeros in front it denotes a number of just as many digits. -/
theorem pow_le_value (hx : x.isDigit = true) (hzero : x ≠ '0') (cs : List Char) :
    10 ^ cs.length ≤ value (x :: cs) := by
  have hne : x.toNat ≠ '0'.toNat := fun h => hzero (Char.toNat_inj.mp h)
  have hle := (Char.isDigit_iff_toNat.mp hx).1
  have hfirst : 10 ^ cs.length * 1 ≤ 10 ^ cs.length * (x.toNat - '0'.toNat) :=
    Nat.mul_le_mul_left _ (by omega)
  rw [value_cons]
  omega

end Decimal

/-! ### Texts that are read -/

namespace IntegerText

theorem lt_of_readDigits (h : readDigits cs = .ok n) : n < Decimal.writeBound := by
  simp only [readDigits] at h
  split_ifs at h with hzero hempty hlong hmore
  · cases h
    exact Nat.lt_of_lt_of_le (by decide) Decimal.two_le_writeBound
  · cases h
    rw [Decimal.writeBound_eq]
    have hdigits : ∀ x ∈ cs.takeWhile Char.isDigit, x.isDigit = true :=
      List.all_eq_true.mp List.all_takeWhile
    exact Nat.lt_of_lt_of_le (Decimal.value_lt_pow hdigits)
      (Nat.pow_le_pow_right (by decide) (Nat.not_lt.mp hlong))

/-- What is read from digits can be written, and so can what has the same size. -/
theorem writable_of_map {f : Int → Int} (hf : ∀ w, (f w).natAbs = w.natAbs)
    (h : (readDigits cs : Except Rejection Int).map f = .ok v) : Writable v := by
  cases hread : readDigits cs with
  | error e =>
    rw [hread] at h
    cases h
  | ok n =>
    rw [hread] at h
    obtain rfl : f n = v := Except.ok.inj h
    rw [Writable, hf, Int.natAbs_natCast]
    exact lt_of_readDigits hread

theorem writable_of_readPlain (h : readPlain cs = .ok v) : Writable v := by
  unfold readPlain at h
  split at h
  · exact writable_of_map Int.natAbs_neg h
  · exact writable_of_map (fun _ => rfl) h

/-- No text stands for an integer that is too long to be written. -/
theorem writable_of_read (h : read text = .ok v) : Writable v := by
  unfold read at h
  split at h
  · unfold readTidy at h
    split at h
    · rename_i w htidy
      cases h
      obtain ⟨cs, -, hplain⟩ := Option.map_eq_some_iff.mp htidy
      exact writable_of_readPlain hplain
    · cases h
  · exact writable_of_readPlain h

end IntegerText

theorem writable_of_readIntBits {m : { n : Nat // 2 ≤ n }} (h : readIntBits (.text text) = .ok m) :
    Writable m.1 := by
  simp only [readIntBits, readInteger] at h
  cases hread : IntegerText.read text with
  | error e => cases e <;> simp [hread] at h
  | ok v =>
    have hwritable := IntegerText.writable_of_read hread
    simp only [hread] at h
    split_ifs at h with htwo
    cases h
    unfold Writable at hwritable ⊢
    show v.toNat < Decimal.writeBound
    omega

/-! ### Numerals that are too long -/

/-- A long numeral is refused as it stands. -/
theorem readIntBits_of_long (h : Decimal.IsNumeral text.toList) (hzero : text.toList.head? ≠ some '0')
    (hlong : Decimal.digitLimit < text.length) : readIntBits (.text text) = .error .tooLongText := by
  obtain ⟨hne, hdigits⟩ := h
  rw [← String.length_toList] at hlong
  have hplain : IntegerText.readPlain text.toList = .error .tooLong := by
    generalize text.toList = cs at hne hdigits hzero hlong
    have hall : cs.takeWhile Char.isDigit = cs := List.takeWhile_eq_self_iff.mpr hdigits
    have hread : IntegerText.readDigits cs = .error .tooLong := by
      have hsingle : cs ≠ ['0'] := fun h => hzero (by rw [h]; rfl)
      simp [IntegerText.readDigits, hall, hsingle, hne, hzero, hlong]
    unfold IntegerText.readPlain
    split
    · exact absurd (hdigits '-' List.mem_cons_self) (by decide)
    · rw [hread]
      rfl
  simp [readIntBits, readInteger, IntegerText.read_of_tooLong hplain]

theorem isBlank_of_isDigit (h : x.isDigit = true) : Text.isBlank x = false := by
  obtain ⟨hlow, hhigh⟩ := Char.isDigit_iff_toNat.mp h
  have hzero : '0'.toNat = 48 := rfl
  have hnine : '9'.toNat = 57 := rfl
  simp [Text.isBlank, Text.isWhite]
  omega

theorem lowerChar_of_isDigit (h : x.isDigit = true) : lowerChar x = x := by
  have hkelvin : x ≠ '\u212A' := by
    rintro rfl
    exact absurd h (by decide)
  have hupper : ¬ ('A'.val ≤ x.val ∧ x.val ≤ 'Z'.val) := by
    rintro ⟨hle, -⟩
    exact absurd (Nat.le_trans (UInt32.le_iff_toNat_le.mp hle) (Char.isDigit_iff_toNat.mp h).2) (by decide)
  rw [lowerChar, if_neg hkelvin]
  exact dif_neg hupper

/-- A numeral in a variable is given as it stands. -/
theorem ofVariable_of_isNumeral (h : Decimal.IsNumeral text.toList) :
    ofVariable text = some (.text text) := by
  obtain ⟨hne, hdigits⟩ := h
  have hstrip : Text.strip Text.isBlank text.toList = text.toList :=
    Text.strip_eq_self (fun x hx => isBlank_of_isDigit (hdigits x (List.mem_of_mem_head? hx)))
      fun x hx => isBlank_of_isDigit (hdigits x (List.mem_of_mem_getLast? hx))
  have hlower : text.toList.map lowerChar = text.toList :=
    (List.map_congr_left fun x hx => lowerChar_of_isDigit (hdigits x hx)).trans (List.map_id' _)
  unfold ofVariable
  rw [hstrip]
  split
  · rename_i hnil
    exact absurd hnil hne
  · rw [hlower, String.ofList_toList]

end IntExpr
