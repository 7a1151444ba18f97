/-!
# Blank — white space at the ends of a text

Two character classes: `isWhite`, the Unicode property `White_Space`, and the wider `isBlank`, which
adds the four information separators. `strip` cuts a class from both ends of a text.
-/

namespace IntExpr.Text

/-- The Unicode property `White_Space`. -/
def isWhite (c : Char) : Bool :=
  let n := c.toNat
  (9 ≤ n && n ≤ 13) || n = 0x20 || n = 0x85 || n = 0xA0 || n = 0x1680 ||
    (0x2000 ≤ n && n ≤ 0x200A) || n = 0x2028 || n = 0x2029 || n = 0x202F || n = 0x205F || n = 0x3000

/-- White space, or one of the information separators U+001C to U+001F. -/
def isBlank (c : Char) : Bool :=
  isWhite c || (0x1C ≤ c.toNat && c.toNat ≤ 0x1F)

/-- The characters that are left when the longest runs of `p` at both ends are cut. -/
def strip (p : Char → Bool) (cs : List Char) : List Char :=
  ((cs.dropWhile p).reverse.dropWhile p).reverse

/-! ### What `strip` leaves -/

variable {p : Char → Bool} {c : Char} {cs : List Char}

theorem isWhite_eq_false_of_isBlank (h : isBlank c = false) : isWhite c = false :=
  (Bool.or_eq_false_iff.mp h).1

theorem strip_eq_self (hd : ∀ c ∈ cs.head?, p c = false)
    (tl : ∀ c ∈ cs.getLast?, p c = false) : strip p cs = cs := by
  have cut : ∀ l : List Char, (∀ c ∈ l.head?, p c = false) → l.dropWhile p = l
    | [], _ => rfl
    | c :: l, h => by simp [h c (by simp)]
  rw [strip, cut cs hd, cut cs.reverse (by simpa using tl), List.reverse_reverse]

theorem not_of_head?_strip (h : c ∈ (strip p cs).head?) : p c = false := by
  obtain ⟨front, hfront⟩ := List.dropWhile_suffix p (l := (cs.dropWhile p).reverse)
  have hall : c ∈ (cs.dropWhile p).reverse.getLast? := by
    rw [strip, List.head?_reverse] at h
    rw [← hfront, List.getLast?_append, h]
    rfl
  rw [List.getLast?_reverse] at hall
  have hnot := List.head?_dropWhile_not p cs
  rw [hall] at hnot
  exact Bool.eq_false_iff.mpr (by simpa using hnot)

theorem not_of_getLast?_strip (h : c ∈ (strip p cs).getLast?) : p c = false := by
  rw [strip, List.getLast?_reverse] at h
  have hnot := List.head?_dropWhile_not p (cs.dropWhile p).reverse
  rw [h] at hnot
  exact Bool.eq_false_iff.mpr (by simpa using hnot)

end IntExpr.Text
