import IntExpr.Text.Printable

/-!
# Quoted — texts as they are shown

Within a message a text stands between quotes, `'` or, where the text holds `'` and no `"`, `"`. The
backslash, the quote in use, and whatever is not printable are escaped, so a quoted text never breaks
a line (`newline_not_mem_quote`).

On a screen, control characters that move the cursor or sound the bell are left out, and a tab fills
its line with spaces up to the next tab stop (`onScreen`).
-/

namespace IntExpr.Text

/-- The quote that needs the fewest escapes. -/
def quoteMark (cs : List Char) : Char :=
  if '\'' ∈ cs ∧ '"' ∉ cs then '"' else '\''

/-- `n` in lower-case hexadecimal, filled up with zeros to `width` digits. -/
def hex (width n : Nat) : List Char :=
  let ds := Nat.toDigits 16 n
  List.replicate (width - ds.length) '0' ++ ds

def escape (mark c : Char) : List Char :=
  if c = '\\' ∨ c = mark then ['\\', c]
  else if c = '\t' then ['\\', 't']
  else if c = '\n' then ['\\', 'n']
  else if c = '\r' then ['\\', 'r']
  else if isPrintable c then [c]
  else if c.toNat < 0x100 then '\\' :: 'x' :: hex 2 c.toNat
  else if c.toNat < 0x10000 then '\\' :: 'u' :: hex 4 c.toNat
  else '\\' :: 'U' :: hex 8 c.toNat

def quote (s : String) : String :=
  let mark := quoteMark s.toList
  String.ofList (mark :: s.toList.flatMap (escape mark) ++ [mark])

/-! ### A quoted text is one line -/

theorem quoteMark_eq (cs : List Char) : quoteMark cs = '\'' ∨ quoteMark cs = '"' := by
  unfold quoteMark; split <;> simp

theorem newline_not_mem_hex (width n : Nat) : '\n' ∉ hex width n := by
  have digit : ∀ d < 16, Nat.digitChar d ≠ '\n' := by decide
  have core : ∀ fuel n ds, '\n' ∉ ds → '\n' ∉ Nat.toDigitsCore 16 fuel n ds := by
    intro fuel
    induction fuel with
    | zero => intro n ds h; simpa [Nat.toDigitsCore] using h
    | succ fuel ih =>
      intro n ds h
      have h' : '\n' ∉ Nat.digitChar (n % 16) :: ds := by
        simp only [List.mem_cons, not_or]; exact ⟨(digit _ (Nat.mod_lt _ (by decide))).symm, h⟩
      rw [Nat.toDigitsCore]; split
      · exact h'
      · exact ih _ _ h'
  simp only [hex, List.mem_append, List.mem_replicate, not_or]
  exact ⟨fun h => absurd h.2 (by decide), core _ _ _ (by simp)⟩

theorem newline_not_mem_escape (mark c : Char) (hm : mark ≠ '\n') : '\n' ∉ escape mark c := by
  have hex' := newline_not_mem_hex
  unfold escape
  split
  · rename_i h
    rcases h with rfl | rfl
    · decide
    · simp [hm.symm]
  repeat' split
  all_goals simp_all
  rintro rfl
  simp_all

theorem newline_not_mem_quote (s : String) : '\n' ∉ (quote s).toList := by
  have hm : quoteMark s.toList ≠ '\n' := by
    rcases quoteMark_eq s.toList with h | h <;> rw [h] <;> decide
  simp only [quote, String.toList_ofList, List.cons_append, List.mem_cons, List.mem_append,
    List.mem_flatMap, List.not_mem_nil, or_false, not_or, not_exists, not_and]
  exact ⟨hm.symm, fun c _ => newline_not_mem_escape _ c hm, hm.symm⟩

/-! ### On a screen -/

def tabWidth : Nat := 8

/-- The control characters that a screen does not show: bell, backspace, vertical tab, form feed and
carriage return. -/
def isUnshown (c : Char) : Bool :=
  c = '\x07' || c = '\x08' || c = '\x0b' || c = '\x0c' || c = '\r'

def toTabStop (column : Nat) : Nat := tabWidth - column % tabWidth

/-- What is shown of the characters `cs`, the first of which stands in this column. -/
def shownFrom (column : Nat) : List Char → List Char
  | [] => []
  | c :: cs =>
    if c = '\n' then '\n' :: shownFrom 0 cs
    else if c = '\t' then
      List.replicate (toTabStop column) ' ' ++ shownFrom (column + toTabStop column) cs
    else if isUnshown c then shownFrom column cs
    else c :: shownFrom (column + 1) cs

/-- A text as it is shown. -/
def onScreen (s : String) : String := String.ofList (shownFrom 0 s.toList)

end IntExpr.Text
