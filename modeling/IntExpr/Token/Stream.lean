import IntExpr.Token.Lexer

/-!
# Stream — a cursor over the tokens of a text

The next token can be looked at (`peek`), taken (`advance`), or taken with all that follow
(`drain`). Tokens are drawn from the text when they are wanted: the cursor keeps the one token that
was looked at, and nothing behind it has been read. The end of the text is never used up. A
character that is not let past is reported once, and from then on the text is at its end.
-/

namespace IntExpr

/-- A cursor over the tokens of a text. -/
structure TokenStream where
  policy : UnknownCharacters
  length : Nat
  /-- The offset from which the text is still to be read and the characters from there; `none` once
  the end or a rejected character was met. -/
  next : Option (Nat × List Char)
  /-- The token that was looked at and not taken. -/
  current : Option Token := none
  /-- The characters that were passed over so far, in order. -/
  passed : List Located := []
  deriving DecidableEq, Repr

namespace TokenStream

def ofSource (policy : UnknownCharacters) (source : String) : TokenStream :=
  { policy, length := source.length, next := some (0, source.toList) }

/-- The next token. -/
def peek (s : TokenStream) : Except Located Token × TokenStream :=
  match s.current, s.next with
  | some t, _ => (.ok t, s)
  | none, none => (.ok ⟨.finish, s.length⟩, { s with current := some ⟨.finish, s.length⟩ })
  | none, some (i, cs) =>
    let d := draw s.policy i cs
    (d.found, { s with next := d.next, current := d.found.toOption, passed := s.passed ++ d.passed })

/-- The next token, which is taken unless it is the end. -/
def advance (s : TokenStream) : Except Located Token × TokenStream :=
  match s.peek with
  | (.ok t, s) => (.ok t, if t.symbol = .finish then s else { s with current := none })
  | (.error c, s) => (.error c, s)

/-! ### What is left -/

variable {s s' : TokenStream} {t : Token} {r : Except Located Token}

def leftOf (current : Option Token) (next : Option (Nat × List Char)) : Nat :=
  (current.map fun t => if t.symbol = .finish then 0 else 1).getD 0 + (next.map (·.2.length)).getD 0

/-- How much of a text is left. -/
def left (s : TokenStream) : Nat := leftOf s.current s.next

theorem leftOf_some_le (t : Token) (next : Option (Nat × List Char)) :
    leftOf (some t) next ≤ leftOf none next + 1 := by
  simp only [leftOf, Option.map_some, Option.map_none, Option.getD_some, Option.getD_none]
  split <;> omega

/-- To draw a token takes the one character at least that it counts for. -/
theorem leftOf_draw_le (policy : UnknownCharacters) (i : Nat) (cs : List Char) :
    leftOf (draw policy i cs).found.toOption (draw policy i cs).next ≤ cs.length := by
  fun_induction draw policy i cs with
  | case1 i => exact Nat.le_refl 0
  | case2 i c cs hsep ih => exact Nat.le_succ_of_le ih
  | case3 i c cs hsep hdigit more =>
    have hrest : (cs.dropWhile Char.isDigit).length ≤ cs.length :=
      (List.dropWhile_suffix _).length_le
    exact Nat.le_trans (leftOf_some_le _ _) (by simpa [leftOf] using hrest)
  | case4 i c cs hsep hdigit s hs => exact Nat.le_trans (leftOf_some_le _ _) (by simp [leftOf])
  | case5 i c cs hsep hdigit hs hpolicy ih =>
    subst hpolicy
    exact Nat.le_succ_of_le ih
  | case6 i c cs hsep hdigit hs hpolicy => exact Nat.zero_le _

theorem left_of_peek_le (h : s.peek = (r, s')) : s'.left ≤ s.left := by
  obtain rfl := congrArg Prod.snd h
  obtain ⟨policy, n, next, current, passed⟩ := s
  rcases current with _ | u
  · rcases next with _ | ⟨i, cs⟩
    · exact Nat.le_refl 0
    · exact Nat.le_trans (leftOf_draw_le policy i cs) (by simp [left, leftOf])
  · exact Nat.le_refl _

theorem current_of_peek (h : s.peek = (.ok t, s')) : s'.current = some t := by
  obtain ⟨hfound, rfl⟩ := Prod.mk.inj h
  revert hfound
  obtain ⟨policy, n, next, current, passed⟩ := s
  rcases current with _ | u
  · rcases next with _ | ⟨i, cs⟩
    · exact fun hfound => congrArg some (Except.ok.inj hfound)
    · exact fun hfound => congrArg Except.toOption hfound
  · exact fun hfound => congrArg some (Except.ok.inj hfound)

/-- To look again gives the same token and changes nothing. -/
theorem peek_of_current (h : s.current = some t) : s.peek = (.ok t, s) := by
  simp [peek, h]

theorem advance_of_current (h : s.current = some t) (ht : t.symbol ≠ .finish) :
    s.advance = (.ok t, { s with current := none }) := by
  simp [advance, peek_of_current h, ht]

/-- To take a token that was looked at takes something. -/
theorem left_taken_lt (h : s.peek = (.ok t, s')) (ht : t.symbol ≠ .finish) :
    s'.advance.2.left < s.left := by
  have hcurrent := current_of_peek h
  have hle := left_of_peek_le h
  rw [advance_of_current hcurrent ht]
  simp only [left, leftOf, hcurrent] at hle ⊢
  simp [ht] at hle ⊢
  omega

theorem left_advance_lt (h : s.advance = (.ok t, s')) (ht : t.symbol ≠ .finish) :
    s'.left < s.left := by
  unfold advance at h
  split at h
  · next u s₁ hpeek =>
    obtain ⟨hu, rfl⟩ := Prod.mk.inj h
    obtain rfl := Except.ok.inj hu
    have hlt := left_taken_lt hpeek ht
    rw [advance_of_current (current_of_peek hpeek) ht] at hlt
    rwa [if_neg ht]
  · cases h

def drain (s : TokenStream) : Except Located (List Token) × TokenStream :=
  match _h : s.advance with
  | (.error c, s) => (.error c, s)
  | (.ok t, s) =>
    if t.symbol = .finish then (.ok [t], s)
    else
      match drain s with
      | (.error c, s) => (.error c, s)
      | (.ok ts, s) => (.ok (t :: ts), s)
termination_by s.left
decreasing_by exact left_advance_lt _h ‹_›

end TokenStream

/-- The tokens of a text, or the first character that is not let past. -/
def tokenize (policy : UnknownCharacters) (source : String) : Except Located (List Token) :=
  (TokenStream.ofSource policy source).drain.1

end IntExpr
