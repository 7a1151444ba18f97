import IntExpr.Expr.Parser
import IntExpr.Proofs.Scan

/-!
# TokenParser — the parser on a list of tokens

The procedures of the grammar once more, on a list of tokens instead of a cursor: nothing is drawn, and
what is left of the text is a list.  This is the form that the theorems about the parser open; that the
parser of the program does the same is `parse_eq`.

Where the tokens are not in the grammar, `Halt` holds those from the first unacceptable one on, and it
holds none where one more token is wanted than there are.
-/

namespace IntExpr

/-- What the grammar wanted where a parse stopped. -/
inductive Reason where
  | operandExpected
  /-- The parenthesis that was opened at this offset had to be closed. -/
  | closingExpected (openPos : Nat)
  | endExpected
  /-- One parenthesis more than the limit was opened. -/
  | tooDeep
  deriving DecidableEq, Repr

/-- Why a parse stopped, and the tokens from the one that stopped it on. -/
structure Halt where
  reason : Reason
  rest : List Token
  deriving DecidableEq, Repr

/-- A tree and the tokens after it, which are fewer than `n`. -/
structure Parsed (n : Nat) where
  expr : Expr
  rest : List Token
  shorter : rest.length < n

/-! ### Signs and parentheses -/

/-- The number of minus signs in front of an operand, added to `minuses`, and what follows the
signs. -/
def signs (minuses : Nat) : List Token → Nat × List Token
  | ⟨.op .sub, _⟩ :: rest => signs (minuses + 1) rest
  | ⟨.op .add, _⟩ :: rest => signs minuses rest
  | ts => (minuses, ts)

theorem length_signs_le (minuses : Nat) (ts : List Token) :
    (signs minuses ts).2.length ≤ ts.length := by
  fun_induction signs minuses ts with
  | case1 minuses pos rest ih => exact Nat.le_succ_of_le ih
  | case2 minuses pos rest ih => exact Nat.le_succ_of_le ih
  | case3 minuses ts => exact Nat.le_refl _

/-- Take the parenthesis that closes the one opened at `openPos`, after the tree between them. -/
def closeParen {n : Nat} (openPos : Nat) (inner : Expr) (ts : List Token)
    (shorter : ts.length < n) : Except Halt (Parsed (n + 1)) :=
  match ts with
  | ⟨.rightParen, _⟩ :: rest =>
    .ok ⟨inner, rest, Nat.lt_succ_of_lt (Nat.lt_of_succ_lt shorter)⟩
  | ts => .error ⟨.closingExpected openPos, ts⟩

/-! ### The grammar -/

mutual

/-- A chain of a level; `room` is the number of parentheses that may still be opened. -/
def chain (a : Associativity) (level : Level) (room : Nat) (ts : List Token) :
    Except Halt (Parsed ts.length) :=
  match operand a level room ts with
  | .error h => .error h
  | .ok p => chainLinks a level room p.expr [] p.rest p.shorter
termination_by (ts.length, 2 * level.rank + 1)
decreasing_by
  · exact Prod.Lex.right _ (Nat.lt_succ_self _)
  · exact Prod.Lex.left _ _ p.shorter

/-- The rest of a chain, of which the first operand and, in reverse, some links are found. -/
def chainLinks {n : Nat} (a : Associativity) (level : Level) (room : Nat) (first : Expr)
    (found : List (BinOp × Expr)) (ts : List Token) (shorter : ts.length < n) :
    Except Halt (Parsed n) :=
  match ts with
  | ⟨.op op, pos⟩ :: rest =>
    if op.level = level then
      match operand a level room rest with
      | .error h => .error h
      | .ok p => chainLinks a level room first ((op, p.expr) :: found) p.rest
          (Nat.lt_trans (Nat.lt_succ_of_lt p.shorter) shorter)
    else .ok ⟨group a level first found.reverse, ⟨.op op, pos⟩ :: rest, shorter⟩
  | ts => .ok ⟨group a level first found.reverse, ts, shorter⟩
termination_by (ts.length, 0)
decreasing_by
  · exact Prod.Lex.left _ _ (Nat.lt_succ_self _)
  · exact Prod.Lex.left _ _ (Nat.lt_succ_of_lt p.shorter)

def operand (a : Associativity) (level : Level) (room : Nat) (ts : List Token) :
    Except Halt (Parsed ts.length) :=
  match level with
  | .sum => chain a .product room ts
  | .product => chain a .power room ts
  | .power => factor a room ts
termination_by (ts.length, 2 * level.rank)
decreasing_by all_goals exact Prod.Lex.right _ (by decide)

def factor (a : Associativity) (room : Nat) (ts : List Token) : Except Halt (Parsed ts.length) :=
  match primary a room (signs 0 ts).2 with
  | .error h => .error h
  | .ok p => .ok ⟨.negateTimes (signs 0 ts).1 p.expr, p.rest,
      Nat.lt_of_lt_of_le p.shorter (length_signs_le 0 ts)⟩
termination_by (ts.length, 1)
decreasing_by
  rcases Nat.lt_or_eq_of_le (length_signs_le 0 ts) with h | h
  · exact Prod.Lex.left _ _ h
  · rw [h]; exact Prod.Lex.right _ Nat.zero_lt_one

/-- A number, or a sum in parentheses. -/
def primary (a : Associativity) (room : Nat) (ts : List Token) : Except Halt (Parsed ts.length) :=
  match ts with
  | ⟨.number digits, _⟩ :: rest => .ok ⟨.literal digits, rest, Nat.lt_succ_self _⟩
  | ⟨.leftParen, pos⟩ :: rest =>
    match room with
    | 0 => .error ⟨.tooDeep, ⟨.leftParen, pos⟩ :: rest⟩
    | room + 1 =>
      match chain a .sum room rest with
      | .error h => .error h
      | .ok p => closeParen pos p.expr p.rest p.shorter
  | ts => .error ⟨.operandExpected, ts⟩
termination_by (ts.length, 0)

end

def parseTokens (limit : Nat) (a : Associativity) (ts : List Token) : Except Halt Expr :=
  match chain a .sum limit ts with
  | .error h => .error h
  | .ok p =>
    match p.rest.dropWhile (·.symbol = .newline) with
    | ⟨.finish, _⟩ :: _ => .ok p.expr
    | rest => .error ⟨.endExpected, rest⟩

/-- What is left of a text after its newlines, if it is the end. -/
def endOf : List Token → Except Halt Unit
  | ⟨.finish, _⟩ :: _ => .ok ()
  | rest => .error ⟨.endExpected, rest⟩

theorem parseTokens_of_chain {limit : Nat} {a : Associativity} {ts : List Token} {p : Parsed ts.length}
    (hc : chain a .sum limit ts = .ok p) :
    parseTokens limit a ts = (endOf (p.rest.dropWhile (·.symbol = .newline))).map fun _ => p.expr := by
  rw [parseTokens, hc]
  dsimp only
  generalize p.rest.dropWhile (·.symbol = .newline) = us
  cases us with
  | nil => rfl
  | cons t us =>
    obtain ⟨symbol, pos⟩ := t
    cases symbol <;> rfl

/-- The tree `e` of a text of which the tokens `ts` are left, which have to be newlines and the end. -/
def afterNewlines (e : Expr) (ts : List Token) : Except Halt (Expr × List Token) :=
  let rest := ts.dropWhile (·.symbol = .newline)
  (endOf rest).map fun _ => (e, rest)

theorem parseTokens_eq (limit : Nat) (a : Associativity) (ts : List Token) :
    parseTokens limit a ts =
      ((chain a .sum limit ts).bind fun p => afterNewlines p.expr p.rest).map Prod.fst := by
  cases hc : chain a .sum limit ts with
  | error h =>
    rw [parseTokens, hc]
    rfl
  | ok p =>
    rw [parseTokens_of_chain hc]
    show _ = (afterNewlines p.expr p.rest).map Prod.fst
    unfold afterNewlines
    dsimp only
    cases endOf (p.rest.dropWhile (·.symbol = .newline)) <;> rfl

theorem afterNewlines_newline (e : Expr) (pos : Nat) (ts : List Token) :
    afterNewlines e (⟨.newline, pos⟩ :: ts) = afterNewlines e ts := rfl

theorem afterNewlines_refused {ts : List Token} (hnewline : ∀ pos us, ts ≠ ⟨.newline, pos⟩ :: us)
    (hfinish : ∀ pos us, ts ≠ ⟨.finish, pos⟩ :: us) (e : Expr) :
    afterNewlines e ts = .error ⟨.endExpected, ts⟩ := by
  have hdrop : ts.dropWhile (·.symbol = .newline) = ts := by
    cases ts with
    | nil => rfl
    | cons t ts =>
      refine List.dropWhile_cons_of_neg fun hnew => ?_
      exact hnewline t.pos ts (by rw [← of_decide_eq_true hnew])
  have hend : endOf ts = .error ⟨.endExpected, ts⟩ := by
    unfold endOf
    split
    · exact absurd rfl (hfinish _ _)
    · rfl
  rw [afterNewlines, hdrop, hend]
  rfl

theorem rest_ne_nil_of_afterNewlines {e e' : Expr} {ts rest : List Token}
    (h : afterNewlines e ts = .ok (e', rest)) :
    rest ≠ [] := by
  unfold afterNewlines at h
  dsimp only at h
  cases hrest : ts.dropWhile (·.symbol = .newline) with
  | nil =>
    rw [hrest] at h
    cases h
  | cons t us =>
    rw [hrest] at h
    cases hend : endOf (t :: us) with
    | error halt =>
      rw [hend] at h
      cases h
    | ok u =>
      rw [hend] at h
      cases h
      exact List.cons_ne_nil t us

def Parsed.toPair {n : Nat} (p : Parsed n) : Expr × List Token := (p.expr, p.rest)

/-- Whatever is found may be found with another tree. -/
theorem factor_toPair (a : Associativity) (room : Nat) (ts : List Token) :
    (factor a room ts).map Parsed.toPair =
      ((primary a room (signs 0 ts).2).map Parsed.toPair).map fun p => (.negateTimes (signs 0 ts).1 p.1, p.2) := by
  rw [factor]
  cases primary a room (signs 0 ts).2 <;> rfl

theorem chain_eq_bind (a : Associativity) (level : Level) (room : Nat) (ts : List Token) :
    chain a level room ts = (operand a level room ts).bind fun p =>
      chainLinks a level room p.expr [] p.rest p.shorter := by
  rw [chain]
  cases operand a level room ts <;> rfl

theorem chainLinks_eq_bind {n : Nat} (a : Associativity) (room : Nat) (first : Expr)
    (found : List (BinOp × Expr)) (op : BinOp) (pos : Nat) (ts : List Token)
    (shorter : ts.length + 1 < n) :
    chainLinks a op.level room first found (⟨.op op, pos⟩ :: ts) shorter =
      (operand a op.level room ts).bind fun p => chainLinks a op.level room first ((op, p.expr) :: found)
        p.rest (Nat.lt_trans (Nat.lt_succ_of_lt p.shorter) shorter) := by
  rw [chainLinks, if_pos rfl]
  cases operand a op.level room ts <;> rfl

/-! ### What follows does not belong to it -/

section Ends

variable {a : Associativity} {level : Level} {room n : Nat} {first : Expr} {ts : List Token}

theorem chainLinks_end (hne : ∀ o pos us, ts = ⟨.op o, pos⟩ :: us → o.level ≠ level)
    (found : List (BinOp × Expr)) (shorter : ts.length < n) :
    chainLinks a level room first found ts shorter =
      .ok ⟨group a level first found.reverse, ts, shorter⟩ := by
  rw [chainLinks.eq_def]
  split
  · rw [if_neg (hne _ _ _ rfl)]
  · rfl

theorem signs_end (hne : ∀ o pos us, ts = ⟨.op o, pos⟩ :: us → o.level ≠ .sum) (minuses : Nat) :
    signs minuses ts = (minuses, ts) := by
  cases ts with
  | nil => rfl
  | cons t ts =>
    obtain ⟨symbol, pos⟩ := t
    cases symbol with
    | op o =>
      cases o with
      | add | sub => exact absurd rfl (hne _ pos ts rfl)
      | mul | div | mod | pow => rfl
    | number | leftParen | rightParen | newline | finish => rfl

theorem primary_refused (hnumber : ∀ digits pos us, ts ≠ ⟨.number digits, pos⟩ :: us)
    (hopen : ∀ pos us, ts ≠ ⟨.leftParen, pos⟩ :: us) (a : Associativity) (room : Nat) :
    primary a room ts = .error ⟨.operandExpected, ts⟩ := by
  rw [primary.eq_def]
  split
  · exact absurd rfl (hnumber _ _ _)
  · exact absurd rfl (hopen _ _)
  · rfl

theorem closeParen_refused (hclose : ∀ pos us, ts ≠ ⟨.rightParen, pos⟩ :: us) (openPos : Nat) (e : Expr)
    (shorter : ts.length < n) :
    closeParen openPos e ts shorter = .error ⟨.closingExpected openPos, ts⟩ := by
  unfold closeParen
  split
  · exact absurd rfl (hclose _ _)
  · rfl

end Ends

/-! ### Errors -/

/-- The error of a parse that stopped at `found`; one that is nested too deeply stops behind the
parenthesis that is too many. -/
def Reason.error (found : Token) : Reason → ParseError
  | .operandExpected => .operandExpected found
  | .closingExpected openPos => .closingExpected openPos found
  | .endExpected => .endExpected found
  | .tooDeep => .tooDeep found

/-- The error of a parse that stopped at a character that is not let past. -/
def Reason.errorAt (c : Located) : Reason → ParseError
  | .tooDeep => .escaped c
  | _ => .rejected c

/-- The tokens from the one on that an error points at. -/
def Halt.shown (h : Halt) : List Token :=
  match h.reason with
  | .tooDeep => h.rest.tail
  | _ => h.rest

/-- The error of a halt in a scan of a text of `length` characters. What follows the last token is the
character that ended the scan, or else the end of the text. -/
def Halt.error (s : Scan) (length : Nat) (h : Halt) : ParseError :=
  match h.shown, s.rejected with
  | [], some c => h.reason.errorAt c
  | ts, _ => h.reason.error (ts.head?.getD ⟨.finish, length⟩)

theorem Halt.shown_of_ne {h : Halt} (hne : h.reason ≠ .tooDeep) : h.shown = h.rest := by
  obtain ⟨reason, rest⟩ := h
  cases reason with
  | tooDeep => exact absurd rfl hne
  | operandExpected | closingExpected | endExpected => rfl

theorem Reason.errorAt_of_ne {reason : Reason} (hne : reason ≠ .tooDeep) (c : Located) :
    reason.errorAt c = .rejected c := by
  cases reason with
  | tooDeep => exact absurd rfl hne
  | operandExpected | closingExpected | endExpected => rfl

theorem Halt.error_of_shown {h : Halt} {t : Token} {us : List Token} (hshown : h.shown = t :: us)
    (s : Scan) (length : Nat) : h.error s length = h.reason.error t := by
  rw [Halt.error, hshown]
  rfl

theorem Halt.error_of_rejected {h : Halt} {s : Scan} {c : Located} (hshown : h.shown = [])
    (hrejected : s.rejected = some c) (length : Nat) : h.error s length = h.reason.errorAt c := by
  rw [Halt.error, hshown, hrejected]

theorem Halt.error_of_complete (h : Halt) {s : Scan} (hcomplete : s.rejected = none) (length : Nat) :
    h.error s length = h.reason.error (h.shown.head?.getD ⟨.finish, length⟩) := by
  rw [Halt.error, hcomplete]
  cases h.shown <;> rfl

end IntExpr
