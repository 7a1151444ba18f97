import IntExpr.Proofs.ParserComplete
import Mathlib.Logic.Relation

/-!
# Descent — every procedure of the parser ends

The parser again, without a word on why it comes to an end: each procedure, each turn of a loop and the whole
text is a `Call`, and `Call.body` says of a call which calls it makes and how it goes on with what they find.
Bodies can be written down for a parser that runs forever.  `Ends` is what comes of a call, if it ends, and
`Calls` are the calls that it makes on the way.

* `outcome_body`: the parser's own procedures do what the bodies say.
* `calls_lt`: what is called has fewer tokens in front of it, or the same ones and a lower place in the grammar.
* `ends_iff`: so every call ends, with the outcome that the parser has for it.
* `length_lt_of_transGen_calls`: no procedure and no loop comes back to itself before a token was taken.
-/

namespace IntExpr

/-! ### Calls -/

/-- What comes of a call: a tree and the tokens after it, or a halt. -/
abbrev Finding := Except Halt (Expr × List Token)

/-- The procedures of the grammar: one for each phrase, and one for what follows the signs of a factor. -/
inductive Procedure where
  | phrase (ph : Phrase)
  | primary
  deriving DecidableEq, Repr

/-- A call of a procedure, or a turn of a loop. -/
inductive Call where
  | procedure (p : Procedure) (room : Nat) (ts : List Token)
  /-- A turn of the loop over the links of a chain. -/
  | link (level : Level) (room : Nat) (first : Expr) (found : List (BinOp × Expr)) (ts : List Token)
  | sign (minuses room : Nat) (ts : List Token)
  | text (limit : Nat) (ts : List Token)
  /-- A turn of the loop over the newlines after the tree of a text. -/
  | newline (e : Expr) (ts : List Token)

/-- What a call does: it is done, or it calls for a tree and goes on with it and the tokens after it.  Where
the other call halts, so does this one. -/
inductive Body where
  | done (r : Finding)
  | call (c : Call) (next : Expr → List Token → Body)

/-- The next turn of a loop, and nothing after it. -/
def Body.turn (c : Call) : Body := .call c fun e rest => .done (.ok (e, rest))

/-- The calls that a call makes. -/
def Call.body (a : Associativity) : Call → Body
  | .procedure (.phrase (.chain level)) room ts =>
    .call (.procedure (.phrase level.joined) room ts) fun first rest => .turn (.link level room first [] rest)
  | .procedure (.phrase .factor) room ts => .turn (.sign 0 room ts)
  | .procedure .primary room ts =>
    match ts, room with
    | ⟨.number digits, _⟩ :: rest, _ => .done (.ok (.literal digits, rest))
    | ⟨.leftParen, pos⟩ :: rest, 0 => .done (.error ⟨.tooDeep, ⟨.leftParen, pos⟩ :: rest⟩)
    | ⟨.leftParen, pos⟩ :: rest, room + 1 =>
      .call (.procedure (.phrase (.chain .sum)) room rest) fun e after =>
        match after with
        | ⟨.rightParen, _⟩ :: after => .done (.ok (e, after))
        | after => .done (.error ⟨.closingExpected pos, after⟩)
    | ts, _ => .done (.error ⟨.operandExpected, ts⟩)
  | .link level room first found ts =>
    match ts with
    | ⟨.op o, pos⟩ :: rest =>
      if o.level = level then
        .call (.procedure (.phrase level.joined) room rest) fun e after =>
          .turn (.link level room first ((o, e) :: found) after)
      else .done (.ok (group a level first found.reverse, ⟨.op o, pos⟩ :: rest))
    | ts => .done (.ok (group a level first found.reverse, ts))
  | .sign minuses room ts =>
    match ts with
    | ⟨.op .sub, _⟩ :: rest => .turn (.sign (minuses + 1) room rest)
    | ⟨.op .add, _⟩ :: rest => .turn (.sign minuses room rest)
    | ts => .call (.procedure .primary room ts) fun e rest => .done (.ok (.negateTimes minuses e, rest))
  | .text limit ts => .call (.procedure (.phrase (.chain .sum)) limit ts) fun e rest => .turn (.newline e rest)
  | .newline e ts =>
    match ts with
    | ⟨.newline, _⟩ :: rest => .turn (.newline e rest)
    | ⟨.finish, pos⟩ :: rest => .done (.ok (e, ⟨.finish, pos⟩ :: rest))
    | ts => .done (.error ⟨.endExpected, ts⟩)

/-- What comes of a body, if it ends. -/
inductive Body.Runs (a : Associativity) : Body → Finding → Prop
  | done {r : Finding} : Runs a (.done r) r
  | halt {c : Call} {next : Expr → List Token → Body} {h : Halt} :
    Runs a (c.body a) (.error h) → Runs a (.call c next) (.error h)
  | call {c : Call} {next : Expr → List Token → Body} {e : Expr} {rest : List Token} {r : Finding} :
    Runs a (c.body a) (.ok (e, rest)) → Runs a (next e rest) r → Runs a (.call c next) r

/-- A body comes to the call `c`. -/
inductive Body.Reaches (a : Associativity) (c : Call) : Body → Prop
  | here {next : Expr → List Token → Body} : Reaches a c (.call c next)
  | after {d : Call} {next : Expr → List Token → Body} {e : Expr} {rest : List Token} :
    Runs a (d.body a) (.ok (e, rest)) → Reaches a c (next e rest) → Reaches a c (.call d next)

/-- The call ends with this outcome. -/
def Ends (a : Associativity) (c : Call) (r : Finding) : Prop := (c.body a).Runs a r

def Calls (a : Associativity) (c d : Call) : Prop := (c.body a).Reaches a d

variable {a : Associativity} {c d : Call} {p : Procedure} {level : Level} {room n : Nat}
  {ts rest : List Token} {e : Expr} {r : Finding} {b : Body}

/-! ### Bodies of the turns of a loop -/

theorem starts_or (level : Level) (ts : List Token) :
    (∃ o pos us, ts = ⟨.op o, pos⟩ :: us ∧ o.level = level) ∨
      ∀ o pos us, ts = ⟨.op o, pos⟩ :: us → o.level ≠ level := by
  by_cases hstarts : ∃ o pos us, ts = ⟨.op o, pos⟩ :: us ∧ o.level = level
  · exact .inl hstarts
  · exact .inr fun o pos us hts ho => hstarts ⟨o, pos, us, hts, ho⟩

theorem body_link (o : BinOp) (pos room : Nat) (first : Expr) (found : List (BinOp × Expr))
    (rest : List Token) : (Call.link o.level room first found (⟨.op o, pos⟩ :: rest)).body a =
      .call (.procedure (.phrase o.level.joined) room rest) fun e after =>
        .turn (.link o.level room first ((o, e) :: found) after) :=
  if_pos rfl

theorem body_link_end (hne : ∀ o pos us, ts = ⟨.op o, pos⟩ :: us → o.level ≠ level) (room : Nat)
    (first : Expr) (found : List (BinOp × Expr)) : (Call.link level room first found ts).body a =
      .done (.ok (group a level first found.reverse, ts)) := by
  cases ts with
  | nil => rfl
  | cons t ts =>
    obtain ⟨symbol, pos⟩ := t
    cases symbol with
    | op o => exact if_neg (hne o pos ts rfl)
    | number | leftParen | rightParen | newline | finish => rfl

theorem body_sign_end (hne : ∀ o pos us, ts = ⟨.op o, pos⟩ :: us → o.level ≠ .sum) (minuses room : Nat) :
    (Call.sign minuses room ts).body a = .call (.procedure .primary room ts)
      fun e rest => .done (.ok (.negateTimes minuses e, rest)) := by
  cases ts with
  | nil => rfl
  | cons t ts =>
    obtain ⟨symbol, pos⟩ := t
    cases symbol with
    | op o =>
      cases o with
      | add | sub => exact absurd rfl (hne _ pos ts rfl)
      | mul | div | mod | pow => rfl
    | number | leftParen | rightParen | newline | finish => rfl

/-! ### The outcome that the parser has for a call -/

/-- What a procedure makes of the tokens in front of it. -/
def Procedure.parsed (a : Associativity) (room : Nat) (ts : List Token) :
    Procedure → Except Halt (Parsed ts.length)
  | .phrase (.chain level) => chain a level room ts
  | .phrase .factor => factor a room ts
  | .primary => IntExpr.primary a room ts

/-- The outcome of a procedure. -/
def Procedure.parse (a : Associativity) (room : Nat) (ts : List Token) (p : Procedure) : Finding :=
  (p.parsed a room ts).map Parsed.toPair

theorem length_lt_succ (ts : List Token) : ts.length < ts.length + 1 := Nat.lt_succ_self _

def Call.outcome (a : Associativity) : Call → Finding
  | .procedure p room ts => p.parse a room ts
  | .link level room first found ts =>
    (chainLinks a level room first found ts (length_lt_succ ts)).map Parsed.toPair
  | .sign minuses room ts =>
    (primary a room (signs minuses ts).2).map fun q => (.negateTimes (signs minuses ts).1 q.expr, q.rest)
  | .text limit ts =>
    ((chain a .sum limit ts).map Parsed.toPair).bind fun q => afterNewlines q.1 q.2
  | .newline e ts => afterNewlines e ts

/-- The outcome of a body, its calls having the outcomes that the parser has for them. -/
def Body.outcome (a : Associativity) : Body → Finding
  | .done r => r
  | .call c next => (c.outcome a).bind fun q => (next q.1 q.2).outcome a

theorem Body.outcome_turn (c : Call) : (Body.turn c).outcome a = c.outcome a := by
  show (c.outcome a).bind _ = c.outcome a
  cases c.outcome a <;> rfl

theorem parse_joined (level : Level) :
    (Procedure.phrase level.joined).parse a room ts = (operand a level room ts).map Parsed.toPair := by
  rw [operand.eq_def]
  cases level <;> rfl

/-- The bound on the number of tokens has no part in what is found. -/
theorem chainLinks_toPair {m : Nat} {first : Expr} (found : List (BinOp × Expr)) (h : ts.length < n)
    (h' : ts.length < m) : (chainLinks a level room first found ts h).map Parsed.toPair =
      (chainLinks a level room first found ts h').map Parsed.toPair := by
  induction hlen : ts.length using Nat.strongRecOn generalizing ts found with
  | _ k ih =>
    subst hlen
    rcases starts_or level ts with ⟨o, pos, us, rfl, rfl⟩ | hne
    · rw [chainLinks, chainLinks, if_pos rfl, if_pos rfl]
      cases operand a o.level room us with
      | error halt => rfl
      | ok q => exact ih q.rest.length (Nat.lt_succ_of_lt q.shorter) _ _ _ rfl
    · rw [chainLinks_end hne, chainLinks_end hne]
      rfl

theorem outcome_body_chain (level : Level) (room : Nat) (ts : List Token) :
    ((Call.procedure (.phrase (.chain level)) room ts).body a).outcome a =
      (chain a level room ts).map Parsed.toPair := by
  show ((Procedure.phrase level.joined).parse a room ts).bind _ = _
  rw [parse_joined, chain]
  cases operand a level room ts with
  | error h => rfl
  | ok q => exact (Body.outcome_turn _).trans (chainLinks_toPair _ _ _)

theorem outcome_body_factor (room : Nat) (ts : List Token) :
    ((Call.procedure (.phrase .factor) room ts).body a).outcome a =
      (factor a room ts).map Parsed.toPair := by
  refine (Body.outcome_turn _).trans ?_
  show (primary a room (signs 0 ts).2).map _ = _
  rw [factor]
  cases primary a room (signs 0 ts).2 <;> rfl

theorem outcome_body_primary (room : Nat) (ts : List Token) :
    ((Call.procedure .primary room ts).body a).outcome a = (primary a room ts).map Parsed.toPair := by
  cases ts with
  | nil =>
    rw [primary_refused (by simp) (by simp)]
    rfl
  | cons t ts =>
    obtain ⟨symbol, pos⟩ := t
    cases symbol with
    | number digits =>
      rw [primary]
      rfl
    | leftParen =>
      cases room with
      | zero =>
        rw [primary]
        rfl
      | succ room =>
        rw [primary]
        show ((chain a .sum room ts).map Parsed.toPair).bind _ = _
        cases chain a .sum room ts with
        | error h => rfl
        | ok q =>
          obtain ⟨e, rest, shorter⟩ := q
          cases rest with
          | nil => rfl
          | cons t rest =>
            obtain ⟨symbol, close⟩ := t
            cases symbol <;> rfl
    | op | rightParen | newline | finish =>
      rw [primary_refused (by simp) (by simp)]
      rfl

theorem outcome_body_link (first : Expr) (found : List (BinOp × Expr)) (ts : List Token) :
    ((Call.link level room first found ts).body a).outcome a =
      (Call.link level room first found ts).outcome a := by
  show _ = (chainLinks a level room first found ts _).map _
  rcases starts_or level ts with ⟨o, pos, us, rfl, rfl⟩ | hne
  · rw [body_link, chainLinks, if_pos rfl]
    show ((Procedure.phrase o.level.joined).parse a room us).bind _ = _
    rw [parse_joined]
    cases operand a o.level room us with
    | error h => rfl
    | ok q => exact (Body.outcome_turn _).trans (chainLinks_toPair _ _ _)
  · rw [body_link_end hne, chainLinks_end hne]
    rfl

theorem outcome_body_sign (minuses : Nat) (ts : List Token) :
    ((Call.sign minuses room ts).body a).outcome a = (Call.sign minuses room ts).outcome a := by
  rcases starts_or .sum ts with ⟨o, pos, us, rfl, ho⟩ | hne
  · cases o with
    | add | sub => exact Body.outcome_turn _
    | mul | div | mod | pow => cases ho
  · rw [body_sign_end hne]
    show ((primary a room ts).map Parsed.toPair).bind _ = (primary a room (signs minuses ts).2).map _
    rw [signs_end hne]
    cases primary a room ts <;> rfl

theorem outcome_body_newline (e : Expr) (ts : List Token) :
    ((Call.newline e ts).body a).outcome a = afterNewlines e ts := by
  cases ts with
  | nil => rfl
  | cons t ts =>
    obtain ⟨symbol, pos⟩ := t
    cases symbol with
    | newline => exact Body.outcome_turn _
    | number | op | leftParen | rightParen | finish => rfl

/-- **The parser does what the bodies say.** -/
theorem outcome_body (c : Call) : (c.body a).outcome a = c.outcome a := by
  cases c with
  | procedure p room ts =>
    cases p with
    | phrase ph =>
      cases ph with
      | chain level => exact outcome_body_chain level room ts
      | factor => exact outcome_body_factor room ts
    | primary => exact outcome_body_primary room ts
  | link level room first found ts => exact outcome_body_link first found ts
  | sign minuses room ts => exact outcome_body_sign minuses ts
  | text limit ts =>
    show ((chain a .sum limit ts).map Parsed.toPair).bind _ =
      ((chain a .sum limit ts).map Parsed.toPair).bind _
    exact congrArg _ (funext fun q => Body.outcome_turn (.newline q.1 q.2))
  | newline e ts => exact outcome_body_newline e ts

/-- A body that ends has the outcome that the parser has for it. -/
theorem Body.Runs.outcome_eq (h : b.Runs a r) : b.outcome a = r := by
  induction h with
  | done => rfl
  | @halt c next h hc ih =>
    rw [outcome_body] at ih
    show (c.outcome a).bind _ = _
    rw [ih]
    rfl
  | @call c next e rest r hc hnext ihc ih =>
    rw [outcome_body] at ihc
    show (c.outcome a).bind _ = _
    rw [ihc]
    exact ih

theorem Ends.outcome_eq (h : Ends a c r) : c.outcome a = r :=
  (outcome_body c).symm.trans (Body.Runs.outcome_eq h)

/-! ### The descent -/

inductive Kind where
  | procedure (p : Procedure)
  | turn
  | text
  deriving DecidableEq, Repr

namespace Call

/-- The tokens that are left when a call is made. -/
def tokens : Call → List Token
  | .procedure _ _ ts | .link _ _ _ _ ts | .sign _ _ ts | .text _ ts | .newline _ ts => ts

def kind : Call → Kind
  | .procedure p _ _ => .procedure p
  | .link .. | .sign .. | .newline .. => .turn
  | .text _ _ => .text

/-- The place of a call in the grammar. -/
def rank (c : Call) : Nat :=
  match c.kind with
  | .procedure .primary => 0
  | .turn => 1
  | .procedure (.phrase ph) => ph.rank + 2
  | .text => 6

end Call

theorem Body.not_reaches_done : ¬ (Body.done r).Reaches a c := nofun

theorem Body.reaches_call {next : Expr → List Token → Body} (h : (Body.call d next).Reaches a c) :
    c = d ∨ ∃ e rest, Ends a d (.ok (e, rest)) ∧ (next e rest).Reaches a c := by
  cases h with
  | here => exact .inl rfl
  | after hd hc => exact .inr ⟨_, _, hd, hc⟩

theorem Body.eq_of_reaches_turn (h : (Body.turn d).Reaches a c) : c = d := by
  rcases Body.reaches_call h with rfl | ⟨e, rest, -, hc⟩
  · rfl
  · exact absurd hc Body.not_reaches_done

theorem Parsed.rest_lt {x : Except Halt (Parsed n)} (h : x.map Parsed.toPair = .ok (e, rest)) :
    rest.length < n := by
  cases x with
  | error halt => cases h
  | ok q =>
    obtain ⟨-, rfl⟩ := Prod.mk.inj (Except.ok.inj h)
    exact q.shorter

/-- A procedure that finds a tree has taken a token. -/
theorem length_lt_of_ends (h : Ends a (.procedure p room ts) (.ok (e, rest))) : rest.length < ts.length :=
  Parsed.rest_lt h.outcome_eq

theorem calls_lt_of_primary (h : Calls a (.procedure .primary room ts) d) :
    d.tokens.length < ts.length := by
  cases ts with
  | nil => exact absurd h Body.not_reaches_done
  | cons t ts =>
    obtain ⟨symbol, pos⟩ := t
    cases symbol with
    | leftParen =>
      cases room with
      | zero => exact absurd h Body.not_reaches_done
      | succ room =>
        rcases Body.reaches_call h with rfl | ⟨e, rest, -, hafter⟩
        · exact Nat.lt_succ_self _
        · cases rest with
          | nil => exact absurd hafter Body.not_reaches_done
          | cons t rest =>
            obtain ⟨symbol, close⟩ := t
            cases symbol <;> exact absurd hafter Body.not_reaches_done
    | number | op | rightParen | newline | finish => exact absurd h Body.not_reaches_done

theorem calls_lt_of_link {first : Expr} {found : List (BinOp × Expr)}
    (h : Calls a (.link level room first found ts) d) : d.tokens.length < ts.length := by
  rcases starts_or level ts with ⟨o, pos, us, rfl, rfl⟩ | hne
  · rw [Calls, body_link] at h
    rcases Body.reaches_call h with rfl | ⟨e, rest, hnext, hturn⟩
    · exact Nat.lt_succ_self _
    · obtain rfl := Body.eq_of_reaches_turn hturn
      exact Nat.lt_succ_of_lt (length_lt_of_ends hnext)
  · rw [Calls, body_link_end hne] at h
    exact absurd h Body.not_reaches_done

theorem calls_lt_of_newline (h : Calls a (.newline e ts) d) : d.tokens.length < ts.length := by
  cases ts with
  | nil => exact absurd h Body.not_reaches_done
  | cons t ts =>
    obtain ⟨symbol, pos⟩ := t
    cases symbol with
    | newline =>
      obtain rfl := Body.eq_of_reaches_turn h
      exact Nat.lt_succ_self _
    | number | op | leftParen | rightParen | finish => exact absurd h Body.not_reaches_done

/-- What is called has fewer tokens in front of it, or the same ones and a lower place in the grammar. -/
theorem calls_lt (h : Calls a c d) :
    d.tokens.length < c.tokens.length ∨ d.tokens = c.tokens ∧ d.rank < c.rank := by
  cases c with
  | procedure p room ts =>
    cases p with
    | phrase ph =>
      cases ph with
      | chain level =>
        rcases Body.reaches_call h with rfl | ⟨e, rest, hfirst, hturn⟩
        · refine .inr ⟨rfl, ?_⟩
          have hrank := level.rank_joined
          show level.joined.rank + 2 < level.rank + 2
          omega
        · obtain rfl := Body.eq_of_reaches_turn hturn
          exact .inl (length_lt_of_ends hfirst)
      | factor =>
        obtain rfl := Body.eq_of_reaches_turn h
        exact .inr ⟨rfl, Nat.lt_succ_self 1⟩
    | primary => exact .inl (calls_lt_of_primary h)
  | link level room first found ts => exact .inl (calls_lt_of_link h)
  | sign minuses room ts =>
    rcases starts_or .sum ts with ⟨o, pos, us, rfl, ho⟩ | hne
    · cases o with
      | add | sub =>
        obtain rfl := Body.eq_of_reaches_turn h
        exact .inl (Nat.lt_succ_self _)
      | mul | div | mod | pow => cases ho
    · rw [Calls, body_sign_end hne] at h
      rcases Body.reaches_call h with rfl | ⟨e, rest, -, hdone⟩
      · exact .inr ⟨rfl, Nat.zero_lt_one⟩
      · exact absurd hdone Body.not_reaches_done
  | text ts =>
    rcases Body.reaches_call h with rfl | ⟨e, rest, hsum, hturn⟩
    · exact .inr ⟨rfl, Nat.lt_succ_self 5⟩
    · obtain rfl := Body.eq_of_reaches_turn hturn
      exact .inl (length_lt_of_ends hsum)
  | newline e ts => exact .inl (calls_lt_of_newline h)

/-- **No call calls on forever.** -/
theorem wellFounded_calls (a : Associativity) : WellFounded fun d c => Calls a c d := by
  refine Subrelation.wf (r := InvImage (Prod.Lex (· < ·) (· < ·)) fun c => (c.tokens.length, c.rank)) ?_
    (InvImage.wf _ (Prod.lex Nat.lt_wfRel Nat.lt_wfRel).wf)
  intro d c h
  rcases calls_lt h with hlt | ⟨htokens, hrank⟩
  · exact Prod.Lex.left _ _ hlt
  · rw [InvImage, htokens]
    exact Prod.Lex.right _ hrank

theorem Body.runs_of_reaches (h : ∀ c, b.Reaches a c → Ends a c (c.outcome a)) :
    b.Runs a (b.outcome a) := by
  induction b with
  | done r => exact .done
  | call c next ih =>
    have hc : (c.body a).Runs a (c.outcome a) := h c .here
    show (Body.call c next).Runs a ((c.outcome a).bind _)
    cases hout : c.outcome a with
    | error halt =>
      rw [hout] at hc
      exact .halt hc
    | ok q =>
      rw [hout] at hc
      exact .call hc (ih q.1 q.2 fun d hd => h d (.after hc hd))

/-- **Every call ends**, as the parser has it. -/
theorem ends_outcome (a : Associativity) (c : Call) : Ends a c (c.outcome a) := by
  induction c using (wellFounded_calls a).induction with
  | _ c ih => exact outcome_body c ▸ Body.runs_of_reaches ih

theorem ends_iff : Ends a c r ↔ c.outcome a = r :=
  ⟨Ends.outcome_eq, fun h => h ▸ ends_outcome a c⟩

/-- One call after the other, the tokens get fewer, or stay the same and the place gets lower. -/
theorem transGen_calls_lt (h : Relation.TransGen (Calls a) c d) :
    d.tokens.length < c.tokens.length ∨ d.tokens = c.tokens ∧ d.rank < c.rank := by
  induction h with
  | single h => exact calls_lt h
  | tail _ h ih =>
    rcases ih with ih | ⟨htokens, ih⟩
    · rcases calls_lt h with hlt | ⟨htokens', -⟩
      · exact .inl (Nat.lt_trans hlt ih)
      · exact .inl (htokens' ▸ ih)
    · rcases calls_lt h with hlt | ⟨htokens', hlt⟩
      · exact .inl (htokens ▸ hlt)
      · exact .inr ⟨htokens'.trans htokens, Nat.lt_trans hlt ih⟩

/-- **Whatever lies between**, no call comes to one of its own kind before a token is taken. -/
theorem length_lt_of_transGen_calls (h : Relation.TransGen (Calls a) c d) (hkind : c.kind = d.kind) :
    d.tokens.length < c.tokens.length := by
  rcases transGen_calls_lt h with hlt | ⟨-, hlt⟩
  · exact hlt
  · rw [Call.rank, Call.rank, hkind] at hlt
    exact absurd hlt (Nat.lt_irrefl _)

theorem ends_text (limit : Nat) (a : Associativity) (ts : List Token) :
    ∃ r, Ends a (.text limit ts) r ∧ r.map Prod.fst = parseTokens limit a ts := by
  refine ⟨_, ends_outcome a _, ?_⟩
  rw [parseTokens_eq]
  show (((chain a .sum limit ts).map Parsed.toPair).bind _).map Prod.fst = _
  cases chain a .sum limit ts <;> rfl

end IntExpr
