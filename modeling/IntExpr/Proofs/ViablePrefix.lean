import IntExpr.Proofs.OnePass

/-!
# ViablePrefix — errors are found at the earliest token

The pushdown machine goes on as long as the tokens read so far begin some text of the grammar.  From
every state there is a way to the end (`accepts_after_completion`): a number if an operand is wanted, and
then the parentheses that are still to be closed.  From a token that is refused there is none
(`not_viable_of_refuse`).  So an error points at the first token that no text of the grammar has there
(`parse_error_earliest`).
-/

namespace IntExpr

open Pushdown (State Refusal reach run step)

/-- Some text of the grammar begins with these symbols. -/
def Viable (a : Associativity) (ss : List Symbol) : Prop := ∃ us e, DerivesText a (ss ++ us) e

variable {limit : Nat} {a : Associativity} {c : Config} {source : String} {ts read : List Token} {t : Token}
  {s : State}

/-! ### The way to the end -/

/-- What a state lacks before the end of a text. -/
def Pushdown.State.completion (s : State) : List Symbol :=
  match s.mode with
  | .operand => .number "0" :: List.replicate s.opened.length .rightParen
  | .operator => List.replicate s.opened.length .rightParen
  | .tail => []

theorem reach_closing (opened : List Nat) : ∀ ts : List Token,
    ts.map Token.symbol = List.replicate opened.length .rightParen →
      reach ⟨.operator, opened⟩ ts = some ⟨.operator, []⟩ := by
  induction opened with
  | nil =>
    intro ts hts
    obtain rfl := List.map_eq_nil_iff.mp hts
    rfl
  | cons p opened ih =>
    intro ts hts
    obtain ⟨pos, us, rfl, hus⟩ := exists_of_map_symbol_eq_cons hts
    exact (Pushdown.reach_cons .pop us).trans (ih us hus)

theorem accepts_after_completion (s : State) (hts : ts.map Token.symbol = s.completion) (pos : Nat) :
    ∃ s', reach s ts = some s' ∧ step s' ⟨.finish, pos⟩ = .accept := by
  obtain ⟨mode, opened⟩ := s
  cases mode with
  | operand =>
    obtain ⟨p, us, rfl, hus⟩ := exists_of_map_symbol_eq_cons hts
    exact ⟨_, (Pushdown.reach_cons .number us).trans (reach_closing opened us hus), rfl⟩
  | operator => exact ⟨_, reach_closing opened ts hts, rfl⟩
  | tail =>
    obtain rfl := List.map_eq_nil_iff.mp hts
    exact ⟨_, rfl, rfl⟩

/-! ### Viable prefixes -/

/-- A text of the machine is one of the grammar: with room for its own depth the parser finds a tree. -/
theorem derivesText_of_accept (a : Associativity) {pos : Nat} (hreach : reach {} ts = some s)
    (haccept : step s ⟨.finish, pos⟩ = .accept) :
    ∃ e, DerivesText a (ts.map Token.symbol ++ [.finish]) e := by
  have hsymbols : (ts ++ [(⟨.finish, pos⟩ : Token)]).map Token.symbol =
      ts.map Token.symbol ++ [.finish] := List.map_append
  have hrun : run {} (ts ++ [(⟨.finish, pos⟩ : Token)]) = .ok () := by
    rw [Pushdown.run_append hreach, run, haccept]
  have hverdict := parseTokens_eq_run a (nestsWithin_iff.mpr (Nat.le_refl
    (depth 0 ((ts ++ [(⟨.finish, pos⟩ : Token)]).map Token.symbol))))
  obtain ⟨e, hparse⟩ := (run_eq_ok_iff hverdict).mp hrun
  obtain ⟨body, n, after, hbody, -, htext⟩ := derives_of_parseTokens hparse
  rw [hsymbols] at htext
  have hafter : after = [] := eq_nil_of_append_singleton htext (Pushdown.finish_not_mem_of_reach hreach)
  exact ⟨e, body, n, hbody, hafter ▸ htext⟩

/-- What the machine has read can be completed. -/
theorem viable_of_reach (a : Associativity) (hreach : reach {} read = some s) :
    Viable a (read.map Token.symbol) := by
  have hmore := map_symbol_mk s.completion
  obtain ⟨s', hreach', haccept⟩ := accepts_after_completion s hmore 0
  have hall : reach {} (read ++ s.completion.map (Token.mk · 0)) = some s' :=
    (Pushdown.reach_append hreach _).trans hreach'
  obtain ⟨e, he⟩ := derivesText_of_accept a hall haccept
  rw [List.map_append, hmore, List.append_assoc] at he
  exact ⟨_, e, he⟩

theorem not_viable_of_refuse (a : Associativity) (hreach : reach {} read = some s)
    (hrefuse : step s t = .refuse) : ¬ Viable a ((read ++ [t]).map Token.symbol) := by
  rintro ⟨us, e, htext⟩
  have hsymbols : (read ++ [t] ++ us.map (Token.mk · 0)).map Token.symbol =
      (read ++ [t]).map Token.symbol ++ us := by
    rw [List.map_append, map_symbol_mk]
  have hrun : run {} (read ++ [t] ++ us.map (Token.mk · 0)) = .ok () :=
    run_of_derivesText (hsymbols ▸ htext)
  rw [List.append_assoc, Pushdown.run_append hreach, List.singleton_append, run, hrefuse] at hrun
  cases hrun

/-! ### The reported token -/

theorem eq_of_pos_eq {j k : Nat} {u : Token} (horder : ts.Pairwise fun t u => t.pos < u.pos)
    (hj : ts[j]? = some t) (hk : ts[k]? = some u) (h : t.pos = u.pos) : j = k := by
  obtain ⟨hjlt, rfl⟩ := List.getElem?_eq_some_iff.mp hj
  obtain ⟨hklt, rfl⟩ := List.getElem?_eq_some_iff.mp hk
  have hlt := List.pairwise_iff_getElem.mp horder
  rcases Nat.lt_trichotomy j k with hjk | rfl | hkj
  · exact absurd h (Nat.ne_of_lt (hlt j k hjlt hklt hjk))
  · rfl
  · exact absurd h.symm (Nat.ne_of_lt (hlt k j hklt hjlt hkj))

/-- A parse error is that of the token at which the machine stops. -/
theorem refused_of_parse_error {e : ParseError} (hlex : tokenize c.unknownCharacters source = .ok ts)
    (hfit : NestsWithin limit (ts.map Token.symbol)) (h : parse limit c source = .error e) :
    ∃ read s t us, ts = read ++ t :: us ∧ reach {} read = some s ∧ step s t = .refuse ∧
      (e.diagnostic source).pos = some (t.pos : Int) := by
  cases hrun : run {} ts with
  | ok _ =>
    obtain ⟨t, ht⟩ := (run_eq_ok_iff (parseTokens_eq_run c.associativity hfit)).mp hrun
    rw [(parse_eq_ok_iff hlex).mpr ht] at h
    exact nomatch h
  | error r =>
    obtain ⟨read, t, us, -, hts, hreach, hrefuse, hparse⟩ := parse_of_run_error hlex hfit hrun
    obtain rfl := Except.error.inj (hparse.symm.trans h)
    exact ⟨read, r.state, t, us, hts, hreach, hrefuse, (diagnostic_of_wanted r.state t source).2.1⟩

/-- **A parse error points at the earliest token at which the text is lost.**  The tokens before it can
be continued to a text of the grammar, and with it they cannot. -/
theorem parse_error_earliest {e : ParseError} (hlex : tokenize c.unknownCharacters source = .ok ts)
    (hfit : NestsWithin limit (ts.map Token.symbol)) (h : parse limit c source = .error e) :
    (∃ (k : Nat) (t : Token), ts[k]? = some t ∧ (e.diagnostic source).pos = some (t.pos : Int)) ∧
      ∀ (k : Nat) (t : Token), ts[k]? = some t → (e.diagnostic source).pos = some (t.pos : Int) →
        Viable c.associativity ((ts.take k).map Token.symbol) ∧
        ¬ Viable c.associativity ((ts.take (k + 1)).map Token.symbol) ∧
        (t.symbol = .finish → t.pos = source.length) := by
  obtain ⟨read, s, found, us, hts, hreach, hrefuse, hpos⟩ := refused_of_parse_error hlex hfit h
  have hfound : ts[read.length]? = some found := by
    rw [hts, List.getElem?_append_right (Nat.le_refl _), Nat.sub_self, List.getElem?_cons_zero]
  refine ⟨⟨read.length, found, hfound, hpos⟩, fun k t hk hkpos => ?_⟩
  obtain ⟨-, htokens⟩ := tokenize_eq_ok_iff.mp hlex
  have horder : ts.Pairwise fun t u => t.pos < u.pos := htokens ▸ pairwise_pos_of_scanFrom
  have hsame : (found.pos : Int) = t.pos := Option.some.inj (hpos.symm.trans hkpos)
  obtain rfl : read.length = k := eq_of_pos_eq horder hfound hk (Int.ofNat.inj hsame)
  obtain rfl : found = t := Option.some.inj (hfound.symm.trans hk)
  have hbefore : ts.take read.length = read := by
    rw [hts, List.take_left]
  have hwith : ts.take (read.length + 1) = read ++ [found] := by
    rw [hts, List.take_length_add_append, List.take_succ_cons, List.take_zero]
  rw [hbefore, hwith]
  exact ⟨viable_of_reach _ hreach, not_viable_of_refuse _ hreach hrefuse,
    pos_of_finish hlex (List.mem_of_getElem? hk)⟩

/-- A sum in parentheses that lacks its second operand. -/
theorem parse_error_earliest_of_missing_operand :
    tokenize .skip "(1+)" = .ok [⟨.leftParen, 0⟩, ⟨.number "1", 1⟩, ⟨.op .add, 2⟩, ⟨.rightParen, 3⟩,
        ⟨.finish, 4⟩] ∧
      parse 200 {} "(1+)" = .error (.operandExpected ⟨.rightParen, 3⟩) ∧
      Viable .left [.leftParen, .number "1", .op .add] ∧
      ¬ Viable .left [.leftParen, .number "1", .op .add, .rightParen] := by
  have hlex : tokenize .skip "(1+)" = .ok [⟨.leftParen, 0⟩, ⟨.number "1", 1⟩, ⟨.op .add, 2⟩,
      ⟨.rightParen, 3⟩, ⟨.finish, 4⟩] := by decide +kernel
  have hfit : NestsWithin 200 [.leftParen, .number "1", .op .add, .rightParen, .finish] :=
    nestsWithin_iff.mpr (by decide)
  have hrun : run {} [⟨.leftParen, 0⟩, ⟨.number "1", 1⟩, ⟨.op .add, 2⟩, ⟨.rightParen, 3⟩, ⟨.finish, 4⟩] =
      .error ⟨⟨.operand, [0]⟩, [⟨.rightParen, 3⟩, ⟨.finish, 4⟩]⟩ := rfl
  obtain ⟨-, found, us, hrest, -, -, -, hparse⟩ := parse_of_run_error (c := {}) hlex hfit hrun
  obtain rfl := (List.cons.inj hrest).1
  obtain ⟨hbefore, hwith, -⟩ :=
    (parse_error_earliest (c := {}) hlex hfit hparse).2 3 ⟨.rightParen, 3⟩ rfl rfl
  exact ⟨hlex, hparse, hbefore, hwith⟩

end IntExpr
