import IntExpr.Proofs.Tokenization
import Mathlib.Data.List.Induction

/-!
# NestingLimit — which texts are nested too deeply

A parse ends for its nesting if and only if the pushdown machine comes to an opening parenthesis, where an
operand is wanted, with as many parentheses open as may be (`parse_tooDeep_iff`).  Of such parentheses in
a text the first one ends the parse (`exists_first_tooDeepAt`).  The machine keeps the open parentheses
and nothing else, and so nothing else has a part in it: no chain, no run of signs, no closed
parentheses, no newlines, and nothing that comes later.

* `parse_error_cases`: all that can stop a parse.
-/

namespace IntExpr

open Pushdown (State Refusal Goes reach run)

variable {limit : Nat} {a : Associativity} {c : Config} {source : String} {s : State} {n pos : Nat} {t : Token}
  {ts us vs read : List Token} {e : ParseError}

/-! ### The first parenthesis that is too many -/

theorem eq_leftParen_of_lt_openAfter {x : Symbol} (h : n < openAfter n x) :
    x = .leftParen ∧ openAfter n x = n + 1 := by
  cases x with
  | leftParen => exact ⟨rfl, rfl⟩
  | rightParen => exact absurd h (Nat.not_lt.mpr (Nat.sub_le n 1))
  | number | op | newline | finish => exact absurd h (Nat.lt_irrefl n)

theorem TooDeepAt.append (h : TooDeepAt limit read pos us ts) (vs : List Token) :
    TooDeepAt limit read pos (us ++ vs) (ts ++ vs) := by
  obtain ⟨rfl, hs⟩ := h
  exact ⟨by rw [List.append_assoc, List.cons_append], hs⟩

/-- Where more parentheses than the limit are met, there is a first one too many. -/
theorem exists_first_tooDeepAt (hreach : reach {} ts = some s)
    (hdeep : limit < depth 0 (ts.map Token.symbol)) :
    ∃ read pos us, TooDeepAt limit read pos us ts ∧ depth 0 (read.map Token.symbol) ≤ limit := by
  induction ts using List.reverseRecOn generalizing s with
  | nil => exact absurd hdeep (Nat.not_lt_zero _)
  | append_singleton init t ih =>
    obtain ⟨s₁, hinit, ht⟩ := Pushdown.exists_reach_of_append hreach
    by_cases hbefore : limit < depth 0 (init.map Token.symbol)
    · obtain ⟨read, pos, us, hat, hfits⟩ := ih hinit hbefore
      exact ⟨read, pos, us ++ [t], hat.append [t], hfits⟩
    · -- the last token is the one
      rw [Nat.not_lt] at hbefore
      have hopen : (init.map Token.symbol).foldl openAfter 0 = s₁.opened.length :=
        Pushdown.length_opened_of_reach hinit
      have hle := foldl_openAfter_le_depth 0 (init.map Token.symbol)
      rw [List.map_append, depth_append, hopen, List.map_singleton, depth, depth] at hdeep
      obtain ⟨hsymbol, hnext⟩ :=
        eq_leftParen_of_lt_openAfter (n := s₁.opened.length) (x := t.symbol) (by omega)
      obtain ⟨s₂, hgoes, -⟩ := Pushdown.reach_cons_eq_some_iff.mp ht
      cases hgoes with
      | @push pos opened => exact ⟨init, pos, [], ⟨rfl, _, hinit, rfl, by omega⟩, hbefore⟩
      | sign | number | op | pop | leave | newline => cases hsymbol

/-- A parenthesis that is too many ends the parse, there or at an earlier one. -/
theorem parseTokens_eq_tooDeep (a : Associativity) (h : TooDeepAt limit read pos us ts) :
    ∃ p vs, parseTokens limit a ts = .error ⟨.tooDeep, ⟨.leftParen, p⟩ :: vs⟩ := by
  obtain ⟨rfl, s, hreach, hmode, hlength⟩ := h
  obtain ⟨mode, opened⟩ := s
  obtain rfl : mode = .operand := hmode
  have hnext : reach {} (read ++ [⟨.leftParen, pos⟩]) = some ⟨.operand, pos :: opened⟩ :=
    (Pushdown.reach_append hreach _).trans (Pushdown.reach_cons .push [])
  obtain ⟨first, p, vs, hfirst, hfits⟩ :=
    exists_first_tooDeepAt hnext (lt_depth_of_reach hreach hlength [])
  have hall := hfirst.append us
  rw [List.append_assoc, List.singleton_append] at hall
  exact ⟨p, _, parseTokens_of_tooDeepAt a hall hfits⟩

/-! ### How a parse stops -/

/-- All that can stop the parser: a token that the machine refuses, the want of one more token, or a
parenthesis that is too many. -/
theorem parseTokens_error_cases {reason : Reason} {rest : List Token}
    (h : parseTokens limit a ts = .error ⟨reason, rest⟩) :
    (∃ read s, ts = read ++ rest ∧ reach {} read = some s ∧ reason = s.wanted) ∨
      ∃ read pos us, TooDeepAt limit read pos us ts ∧ rest = ⟨.leftParen, pos⟩ :: us := by
  rcases parseTokens_verdict a ts with hverdict | ⟨read, pos, us, hat, -, hparse⟩
  · cases hrun : run {} ts with
    | ok _ =>
      rw [h, hrun] at hverdict
      cases hverdict
    | error r =>
      rw [h, hrun] at hverdict
      obtain ⟨rfl, rfl⟩ := Halt.mk.inj (Except.error.inj hverdict)
      obtain ⟨read, hread, hreach, -⟩ := Pushdown.reach_of_run_error hrun
      exact .inl ⟨read, r.state, hread, hreach, rfl⟩
  · obtain ⟨-, rfl⟩ := Halt.mk.inj (Except.error.inj (h.symm.trans hparse))
    exact .inr ⟨read, pos, us, hat, rfl⟩

/-- A parse ends for its nesting at the first parenthesis that is too many. -/
theorem parseTokens_eq_tooDeep_iff {rest : List Token} :
    parseTokens limit a ts = .error ⟨.tooDeep, rest⟩ ↔ ∃ read pos us, rest = ⟨.leftParen, pos⟩ :: us ∧
      TooDeepAt limit read pos us ts ∧ depth 0 (read.map Token.symbol) ≤ limit := by
  constructor
  · intro h
    rcases parseTokens_verdict a ts with hverdict | ⟨read, pos, us, hat, hfits, hparse⟩
    · cases hrun : run {} ts with
      | ok _ =>
        rw [h, hrun] at hverdict
        cases hverdict
      | error r =>
        rw [h, hrun] at hverdict
        obtain ⟨hreason, -⟩ := Halt.mk.inj (Except.error.inj hverdict)
        exact absurd hreason.symm r.state.wanted_ne_tooDeep
    · obtain ⟨-, rfl⟩ := Halt.mk.inj (Except.error.inj (h.symm.trans hparse))
      exact ⟨read, pos, us, rfl, hat, hfits⟩
  · rintro ⟨read, pos, us, rfl, hat, hfits⟩
    exact parseTokens_of_tooDeepAt a hat hfits

/-- Where no token stops the parser, the machine reads them all and meets no parenthesis too many. -/
theorem reach_of_parseTokens {reason : Reason} (h : parseTokens limit a ts = .error ⟨reason, []⟩) :
    (∃ s, reach {} ts = some s) ∧ NestsWithin limit (ts.map Token.symbol) := by
  rcases parseTokens_error_cases h with ⟨read, s, hread, hreach, -⟩ | ⟨_, _, _, -, hrest⟩
  · rw [List.append_nil] at hread
    obtain rfl := hread
    refine ⟨⟨s, hreach⟩, nestsWithin_iff.mpr (Nat.not_lt.mp fun hlt => ?_)⟩
    obtain ⟨_, _, _, hfirst, -⟩ := exists_first_tooDeepAt hreach hlt
    obtain ⟨p, vs, hparse⟩ := parseTokens_eq_tooDeep a hfirst
    cases h.symm.trans hparse
  · cases hrest

theorem shown_suffix (h : Halt) : h.shown <:+ h.rest := by
  obtain ⟨reason, rest⟩ := h
  cases reason with
  | tooDeep => exact List.tail_suffix rest
  | operandExpected | closingExpected | endExpected => exact List.suffix_refl rest

theorem rest_suffix_of_parseTokens {halt : Halt} (h : parseTokens limit a ts = .error halt) :
    halt.rest <:+ ts := by
  rcases parseTokens_error_cases h with ⟨read, s, rfl, -, -⟩ | ⟨read, pos, vs, ⟨rfl, -⟩, hrest⟩
  · exact List.suffix_append read halt.rest
  · rw [hrest]
    exact List.suffix_append read _

theorem shown_ne_nil {halt : Halt} (hrejected : (scan c.unknownCharacters source).rejected = none)
    (h : parseTokens limit c.associativity (scan c.unknownCharacters source).tokens = .error halt) :
    halt.shown ≠ [] := by
  obtain ⟨reason, rest⟩ := halt
  obtain ⟨init, htokens, -⟩ := tokens_of_scanFrom hrejected
  rw [← scan] at htokens
  intro hshown
  by_cases hreason : reason = .tooDeep
  · subst hreason
    obtain ⟨read, pos, us, rfl, ⟨hread, -⟩, -⟩ := parseTokens_eq_tooDeep_iff.mp h
    obtain rfl : us = [] := hshown
    -- a parenthesis would be the last token, and that is the end
    obtain ⟨-, hlast⟩ := List.append_inj' (htokens.symm.trans hread) rfl
    cases (List.cons.inj hlast).1
  · rw [Halt.shown_of_ne hreason] at hshown
    obtain rfl : rest = [] := hshown
    obtain ⟨⟨s, hreach⟩, -⟩ := reach_of_parseTokens h
    have hfinish := Pushdown.finish_not_mem_of_reach hreach
    rw [htokens, List.map_append] at hfinish
    exact absurd (List.mem_append_right _ List.mem_cons_self) hfinish

/-- **The errors of a text** point at one of its tokens, or else at the rejected character after the last
of them. -/
theorem parse_error_cases (h : parse limit c source = .error e) : ∃ halt,
    parseTokens limit c.associativity (scan c.unknownCharacters source).tokens = .error halt ∧
      ((∃ t us, halt.shown = t :: us ∧ t ∈ (scan c.unknownCharacters source).tokens ∧
          e = halt.reason.error t) ∨
        ∃ found, halt.shown = [] ∧ (scan c.unknownCharacters source).rejected = some found ∧
          e = halt.reason.errorAt found) := by
  rw [parse_eq] at h
  cases hparse : parseTokens limit c.associativity (scan c.unknownCharacters source).tokens with
  | ok t =>
    rw [hparse] at h
    cases h
  | error halt =>
    rw [hparse] at h
    have he := (Except.error.inj h).symm
    refine ⟨halt, rfl, ?_⟩
    cases hshown : halt.shown with
    | cons t us =>
      have hmem : t ∈ (scan c.unknownCharacters source).tokens :=
        ((shown_suffix halt).trans (rest_suffix_of_parseTokens hparse)).subset
          (hshown ▸ List.mem_cons_self)
      exact .inl ⟨t, us, rfl, hmem, he.trans (Halt.error_of_shown hshown _ _)⟩
    | nil =>
      cases hrejected : (scan c.unknownCharacters source).rejected with
      | some found => exact .inr ⟨found, rfl, rfl, he.trans (Halt.error_of_rejected hshown hrejected _)⟩
      | none => exact absurd hshown (shown_ne_nil hrejected hparse)

theorem parse_of_shown {halt : Halt}
    (h : parseTokens limit c.associativity (scan c.unknownCharacters source).tokens = .error halt)
    (hshown : halt.shown = t :: us) : parse limit c source = .error (halt.reason.error t) := by
  rw [parse_eq, h]
  exact congrArg Except.error (Halt.error_of_shown hshown _ _)

theorem parse_of_rejected {halt : Halt} {found : Located}
    (h : parseTokens limit c.associativity (scan c.unknownCharacters source).tokens = .error halt)
    (hshown : halt.shown = []) (hrejected : (scan c.unknownCharacters source).rejected = some found) :
    parse limit c source = .error (halt.reason.errorAt found) := by
  rw [parse_eq, h]
  exact congrArg Except.error (Halt.error_of_rejected hshown hrejected _)

/-- The error of a text that is nested too deeply points at the token after the first parenthesis that is
too many. -/
theorem parse_eq_tooDeep_iff : parse limit c source = .error (.tooDeep t) ↔
    ∃ read pos us, TooDeepAt limit read pos (t :: us) (scan c.unknownCharacters source).tokens ∧
      depth 0 (read.map Token.symbol) ≤ limit := by
  constructor
  · intro h
    obtain ⟨⟨reason, rest⟩, hparse, ⟨t', us, hshown, -, he⟩ | ⟨found, -, -, he⟩⟩ := parse_error_cases h
    · cases reason with
      | tooDeep =>
        obtain rfl := ParseError.tooDeep.inj he
        obtain ⟨read, pos, vs, rfl, hat, hfits⟩ := parseTokens_eq_tooDeep_iff.mp hparse
        obtain rfl : vs = t :: us := hshown
        exact ⟨read, pos, us, hat, hfits⟩
      | operandExpected | closingExpected | endExpected => cases he
    · cases reason <;> cases he
  · rintro ⟨read, pos, us, hat, hfits⟩
    exact parse_of_shown (parseTokens_of_tooDeepAt c.associativity hat hfits) rfl

/-- The error of a character comes out in place of that for the depth where the character is what follows
the first parenthesis that is too many. -/
theorem parse_eq_escaped_iff {found : Located} : parse limit c source = .error (.escaped found) ↔
    (scan c.unknownCharacters source).rejected = some found ∧
      ∃ read pos, TooDeepAt limit read pos [] (scan c.unknownCharacters source).tokens ∧
        depth 0 (read.map Token.symbol) ≤ limit := by
  constructor
  · intro h
    obtain ⟨⟨reason, rest⟩, hparse, ⟨t', us, -, -, he⟩ | ⟨found', hshown, hrejected, he⟩⟩ := parse_error_cases h
    · cases reason <;> cases he
    · cases reason with
      | tooDeep =>
        obtain rfl := ParseError.escaped.inj he
        obtain ⟨read, pos, vs, rfl, hat, hfits⟩ := parseTokens_eq_tooDeep_iff.mp hparse
        obtain rfl : vs = [] := hshown
        exact ⟨hrejected, read, pos, hat, hfits⟩
      | operandExpected | closingExpected | endExpected => cases he
  · rintro ⟨hrejected, read, pos, hat, hfits⟩
    exact parse_of_rejected (parseTokens_of_tooDeepAt c.associativity hat hfits) rfl hrejected

/-- Of the parentheses that are too many it need not be the first that has a token after it. -/
theorem exists_parse_eq_tooDeep_iff : (∃ t, parse limit c source = .error (.tooDeep t)) ↔
    ∃ read pos us, TooDeepAt limit read pos us (scan c.unknownCharacters source).tokens ∧ us ≠ [] := by
  constructor
  · rintro ⟨t, h⟩
    obtain ⟨read, pos, us, hat, -⟩ := parse_eq_tooDeep_iff.mp h
    exact ⟨read, pos, t :: us, hat, List.cons_ne_nil t us⟩
  · rintro ⟨read, pos, us, hat, hne⟩
    obtain ⟨p, vs, hparse⟩ := parseTokens_eq_tooDeep c.associativity hat
    obtain ⟨read', _, _, hrest, hat', hfits⟩ := parseTokens_eq_tooDeep_iff.mp hparse
    obtain ⟨hpos, rfl⟩ := List.cons.inj hrest
    obtain rfl := (Token.mk.inj hpos).2
    cases vs with
    | cons t vs => exact ⟨t, parse_of_shown hparse rfl⟩
    | nil =>
      -- then it is the last token, and the given one is not after it
      obtain ⟨mid, -, hmid⟩ := exists_rest_of_tooDeepAt hat hat'.1 hfits
      have hlength := congrArg List.length hmid
      rw [List.length_append, List.length_cons, List.length_cons, List.length_nil] at hlength
      exact absurd (List.eq_nil_of_length_eq_zero (by omega)) hne

/-! ### Parentheses alone -/

def Symbol.isParen : Symbol → Bool
  | .leftParen | .rightParen => true
  | _ => false

/-- The parentheses among the symbols of a list of tokens. -/
def parens (ts : List Token) : List Symbol := (ts.map Token.symbol).filter Symbol.isParen

theorem openAfter_of_not_isParen {x : Symbol} (h : ¬ x.isParen = true) (n : Nat) : openAfter n x = n := by
  cases x with
  | leftParen | rightParen => exact absurd rfl h
  | number | op | newline | finish => rfl

theorem unclosed_filter_isParen (ss : List Symbol) : unclosed (ss.filter Symbol.isParen) = unclosed ss := by
  unfold unclosed
  generalize 0 = n
  induction ss generalizing n with
  | nil => rfl
  | cons x ss ih =>
    by_cases hparen : x.isParen = true
    · rw [List.filter_cons_of_pos hparen]
      exact ih _
    · rw [List.filter_cons_of_neg hparen, List.foldl_cons, openAfter_of_not_isParen hparen]
      exact ih n

theorem depth_filter_isParen (n : Nat) (ss : List Symbol) :
    depth n (ss.filter Symbol.isParen) = depth n ss := by
  induction ss generalizing n with
  | nil => rfl
  | cons x ss ih =>
    by_cases hparen : x.isParen = true
    · rw [List.filter_cons_of_pos hparen, depth, depth, ih]
    · rw [List.filter_cons_of_neg hparen, depth, openAfter_of_not_isParen hparen, ih,
        Nat.max_eq_right (le_depth n ss)]

/-- With the next parenthesis one more than the limit is open. -/
theorem tooDeepAt_iff : TooDeepAt limit read pos us ts ↔ ts = read ++ ⟨.leftParen, pos⟩ :: us ∧
    ∃ opened, reach {} read = some ⟨.operand, opened⟩ ∧
      unclosed (parens (read ++ [⟨.leftParen, pos⟩])) = limit + 1 := by
  have hcount {s : State} (hreach : reach {} read = some s) :
      unclosed (parens (read ++ [⟨.leftParen, pos⟩])) = s.opened.length + 1 := by
    have hopen : (read.map Token.symbol).foldl openAfter 0 = s.opened.length :=
      Pushdown.length_opened_of_reach hreach
    rw [parens, unclosed_filter_isParen, List.map_append, unclosed, List.foldl_append, hopen]
    rfl
  refine and_congr_right fun _ => ⟨?_, ?_⟩
  · rintro ⟨⟨mode, opened⟩, hreach, rfl, hlength⟩
    exact ⟨opened, hreach, (hcount hreach).trans (congrArg (· + 1) hlength)⟩
  · rintro ⟨opened, hreach, hmore⟩
    exact ⟨_, hreach, rfl, Nat.succ.inj ((hcount hreach).symm.trans hmore)⟩

/-! ### What is said of a text -/

theorem take_toList_of_eq_append {text start rest : String} (h : text = start ++ rest)
    (hn : n ≤ start.toList.length) : text.toList.take n = start.toList.take n := by
  rw [h, String.toList_append, List.take_append_of_le_length hn]

/-- No other error is reported in the same words: the first four characters tell. -/
theorem ParseError.exists_eq_tooDeep_of_message (h : e.message = "Expression is nested too deeply") :
    ∃ t, e = .tooDeep t := by
  have hstart : e.message.toList.take 4 = ['E', 'x', 'p', 'r'] := by
    rw [h]
    decide
  have hother {start rest : String} (hmessage : e.message = start ++ rest) (hlength : 4 ≤ start.toList.length)
      (hne : start.toList.take 4 ≠ ['E', 'x', 'p', 'r']) : False := by
    rw [take_toList_of_eq_append hmessage hlength] at hstart
    exact hne hstart
  cases e with
  | tooDeep t => exact ⟨t, rfl⟩
  | operandExpected t =>
    have hmessage : (ParseError.operandExpected t).message =
        "Expected a number, sign or '(', got " ++ t.symbol.describe := rfl
    exact (hother hmessage (by decide) (by decide)).elim
  | closingExpected p t =>
    have hmessage : (ParseError.closingExpected p t).message =
        "Unmatched '(' at column " ++ (toString (p + 1) ++ (": expected ')', got " ++ t.symbol.describe)) := by
      rw [← String.append_assoc, ← String.append_assoc]
      rfl
    exact (hother hmessage (by decide) (by decide)).elim
  | endExpected t =>
    have hmessage : (ParseError.endExpected t).message =
        "Unexpected token after expression: " ++ Text.quote t.lexeme := rfl
    exact (hother hmessage (by decide) (by decide)).elim
  | rejected found | escaped found =>
    have hmessage : found.rejection = "Unexpected character: " ++ Text.quote (String.singleton found.char) := rfl
    exact (hother hmessage (by decide) (by decide)).elim

/-- **A text is reported as nested too deeply if and only if** its tokens, read from the left, come to an
opening parenthesis where an operand is wanted, with it one parenthesis more than the limit is open, and
a token follows it; a character that is not let past then stands after it.  Only parentheses count, and
what follows that token is any list of tokens.  Where no token follows the first parenthesis that is too
many, it is a character that does, and its own error comes out. -/
theorem parse_tooDeep_iff (limit : Nat) (c : Config) (source : String) :
    ((∃ e, parse limit c source = .error e ∧ e.message = "Expression is nested too deeply") ↔
      ∃ read pos after opened,
        (scan c.unknownCharacters source).tokens = read ++ ⟨.leftParen, pos⟩ :: after ∧
        reach {} read = some ⟨.operand, opened⟩ ∧
        unclosed (parens (read ++ [⟨.leftParen, pos⟩])) = limit + 1 ∧
        (∀ found, (scan c.unknownCharacters source).rejected = some found → pos < found.pos) ∧
        after ≠ []) ∧
    (∀ found, parse limit c source = .error (.escaped found) ↔
      (scan c.unknownCharacters source).rejected = some found ∧ ∃ read pos opened,
        (scan c.unknownCharacters source).tokens = read ++ [⟨.leftParen, pos⟩] ∧
        reach {} read = some ⟨.operand, opened⟩ ∧
        unclosed (parens (read ++ [⟨.leftParen, pos⟩])) = limit + 1 ∧ NestsWithin limit (parens read)) ∧
    (NestsWithin limit (parens (scan c.unknownCharacters source).tokens) →
      ∀ e, parse limit c source = .error e → e.message ≠ "Expression is nested too deeply" ∧
        ∀ found, e ≠ .escaped found) := by
  have hfitsParens (ts : List Token) : NestsWithin limit (parens ts) ↔ depth 0 (ts.map Token.symbol) ≤ limit := by
    rw [nestsWithin_iff, parens, depth_filter_isParen]
  refine ⟨⟨?_, ?_⟩, fun found => ?_, ?_⟩
  · rintro ⟨e, h, hmessage⟩
    obtain ⟨t, rfl⟩ := ParseError.exists_eq_tooDeep_of_message hmessage
    obtain ⟨read, pos, after, hat, hne⟩ := exists_parse_eq_tooDeep_iff.mp ⟨t, h⟩
    obtain ⟨htokens, opened, hreach, hmore⟩ := tooDeepAt_iff.mp hat
    refine ⟨read, pos, after, opened, htokens, hreach, hmore, fun found hrejected => ?_, hne⟩
    refine pos_lt_of_rejected (t := ⟨.leftParen, pos⟩) hrejected ?_
    rw [htokens]
    exact List.mem_append_right read List.mem_cons_self
  · rintro ⟨read, pos, after, opened, htokens, hreach, hmore, -, hne⟩
    have hat := tooDeepAt_iff.mpr ⟨htokens, opened, hreach, hmore⟩
    obtain ⟨t, h⟩ := exists_parse_eq_tooDeep_iff.mpr ⟨read, pos, after, hat, hne⟩
    exact ⟨.tooDeep t, h, rfl⟩
  · rw [parse_eq_escaped_iff]
    refine and_congr_right fun _ => exists_congr fun read => exists_congr fun pos => ?_
    rw [tooDeepAt_iff, hfitsParens]
    constructor
    · rintro ⟨⟨htokens, opened, hreach, hmore⟩, hfits⟩
      exact ⟨opened, htokens, hreach, hmore, hfits⟩
    · rintro ⟨opened, htokens, hreach, hmore, hfits⟩
      exact ⟨⟨htokens, opened, hreach, hmore⟩, hfits⟩
  · intro hfits e h
    have hwithin := nestsWithin_iff.mpr ((hfitsParens _).mp hfits)
    constructor
    · intro hmessage
      obtain ⟨t, rfl⟩ := ParseError.exists_eq_tooDeep_of_message hmessage
      obtain ⟨read, pos, us, hat, -⟩ := parse_eq_tooDeep_iff.mp h
      exact not_tooDeepAt hwithin hat
    · rintro found rfl
      obtain ⟨-, read, pos, hat, -⟩ := parse_eq_escaped_iff.mp h
      exact not_tooDeepAt hwithin hat

/-! ### Nothing but opening parentheses -/

/-- The tokens of `k` opening parentheses, the first of which stands at offset `i`. -/
def openings (i k : Nat) : List Token := (List.range' i k).map (⟨.leftParen, ·⟩)

theorem scanFrom_openings (policy : UnknownCharacters) (i k : Nat) (cs : List Char) :
    (scanFrom policy i (List.replicate k '(' ++ cs)).tokens =
        openings i k ++ (scanFrom policy (i + k) cs).tokens ∧
      (scanFrom policy i (List.replicate k '(' ++ cs)).rejected = (scanFrom policy (i + k) cs).rejected := by
  induction k generalizing i with
  | zero => exact ⟨rfl, rfl⟩
  | succ k ih =>
    obtain ⟨htokens, hrejected⟩ := ih (i + 1)
    have hnext : i + 1 + k = i + (k + 1) := by omega
    rw [List.replicate_succ, List.cons_append, scanFrom_symbol (s := .leftParen) rfl rfl rfl,
      Scan.tokens_cons_token, Scan.rejected_cons, htokens, hrejected, hnext]
    exact ⟨rfl, rfl⟩

theorem reach_openings (i k : Nat) (opened : List Nat) :
    ∃ opened', reach ⟨.operand, opened⟩ (openings i k) = some ⟨.operand, opened'⟩ ∧
      opened'.length = opened.length + k := by
  induction k generalizing i opened with
  | zero => exact ⟨opened, rfl, rfl⟩
  | succ k ih =>
    obtain ⟨opened', hreach, hlength⟩ := ih (i + 1) (i :: opened)
    refine ⟨opened', (Pushdown.reach_cons .push _).trans hreach, ?_⟩
    rw [hlength, List.length_cons]
    omega

theorem depth_openings (i k : Nat) : depth 0 ((openings i k).map Token.symbol) ≤ k := by
  have hdepth : ∀ n, depth n (List.replicate k .leftParen) ≤ n + k := by
    induction k with
    | zero => exact fun n => Nat.le_refl n
    | succ k ih =>
      intro n
      have hnext := ih (n + 1)
      rw [List.replicate_succ, depth]
      show max n (depth (n + 1) _) ≤ _
      omega
  have hsymbols : (openings i k).map Token.symbol = List.replicate k .leftParen := by
    rw [openings, List.map_map]
    exact List.map_const'.trans (congrArg (List.replicate · _) List.length_range')
  rw [hsymbols]
  exact (hdepth 0).trans_eq (Nat.zero_add k)

/-- The last of so many parentheses is the first that is too many. -/
theorem tooDeepAt_openings (limit : Nat) (us : List Token) :
    TooDeepAt limit (openings 0 limit) limit us (openings 0 (limit + 1) ++ us) := by
  obtain ⟨opened, hreach, hlength⟩ := reach_openings 0 limit []
  refine ⟨?_, _, hreach, rfl, hlength.trans (Nat.zero_add limit)⟩
  rw [openings, List.range'_concat, List.map_append, List.append_assoc, Nat.one_mul, Nat.zero_add]
  rfl

theorem parse_openings (limit : Nat) (c : Config) :
    parse limit c (String.ofList (List.replicate (limit + 1) '(')) =
      .error (.tooDeep ⟨.finish, limit + 1⟩) := by
  obtain ⟨htokens, -⟩ := scanFrom_openings c.unknownCharacters 0 (limit + 1) []
  rw [scanFrom_nil, List.append_nil, Nat.zero_add] at htokens
  refine parse_eq_tooDeep_iff.mpr ⟨openings 0 limit, limit, [], ?_, depth_openings 0 limit⟩
  rw [scan, String.toList_ofList, htokens]
  exact tooDeepAt_openings limit _

/-- In front of a dollar sign that is not let past the error for the depth does not come. -/
theorem parse_openings_rejected (limit : Nat) :
    parse limit { unknownCharacters := .reject } (String.ofList (List.replicate (limit + 1) '(' ++ ['$'])) =
      .error (.escaped ⟨'$', limit + 1⟩) := by
  obtain ⟨htokens, hrejected⟩ := scanFrom_openings .reject 0 (limit + 1) ['$']
  rw [scanFrom_reject (by decide), Nat.zero_add] at htokens hrejected
  refine parse_eq_escaped_iff.mpr ⟨?_, openings 0 limit, limit, ?_, depth_openings 0 limit⟩
  · rw [scan, String.toList_ofList]
    exact hrejected
  · rw [scan, String.toList_ofList, htokens]
    exact tooDeepAt_openings limit []

/-- What follows the parenthesis that is too many does have a part in it: at a limit of 197 the 198th one
has 198 open, and for the dollar sign after it nothing is said of the depth. -/
theorem parse_not_tooDeep_before_dollar :
    let source := String.ofList (List.replicate 198 '(' ++ ['$'])
    (∃ read pos after opened, (scan .reject source).tokens = read ++ ⟨.leftParen, pos⟩ :: after ∧
      reach {} read = some ⟨.operand, opened⟩ ∧ unclosed (parens (read ++ [⟨.leftParen, pos⟩])) = 197 + 1 ∧
      ∀ found, (scan .reject source).rejected = some found → pos < found.pos) ∧
    ∃ e, parse 197 { unknownCharacters := .reject } source = .error e ∧
      e.message = "Unexpected character: '$'" := by
  intro source
  have h : parse 197 { unknownCharacters := .reject } source = .error (.escaped ⟨'$', 198⟩) :=
    parse_openings_rejected 197
  obtain ⟨hrejected, read, pos, hat, -⟩ := parse_eq_escaped_iff.mp h
  obtain ⟨htokens, opened, hreach, hmore⟩ := tooDeepAt_iff.mp hat
  refine ⟨⟨read, pos, [], opened, htokens, hreach, hmore, fun found hfound => ?_⟩, _, h, by decide +kernel⟩
  refine pos_lt_of_rejected (t := ⟨.leftParen, pos⟩) hfound ?_
  rw [htokens]
  exact List.mem_append_right read List.mem_cons_self

end IntExpr
