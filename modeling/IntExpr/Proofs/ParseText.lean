import IntExpr.Proofs.Lexing
import IntExpr.Proofs.ParserComplete
import IntExpr.Proofs.Pulling

/-!
# ParseText — texts that scan, and their trees

For a text that scans without a rejection the parse is that of its tokens (`parse_eq_ok_iff`,
`parse_eq_error`), and within the limit of nesting its tree is the one tree that the grammar gives to
its symbols (`parse_eq_ok_iff_derivesText`).  A text of the grammar that goes deeper is refused for
that reason and no other (`parse_of_derivesText`).
-/

namespace IntExpr

variable {limit : Nat} {c : Config} {source : String} {ts : List Token} {e : Expr} {reason : Reason}

theorem Halt.error_cons (hne : reason ≠ .tooDeep) (s : Scan) (length : Nat) (t : Token) (us : List Token) :
    (⟨reason, t :: us⟩ : Halt).error s length = reason.error t :=
  Halt.error_of_shown (Halt.shown_of_ne (h := ⟨reason, t :: us⟩) hne) s length

/-- After the last token a rejected character is the error. -/
theorem Halt.error_nil (hne : reason ≠ .tooDeep) {s : Scan} {found : Located} (h : s.rejected = some found)
    (length : Nat) : (⟨reason, []⟩ : Halt).error s length = .rejected found := by
  rw [Halt.error_of_rejected (Halt.shown_of_ne (h := ⟨reason, []⟩) hne) h, Reason.errorAt_of_ne hne]

theorem parse_eq_ok_iff (h : tokenize c.unknownCharacters source = .ok ts) :
    parse limit c source = .ok e ↔ parseTokens limit c.associativity ts = .ok e := by
  obtain ⟨-, rfl⟩ := tokenize_eq_ok_iff.mp h
  rw [parse_eq]
  cases parseTokens limit c.associativity (scan c.unknownCharacters source).tokens with
  | ok e' => simp [Except.mapError]
  | error h' => simp [Except.mapError]

theorem parse_eq_error {t : Token} {us : List Token} (hne : reason ≠ .tooDeep)
    (h : tokenize c.unknownCharacters source = .ok ts)
    (hparse : parseTokens limit c.associativity ts = .error ⟨reason, t :: us⟩) :
    parse limit c source = .error (reason.error t) := by
  obtain ⟨-, rfl⟩ := tokenize_eq_ok_iff.mp h
  rw [parse_eq, hparse]
  exact congrArg Except.error (Halt.error_cons hne _ _ t us)

/-- A text without rejected characters that is nested too deeply is refused for that. -/
theorem exists_parse_eq_tooDeep {us : List Token} (h : tokenize c.unknownCharacters source = .ok ts)
    (hparse : parseTokens limit c.associativity ts = .error ⟨.tooDeep, us⟩) :
    ∃ t, parse limit c source = .error (.tooDeep t) := by
  obtain ⟨hrejected, rfl⟩ := tokenize_eq_ok_iff.mp h
  rw [parse_eq, hparse]
  exact ⟨_, congrArg Except.error (Halt.error_of_complete ⟨.tooDeep, us⟩ hrejected source.length)⟩

/-- What stands in a list only at its end is followed by nothing. -/
theorem eq_nil_of_append_singleton {α : Type} {x : α} {l m after : List α}
    (h : l ++ [x] = m ++ x :: after) (hx : x ∉ l) : after = [] := by
  rcases List.append_eq_append_iff.mp h with ⟨l', rfl, hl'⟩ | ⟨m', rfl, hm'⟩
  · rcases List.cons_eq_append_iff.mp hl' with ⟨-, hafter⟩ | ⟨us, -, hus⟩
    · exact (List.cons.inj hafter).2
    · exact absurd hus.symm (List.append_ne_nil_of_right_ne_nil us (List.cons_ne_nil x after))
  · rcases List.cons_eq_append_iff.mp hm' with ⟨-, hafter⟩ | ⟨us, rfl, -⟩
    · exact (List.cons.inj hafter).2.symm
    · exact absurd (List.mem_append_right m List.mem_cons_self) hx

/-- The grammar's text is all that was scanned, and no deeper than the limit of nesting. -/
theorem derivesText_of_parseTokens (h : tokenize c.unknownCharacters source = .ok ts)
    (hparse : parseTokens limit c.associativity ts = .ok e) :
    DerivesText c.associativity (ts.map Token.symbol) e ∧
      NestsWithin limit (ts.map Token.symbol) := by
  obtain ⟨init, rfl, hinit⟩ := tokens_of_tokenize h
  obtain ⟨body, n, after, hbody, hdepth, hsymbols⟩ := derives_of_parseTokens hparse
  rw [List.map_append, List.map_cons, List.map_nil] at hsymbols ⊢
  have hafter : after = [] := eq_nil_of_append_singleton hsymbols hinit
  rw [hsymbols, hafter]
  refine ⟨⟨body, n, hbody, rfl⟩, nestsWithin_iff.mpr ?_⟩
  rw [hbody.depth_text n]
  exact hdepth

/-! ### Texts of any depth -/

theorem run_of_derivesText {a : Associativity} (h : DerivesText a (ts.map Token.symbol) e) :
    Pushdown.run {} ts = .ok () := by
  obtain ⟨body, n, hbody, hts⟩ := h
  rw [List.append_assoc] at hts
  obtain ⟨bs, rest, rfl, hbs, hrest⟩ := List.map_eq_append_iff.mp hts
  obtain ⟨hends, hend⟩ := endOf_newlines hrest
  have hafter := run_after_sum rest hends
  rw [hend] at hafter
  rw [Pushdown.run_append (Pushdown.reach_of_derives hbody bs [] hbs) rest]
  cases hrun : Pushdown.run ⟨.operator, []⟩ rest with
  | ok _ => rfl
  | error r =>
    rw [hrun] at hafter
    exact nomatch hafter

/-- A text of the grammar has its tree unless it is nested too deeply. -/
theorem parse_of_derivesText (limit : Nat) (hlex : tokenize c.unknownCharacters source = .ok ts)
    (h : DerivesText c.associativity (ts.map Token.symbol) e) :
    (depth 0 (ts.map Token.symbol) ≤ limit → parse limit c source = .ok e) ∧
      (limit < depth 0 (ts.map Token.symbol) → ∃ t, parse limit c source = .error (.tooDeep t)) := by
  refine ⟨fun hdepth => ?_, fun hdepth => ?_⟩
  · exact (parse_eq_ok_iff hlex).mpr (parseTokens_of_derivesText h (nestsWithin_iff.mpr hdepth))
  · rcases parseTokens_verdict c.associativity ts with hverdict | ⟨read, pos, us, -, -, hdeep⟩
    · -- the machine accepts, and so would the parser, but a tree is never that deep
      obtain ⟨e', hparse⟩ := (run_eq_ok_iff hverdict).mp (run_of_derivesText h)
      have hfits := nestsWithin_iff.mp (derivesText_of_parseTokens hlex hparse).2
      exact absurd hdepth (Nat.not_lt.mpr hfits)
    · exact exists_parse_eq_tooDeep hlex hdeep

/-! ### The grammar of texts -/

/-- **Within the limit of nesting the parser finds exactly the tree that the grammar gives to the
symbols of a text**, and the grammar gives no list of symbols more than one. -/
theorem parse_eq_ok_iff_derivesText (hlex : tokenize c.unknownCharacters source = .ok ts)
    (hfit : NestsWithin limit (ts.map Token.symbol)) :
    (∀ t : Expr, parse limit c source = .ok t ↔ DerivesText c.associativity (ts.map Token.symbol) t) ∧
      ∀ (a : Associativity) (ss : List Symbol) (t₁ t₂ : Expr),
        DerivesText a ss t₁ → DerivesText a ss t₂ → t₁ = t₂ := by
  refine ⟨fun t => ?_, fun a ss t₁ t₂ h₁ h₂ => h₁.unique h₂⟩
  rw [parse_eq_ok_iff hlex]
  constructor
  · intro hparse
    exact (derivesText_of_parseTokens hlex hparse).1
  · intro htext
    exact parseTokens_of_derivesText htext hfit

/-- Powers that group to the right, a sign and parentheses, and a newline at the end. -/
theorem parse_eq_ok_of_sign_and_powers :
    tokenize .skip "2^-(3)^4\n" = .ok
      [⟨.number "2", 0⟩, ⟨.op .pow, 1⟩, ⟨.op .sub, 2⟩, ⟨.leftParen, 3⟩, ⟨.number "3", 4⟩,
        ⟨.rightParen, 5⟩, ⟨.op .pow, 6⟩, ⟨.number "4", 7⟩, ⟨.newline, 8⟩, ⟨.finish, 9⟩] ∧
    parse 1 { associativity := .right } "2^-(3)^4\n" = .ok
      (.binary .pow (.literal "2") (.binary .pow (.binary .sub (.literal "0") (.literal "3"))
        (.literal "4"))) := by
  have hlex : tokenize .skip "2^-(3)^4\n" = .ok
      [⟨.number "2", 0⟩, ⟨.op .pow, 1⟩, ⟨.op .sub, 2⟩, ⟨.leftParen, 3⟩, ⟨.number "3", 4⟩,
        ⟨.rightParen, 5⟩, ⟨.op .pow, 6⟩, ⟨.number "4", 7⟩, ⟨.newline, 8⟩, ⟨.finish, 9⟩] := by
    decide +kernel
  have hbase : Derives .right .factor [.op .sub, .leftParen, .number "3", .rightParen]
      (.binary .sub (.literal "0") (.literal "3")) :=
    (((Derives.number "3").chain_of_factor .sum).paren).minus
  have hpower : Derives .right (.chain .power)
      [.op .sub, .leftParen, .number "3", .rightParen, .op .pow, .number "4"]
      (.binary .pow (.binary .sub (.literal "0") (.literal "3")) (.literal "4")) :=
    hbase.link_factors .pow (.number "4")
  have hsum := Derives.sum_of_chain .power (Derives.linkRight (o := .pow) rfl (.number "2") hpower)
  exact ⟨hlex, ((parse_eq_ok_iff_derivesText (c := { associativity := .right }) hlex
    (nestsWithin_iff.mpr (by decide))).1 _).mpr ⟨_, 1, hsum, rfl⟩⟩

end IntExpr
