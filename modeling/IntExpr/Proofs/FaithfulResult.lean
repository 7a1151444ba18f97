import IntExpr.ParseResult
import IntExpr.Proofs.NestingLimit

/-!
# FaithfulResult — what the result of a parse says

A text has a result, with a tree or with an error and never with both, and whatever the result is asked,
it answers from that tree or that error (`ParseResult.ofSource_faithful`).  The one text that has none has
a character that is not let past right after a parenthesis that is too many.  An error points into the
text or at its end (`pos_of_parse_error`).  It is made of a rejected character just if the parse comes as
far as that character (`parse_eq_rejected_iff`).
-/

namespace IntExpr

open Pushdown (reach)

variable {limit : Nat} {c : Config} {source : String} {policy : UnknownCharacters} {t : Token} {found : Located}
  {e : ParseError} {p : Nat}

/-! ### Offsets -/

theorem pos_le_length (h : t ∈ (scan policy source).tokens) : t.pos ≤ source.length := by
  obtain ⟨pre, post, hsplit⟩ := List.append_of_mem h
  obtain ⟨k, hpos, hk, -⟩ := newline_before_of_scanFrom hsplit
  rw [String.length_toList] at hk
  omega

theorem pos_lt_length (h : (scan policy source).rejected = some found) : found.pos < source.length := by
  obtain ⟨-, hget, -, -⟩ := rejected_eq_some_iff.mp h
  obtain ⟨hlt, -⟩ := List.getElem?_eq_some_iff.mp hget
  rwa [String.length_toList] at hlt

theorem Reason.pos_of_error (reason : Reason) (t : Token) : (reason.error t).pos = t.pos := by
  cases reason <;> rfl

theorem Reason.pos_of_errorAt (reason : Reason) (found : Located) : (reason.errorAt found).pos = found.pos := by
  cases reason <;> rfl

/-- An error points into the text or at its end. -/
theorem pos_of_parse_error (h : parse limit c source = .error e) : e.pos ≤ source.length := by
  obtain ⟨halt, -, ⟨t, us, -, ht, rfl⟩ | ⟨found, -, hrejected, rfl⟩⟩ := parse_error_cases h
  · rw [Reason.pos_of_error]
    exact pos_le_length ht
  · rw [Reason.pos_of_errorAt]
    exact Nat.le_of_lt (pos_lt_length hrejected)

/-! ### The rejected character -/

/-- A parse comes as far as the rejected character: it goes on at every token in front of it, none of
which is a parenthesis too many, and so it wants one more token. -/
structure Meets (limit : Nat) (c : Config) (source : String) (found : Located) : Prop where
  rejected : (scan c.unknownCharacters source).rejected = some found
  goes : ∃ s, reach {} (scan c.unknownCharacters source).tokens = some s
  fits : NestsWithin limit ((scan c.unknownCharacters source).tokens.map Token.symbol)

theorem parse_eq_rejected_iff : parse limit c source = .error (.rejected found) ↔ Meets limit c source found := by
  constructor
  · intro h
    obtain ⟨⟨reason, rest⟩, hparse, ⟨t, us, -, -, he⟩ | ⟨found', hshown, hrejected, he⟩⟩ := parse_error_cases h
    · cases reason <;> cases he
    · have hreason : reason ≠ .tooDeep := by
        rintro rfl
        cases he
      obtain rfl : found = found' := ParseError.rejected.inj (he.trans (Reason.errorAt_of_ne hreason found'))
      obtain rfl : rest = [] := (Halt.shown_of_ne (h := ⟨reason, rest⟩) hreason).symm.trans hshown
      obtain ⟨hgoes, hfits⟩ := reach_of_parseTokens hparse
      exact ⟨hrejected, hgoes, hfits⟩
  · rintro ⟨hrejected, ⟨s, hreach⟩, hfits⟩
    have hrun := Pushdown.run_append hreach []
    rw [List.append_nil] at hrun
    exact parse_rejected hfits hrun hrejected

/-! ### Reports -/

/-- What is said of the error of a text. -/
structure ReportsFaithfully (limit : Nat) (c : Config) (source : String) (e : ParseError) (d : Diagnostic) :
    Prop where
  kind : d.kind = .expression
  message : d.message = e.message
  /-- The offset lies in the text or at its end, and the place is that of the offset. -/
  place : ∃ p, p ≤ source.length ∧ d.pos = some (p : Int) ∧ d.context = some (Location.ofOffset source p)
  /-- The report is made of that of a character just if the parse comes as far as that character. -/
  cause : d.cause = some .token ↔ ∃ found, Meets limit c source found
  /-- It then says what the report of the character says. -/
  repeats : ∀ found, Meets limit c source found →
    (found.diagnostic source).kind = .token ∧ d.message = (found.diagnostic source).message ∧
      d.pos = (found.diagnostic source).pos ∧ d.context = (found.diagnostic source).context

theorem cause_eq_token_iff : (e.diagnostic source).cause = some .token ↔ ∃ found, e = .rejected found := by
  cases e with
  | rejected found => exact ⟨fun _ => ⟨found, rfl⟩, fun _ => rfl⟩
  | operandExpected | closingExpected | endExpected | tooDeep | escaped =>
    refine ⟨nofun, ?_⟩
    rintro ⟨found, he⟩
    cases he

/-- The error of a text is reported faithfully, unless a character's own error comes out. -/
theorem diagnostic_faithful (h : parse limit c source = .error e) (hescaped : ∀ found, e ≠ .escaped found) :
    ReportsFaithfully limit c source e (e.diagnostic source) where
  kind := by
    cases e with
    | escaped found => exact absurd rfl (hescaped found)
    | operandExpected | closingExpected | endExpected | rejected | tooDeep => rfl
  message := rfl
  place := ⟨e.pos, pos_of_parse_error h, rfl, rfl⟩
  cause := by
    rw [cause_eq_token_iff]
    refine exists_congr fun found => ?_
    rw [← parse_eq_rejected_iff, h]
    exact ⟨congrArg Except.error, Except.error.inj⟩
  repeats found hmeets := by
    obtain rfl : e = .rejected found := Except.error.inj (h.symm.trans (parse_eq_rejected_iff.mpr hmeets))
    exact ⟨rfl, rfl, rfl, rfl⟩

namespace ParseResult

/-- Whatever the result is asked, it answers from the tree `t`; its value is that of `t` under `c`. -/
structure GivesTree (r : ParseResult) (c : Config) (t : Expr) : Prop where
  tree : r.tree? = some t
  error : r.error? = none
  isOk : r.isOk = true
  unwrap : r.unwrap = .ok t
  value : r.value = (t.evaluate c).mapError .fault

/-- Whatever the result is asked, it answers from the error `e`. -/
structure GivesError (r : ParseResult) (e : ParseError) : Prop where
  tree : r.tree? = none
  error : r.error? = some e
  isOk : r.isOk = false
  unwrap : r.unwrap = .error (.failed e)
  value : r.value = .error (.failed e)

theorem givesTree_of_outcome {r : ParseResult} {t : Expr} (h : r.outcome = some (.ok t)) :
    r.GivesTree r.config t := by
  have hunwrap : r.unwrap = .ok t := by rw [unwrap, h]
  have herror : r.error? = none := by rw [error?, h]
  refine ⟨?_, herror, ?_, hunwrap, ?_⟩
  · rw [tree?, h]
  · rw [isOk, herror]
    rfl
  · rw [ParseResult.value, hunwrap]

theorem givesError_of_outcome {r : ParseResult} (h : r.outcome = some (.error e)) : r.GivesError e := by
  have hunwrap : r.unwrap = .error (.failed e) := by rw [unwrap, h]
  have herror : r.error? = some e := by rw [error?, h]
  refine ⟨?_, herror, ?_, hunwrap, ?_⟩
  · rw [tree?, h]
  · rw [isOk, herror]
    rfl
  · rw [ParseResult.value, hunwrap]

theorem ofSource_of_ne (hescaped : ∀ found, e ≠ .escaped found) (h : parse limit c source = .error e) :
    ofSource limit c source = .ok ⟨source, c, some (.error e)⟩ := by
  rw [ofSource, h]
  cases e with
  | escaped found => exact absurd rfl (hescaped found)
  | operandExpected | closingExpected | endExpected | rejected | tooDeep => rfl

theorem ofSource_of_escaped (h : parse limit c source = .error (.escaped found)) :
    ofSource limit c source = .error found := by
  rw [ofSource, h]

/-- **A text has a result, and it is faithful**, or the error of a character comes out instead.  The result
gives the tree of the parse, or its error, whose report is faithful.  Nested too deeply a text has that
error, which points at the token after the first parenthesis that is too many; where there is no such
token, a character that is not let past stands there, and its error comes out.  The answers of a result do
not change it, and so they are the same in any order and however often it is asked. -/
theorem ofSource_faithful (limit : Nat) (c : Config) (source : String) :
    ((∃ t r, parse limit c source = .ok t ∧ ofSource limit c source = .ok r ∧ r.GivesTree c t) ∨
      (∃ e r, parse limit c source = .error e ∧ ofSource limit c source = .ok r ∧ r.GivesError e ∧
        ReportsFaithfully limit c source e (e.diagnostic source)) ∨
      ∃ found, parse limit c source = .error (.escaped found) ∧ ofSource limit c source = .error found) ∧
    ∀ read pos after, TooDeepAt limit read pos after (scan c.unknownCharacters source).tokens →
      NestsWithin limit (read.map Token.symbol) →
      (∀ t us, after = t :: us → ∃ r, ofSource limit c source = .ok r ∧ r.GivesError (.tooDeep t)) ∧
      (after = [] → ∃ found, (scan c.unknownCharacters source).rejected = some found ∧
        ofSource limit c source = .error found) := by
  refine ⟨?_, fun read pos after hat hfits => ⟨?_, ?_⟩⟩
  · cases h : parse limit c source with
    | ok t =>
      refine .inl ⟨t, ⟨source, c, some (.ok t)⟩, rfl, ?_, givesTree_of_outcome rfl⟩
      rw [ofSource, h]
    | error e =>
      right
      by_cases hescaped : ∀ found, e ≠ .escaped found
      · exact .inl ⟨e, _, rfl, ofSource_of_ne hescaped h, givesError_of_outcome rfl,
          diagnostic_faithful h hescaped⟩
      · push Not at hescaped
        obtain ⟨found, rfl⟩ := hescaped
        exact .inr ⟨found, rfl, ofSource_of_escaped h⟩
  · rintro t us rfl
    have h := parse_eq_tooDeep_iff.mpr ⟨read, pos, us, hat, nestsWithin_iff.mp hfits⟩
    exact ⟨_, ofSource_of_ne (fun _ hne => by cases hne) h, givesError_of_outcome rfl⟩
  · rintro rfl
    cases hrejected : (scan c.unknownCharacters source).rejected with
    | some found =>
      have h := parse_eq_escaped_iff.mpr ⟨hrejected, read, pos, hat, nestsWithin_iff.mp hfits⟩
      exact ⟨found, rfl, ofSource_of_escaped h⟩
    | none =>
      -- a text that scans to its end has the end after the parenthesis
      have hparse := parseTokens_of_tooDeepAt c.associativity hat (nestsWithin_iff.mp hfits)
      exact absurd rfl (shown_ne_nil hrejected hparse)

/-- At a limit of 197 no result is made of 198 open parentheses and a dollar sign that is not let past. -/
theorem ofSource_raises_at_dollar :
    ofSource 197 { unknownCharacters := .reject } (String.ofList (List.replicate 198 '(' ++ ['$'])) =
      .error ⟨'$', 198⟩ :=
  ofSource_of_escaped (parse_openings_rejected 197)

end ParseResult

end IntExpr
