import IntExpr.Proofs.Concatenation
import IntExpr.Proofs.Halting
import IntExpr.Proofs.Strictness

/-!
# Rejection — errors that no further text takes away

A text that is refused at one of its tokens before the end, for a character, or for its nesting stays
refused, with the same error, whatever is written after it (`parse_append_of_error`).  The texts must not
share a run of digits, since that would be one token of the longer text.  Only where the parenthesis that
is too many is the last token of the text does more text matter: the error points at what is written
next, and if that is a character that is not let past, it is the error of that character.

* `parse_append_of_shown`: the two parses, stopped at one token.
* `parse_append_of_last_open`: the parenthesis that is too many, at the end of the first text.
-/

namespace IntExpr

open Pushdown (run)

/-- An error that is not for want of more text: at a token that is not the end, or at a character that is
not let past. -/
def ParseError.Final : ParseError → Prop
  | .operandExpected t | .closingExpected _ t | .endExpected t | .tooDeep t => t.symbol ≠ .finish
  | .rejected _ | .escaped _ => True

variable {limit : Nat} {a : Associativity} {c : Config} {u v : String} {t : Token}
  {read us init : List Token} {reason : Reason} {e : ParseError}

/-! ### The token of an error -/

theorem Reason.symbol_ne_finish (h : (reason.error t).Final) : t.symbol ≠ .finish := by
  cases reason <;> exact h

theorem exists_before_last {l : Token} (h : init ++ [l] = read ++ t :: us) (ht : t ≠ l) :
    ∃ ws, init = read ++ t :: ws := by
  rcases us.eq_nil_or_concat with rfl | ⟨ws, l', rfl⟩
  · obtain ⟨-, hl⟩ := List.append_inj' h rfl
    exact absurd (List.cons.inj hl).1.symm ht
  · rw [List.concat_eq_append, ← List.cons_append, ← List.append_assoc] at h
    exact ⟨ws, List.append_inj_left' h rfl⟩

/-- An error that points at a token before the last points at it whatever stands in the place of the
last. -/
theorem parseTokens_of_other_end {halt : Halt} {l : Token} (h : parseTokens limit a (init ++ [l]) = .error halt)
    (hshown : halt.shown = t :: us) (ht : t ≠ l) (vs : List Token) :
    ∃ halt' ws, parseTokens limit a (init ++ vs) = .error halt' ∧ halt'.reason = halt.reason ∧
      halt'.shown = t :: ws := by
  obtain ⟨reason, rest⟩ := halt
  by_cases hreason : reason = .tooDeep
  · subst hreason
    obtain ⟨read, pos, us', rfl, ⟨hread, -⟩, -⟩ := parseTokens_eq_tooDeep_iff.mp h
    obtain rfl : us' = t :: us := hshown
    have hsplit : init ++ [l] = (read ++ [⟨.leftParen, pos⟩]) ++ t :: us := by
      rw [hread, List.append_assoc]
      rfl
    obtain ⟨ws, rfl⟩ := exists_before_last hsplit ht
    rw [hread] at h
    refine ⟨⟨.tooDeep, ⟨.leftParen, pos⟩ :: t :: (ws ++ vs)⟩, ws ++ vs, ?_, rfl, rfl⟩
    rw [List.append_assoc, List.append_assoc]
    exact parseTokens_of_same_start a (t :: (ws ++ vs)) h
  · obtain rfl : rest = t :: us := (Halt.shown_of_ne (h := ⟨reason, rest⟩) hreason).symm.trans hshown
    obtain ⟨read, hread, -, -⟩ := parseTokens_eq_error_iff.mp h
    obtain ⟨ws, rfl⟩ := exists_before_last hread ht
    rw [hread] at h
    refine ⟨⟨reason, t :: (ws ++ vs)⟩, ws ++ vs, ?_, rfl, Halt.shown_of_ne hreason⟩
    rw [List.append_assoc]
    exact parseTokens_of_same_start a (ws ++ vs) h

/-! ### Two parses -/

/-- A token before the end that the error of a text points at is that of the error of every longer text. -/
theorem parse_append_of_shown {halt : Halt} (hapart : Apart u.toList v.toList)
    (hparse : parseTokens limit c.associativity (scan c.unknownCharacters u).tokens = .error halt)
    (hshown : halt.shown = t :: us) (ht : t.symbol ≠ .finish) :
    parse limit c (u ++ v) = .error (halt.reason.error t) := by
  cases hrejected : (scan c.unknownCharacters u).rejected with
  | some x =>
    rw [← scan_append_of_rejected hapart hrejected] at hparse
    exact parse_of_shown hparse hshown
  | none =>
    obtain ⟨init, hu, huv⟩ := tokens_append hapart hrejected
    rw [hu] at hparse
    have hne : t ≠ ⟨.finish, u.length⟩ := by
      rintro rfl
      exact ht rfl
    obtain ⟨halt', ws, hlonger, hreason, hshown'⟩ := parseTokens_of_other_end hparse hshown hne
      ((scan c.unknownCharacters v).tokens.map (Token.shift u.length))
    rw [← huv] at hlonger
    rw [← hreason]
    exact parse_of_shown hlonger hshown'

/-- A parenthesis that is too many at the end of the first text is so in the longer text, and the error
points at what is written after it. -/
theorem parse_append_of_last_open (hapart : Apart u.toList v.toList)
    (h : parse limit c u = .error (.tooDeep t)) (ht : t.symbol = .finish) :
    (∀ t' vs, (scan c.unknownCharacters v).tokens = t' :: vs →
      parse limit c (u ++ v) = .error (.tooDeep (t'.shift u.length))) ∧
    ∀ x, (scan c.unknownCharacters v).tokens = [] → (scan c.unknownCharacters v).rejected = some x →
      parse limit c (u ++ v) = .error (.escaped (x.shift u.length)) := by
  obtain ⟨read, pos, us, ⟨htokens, hreach⟩, hfits⟩ := parse_eq_tooDeep_iff.mp h
  cases hrejected : (scan c.unknownCharacters u).rejected with
  | some x =>
    -- a text that is cut short has no end
    refine absurd ?_ (finish_not_mem_of_rejected hrejected)
    rw [htokens, List.map_append, List.map_cons, List.map_cons, ht]
    exact List.mem_append_right _ (List.mem_cons_of_mem _ List.mem_cons_self)
  | none =>
    obtain ⟨init, hu, huv⟩ := tokens_append hapart hrejected
    have hend : t = ⟨.finish, u.length⟩ := by
      have hlex := tokenize_eq_ok_iff.mpr ⟨hrejected, htokens⟩
      have hpos := pos_of_finish hlex (List.mem_append_right read (List.mem_cons_of_mem _ List.mem_cons_self)) ht
      rw [← ht, ← hpos]
    have hsplit : init ++ [t] = (read ++ [⟨.leftParen, pos⟩]) ++ t :: us := by
      rw [List.append_assoc, hend, ← hu, htokens, hend]
      rfl
    have hnot : t ∉ init := by
      obtain ⟨init', hinit', hfinish⟩ := tokens_of_scanFrom hrejected
      obtain rfl : init' = init := List.append_inj_left' (hinit'.symm.trans hu) rfl
      exact fun hmem => hfinish (ht ▸ List.mem_map_of_mem hmem)
    obtain rfl : us = [] := eq_nil_of_append_singleton hsplit hnot
    obtain rfl : init = read ++ [⟨.leftParen, pos⟩] := List.append_inj_left' hsplit rfl
    rw [List.append_assoc, List.singleton_append] at huv
    refine ⟨fun t' vs hv => ?_, fun x hnil hx => ?_⟩
    · rw [hv, List.map_cons] at huv
      exact parse_eq_tooDeep_iff.mpr ⟨read, pos, _, ⟨huv, hreach⟩, hfits⟩
    · rw [hnil, List.map_nil] at huv
      refine parse_eq_escaped_iff.mpr ⟨?_, read, pos, ⟨huv, hreach⟩, hfits⟩
      rw [rejected_append hapart hrejected, hx]
      rfl

/-- **An error that is not for want of more text stays whatever text follows**: the same token, character
or parenthesis stops the parse, and the same is said of it, at the same offset and with the same cause.
The two texts must not share a run of digits.  An error for the depth that points at the end moves to the
first token of the second text, unless a character that is not let past comes before any. -/
theorem parse_append_of_error (hapart : Apart u.toList v.toList) (h : parse limit c u = .error e) :
    (e.Final → parse limit c (u ++ v) = .error e ∧
      (e.diagnostic (u ++ v)).message = (e.diagnostic u).message ∧
      (e.diagnostic (u ++ v)).pos = (e.diagnostic u).pos ∧
      (e.diagnostic (u ++ v)).cause = (e.diagnostic u).cause) ∧
    ∀ t, e = .tooDeep t → t.symbol = .finish →
      (∀ t' vs, (scan c.unknownCharacters v).tokens = t' :: vs →
        parse limit c (u ++ v) = .error (.tooDeep (t'.shift u.length))) ∧
      ∀ x, (scan c.unknownCharacters v).tokens = [] → (scan c.unknownCharacters v).rejected = some x →
        parse limit c (u ++ v) = .error (.escaped (x.shift u.length)) := by
  refine ⟨fun hfinal => ⟨?_, rfl, rfl, rfl⟩, ?_⟩
  · obtain ⟨halt, hparse, ⟨t, us, hshown, -, rfl⟩ | ⟨x, hshown, hrejected, rfl⟩⟩ := parse_error_cases h
    · exact parse_append_of_shown hapart hparse hshown (Reason.symbol_ne_finish hfinal)
    · rw [← scan_append_of_rejected hapart hrejected] at hparse hrejected
      exact parse_of_rejected hparse hshown hrejected
  · rintro t rfl ht
    exact parse_append_of_last_open hapart h ht

/-- A parenthesis that is left open stays so, in front of a character that is not let past. -/
theorem parse_append_of_open_parenthesis :
    parse 200 { unknownCharacters := .reject } "(1 2" = .error (.closingExpected 0 ⟨.number "2", 3⟩) ∧
      parse 200 { unknownCharacters := .reject } ("(1 2" ++ "$ ((") =
        .error (.closingExpected 0 ⟨.number "2", 3⟩) := by
  have hscan : (scan .reject "(1 2").tokens =
      [⟨.leftParen, 0⟩, ⟨.number "1", 1⟩, ⟨.number "2", 3⟩, ⟨.finish, 4⟩] := by decide +kernel
  have hfit : NestsWithin 200 ((scan .reject "(1 2").tokens.map Token.symbol) :=
    hscan ▸ nestsWithin_iff.mpr (by decide)
  have hrun : run {} (scan .reject "(1 2").tokens =
      .error ⟨⟨.operator, [0]⟩, [⟨.number "2", 3⟩, ⟨.finish, 4⟩]⟩ := hscan ▸ rfl
  have hparse : parse 200 { unknownCharacters := .reject } "(1 2" =
      .error (.closingExpected 0 ⟨.number "2", 3⟩) :=
    parse_refused (c := { unknownCharacters := .reject }) hfit hrun
  have hapart : Apart "(1 2".toList "$ ((".toList := by
    intro x y _ hy _
    obtain rfl : '$' = y := Option.some.inj hy
    rfl
  have hfinal : (ParseError.closingExpected 0 ⟨.number "2", 3⟩).Final := nofun
  exact ⟨hparse, ((parse_append_of_error hapart hparse).1 hfinal).1⟩

/-- The error for the depth is not final where it points at the end: at a limit of 197 a dollar sign after
198 open parentheses takes it away. -/
theorem parse_append_dollar_of_open :
    let u := String.ofList (List.replicate 198 '(')
    Apart u.toList "$".toList ∧
      (∃ e, parse 197 { unknownCharacters := .reject } u = .error e ∧
        e.message = "Expression is nested too deeply") ∧
      ∃ e, parse 197 { unknownCharacters := .reject } (u ++ "$") = .error e ∧
        e.message = "Unexpected character: '$'" := by
  intro u
  have hapart : Apart u.toList "$".toList := by
    intro x y _ hy _
    obtain rfl : '$' = y := Option.some.inj hy
    rfl
  have hopen : parse 197 { unknownCharacters := .reject } u = .error (.tooDeep ⟨.finish, 198⟩) :=
    parse_openings 197 _
  have hdollar := parse_openings_rejected 197
  rw [String.ofList_append] at hdollar
  exact ⟨hapart, ⟨_, hopen, rfl⟩, _, hdollar, by decide +kernel⟩

end IntExpr
