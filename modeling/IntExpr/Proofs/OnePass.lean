import IntExpr.Diagnostic
import IntExpr.Proofs.ParseText

/-!
# OnePass — the outcome of a parse, read off the pushdown machine

Whether a text has a tree, and what is said where it has none, is decided by one run of the pushdown
machine over its tokens (`parse_eq_run`).  The column of an unmatched parenthesis is counted from the
start of the text: no newline is read while a parenthesis is open, so that it stands on the first line
(`location_of_opened`).
-/

namespace IntExpr

open Pushdown (State Refusal reach run)

/-- What is said of a token that is refused in a state. -/
def Pushdown.State.complaint (s : State) (found : Symbol) : String :=
  match s.mode, s.opened with
  | .operand, _ => s!"Expected a number, sign or '(', got {found.describe}"
  | .operator, p :: _ => s!"Unmatched '(' at column {p + 1}: expected ')', got {found.describe}"
  | _, _ => s!"Unexpected token after expression: {Text.quote found.lexeme}"

variable {limit : Nat} {c : Config} {source : String} {ts read us : List Token} {found : Token} {s : State}
  {r : Refusal}

/-! ### Places on the first line -/

theorem location_of_firstLine {p : Nat} (hp : p ≤ source.toList.length)
    (hnew : '\n' ∉ source.toList.take p) :
    (Location.ofOffset source p).line = 1 ∧ (Location.ofOffset source p).column = p + 1 := by
  have hclamp : Location.clamp source.toList.length p = p := Location.clamp_of_le hp
  have hcount : (source.toList.take p).count '\n' = 0 := List.count_eq_zero.mpr hnew
  have hlast : Location.lastLine (source.toList.take p) = source.toList.take p := by
    have hall : ∀ x ∈ (source.toList.take p).reverse, decide (x ≠ '\n') = true := by
      intro x hx
      rw [List.mem_reverse] at hx
      exact decide_eq_true fun heq => hnew (heq ▸ hx)
    rw [Location.lastLine, List.takeWhile_eq_self_iff.mpr hall, List.reverse_reverse]
  simp only [Location.ofOffset]
  rw [hclamp, hcount, hlast, List.length_take, Nat.min_eq_left hp]
  exact ⟨rfl, rfl⟩

/-- An open parenthesis stands on the first line. -/
theorem location_of_opened (hlex : tokenize c.unknownCharacters source = .ok (read ++ us))
    (hreach : reach {} read = some s) {p : Nat} (hp : p ∈ s.opened) :
    (Location.ofOffset source p).line = 1 ∧ (Location.ofOffset source p).column = p + 1 := by
  obtain ⟨-, htokens⟩ := tokenize_eq_ok_iff.mp hlex
  -- with a parenthesis open the machine has not yet met a newline
  have hmode : s.mode ≠ .tail := by
    intro htail
    rw [Pushdown.opened_eq_nil_of_tail hreach htail] at hp
    exact List.not_mem_nil hp
  have hnew := Pushdown.not_newline_of_reach hreach hmode
  rcases Pushdown.leftParen_of_mem_opened hreach hp with hnil | ⟨pre, post, rfl⟩
  · exact absurd hnil List.not_mem_nil
  · rw [List.append_assoc, List.cons_append] at htokens
    obtain ⟨k, hpos, hk, hbefore⟩ := newline_before_of_scanFrom htokens
    obtain rfl : p = k := hpos.trans (Nat.zero_add k)
    refine location_of_firstLine hk fun hmem => hnew ?_
    rw [List.map_append]
    exact List.mem_append_left _ (hbefore hmem)

/-! ### The refused token -/

/-- A text is refused at one of its tokens, at the end if at none before it. -/
theorem exists_found_of_run (hlex : tokenize c.unknownCharacters source = .ok ts)
    (hrun : run {} ts = .error r) : ∃ found us, r.rest = found :: us := by
  obtain ⟨init, rfl, -⟩ := tokens_of_tokenize hlex
  obtain ⟨read, hread, hreach, -⟩ := Pushdown.reach_of_run_error hrun
  cases hrest : r.rest with
  | cons found us => exact ⟨found, us, rfl⟩
  | nil =>
    rw [hrest, List.append_nil] at hread
    have hfinish := Pushdown.finish_not_mem_of_reach hreach
    rw [← hread, List.map_append] at hfinish
    exact absurd (List.mem_append_right _ List.mem_cons_self) hfinish

/-- A refusal by the machine is the error of the parse, at the refused token. -/
theorem parse_of_run_error (hlex : tokenize c.unknownCharacters source = .ok ts)
    (hfit : NestsWithin limit (ts.map Token.symbol)) (hrun : run {} ts = .error r) :
    ∃ read found us, r.rest = found :: us ∧ ts = read ++ found :: us ∧ reach {} read = some r.state ∧
      Pushdown.step r.state found = .refuse ∧ parse limit c source = .error (r.state.wanted.error found) := by
  obtain ⟨found, us, hrest⟩ := exists_found_of_run hlex hrun
  obtain ⟨read, hread, hreach, hrefuse⟩ := Pushdown.reach_of_run_error hrun
  have hparse := parseTokens_eq_error (parseTokens_eq_run c.associativity hfit) hrun
  rw [Refusal.halt, hrest] at hparse
  exact ⟨read, found, us, hrest, hrest ▸ hread, hreach, hrefuse found us hrest,
    parse_eq_error r.state.wanted_ne_tooDeep hlex hparse⟩

theorem diagnostic_of_wanted (s : State) (found : Token) (source : String) :
    ((s.wanted.error found).diagnostic source).kind = .expression ∧
      ((s.wanted.error found).diagnostic source).pos = some (found.pos : Int) ∧
      ((s.wanted.error found).diagnostic source).message = s.complaint found.symbol := by
  obtain ⟨mode, opened⟩ := s
  cases mode with
  | operand => exact ⟨rfl, rfl, rfl⟩
  | operator => cases opened <;> exact ⟨rfl, rfl, rfl⟩
  | tail => exact ⟨rfl, rfl, rfl⟩

/-- **One pass over the tokens decides a parse.**  The text has a tree where the machine accepts; where
it refuses a token, the error is at that token and says what the state of the machine says. -/
theorem parse_eq_run (hlex : tokenize c.unknownCharacters source = .ok ts)
    (hfit : NestsWithin limit (ts.map Token.symbol)) :
    ((∃ t, parse limit c source = .ok t) ↔ run {} ts = .ok ()) ∧
      ∀ r, run {} ts = .error r → ∃ found us e, r.rest = found :: us ∧
        parse limit c source = .error e ∧ (e.diagnostic source).kind = .expression ∧
        (e.diagnostic source).pos = some (found.pos : Int) ∧
        (e.diagnostic source).message = r.state.complaint found.symbol ∧
        ∀ p ∈ r.state.opened, (Location.ofOffset source p).line = 1 ∧
          (Location.ofOffset source p).column = p + 1 := by
  have hverdict := parseTokens_eq_run c.associativity hfit
  refine ⟨?_, fun r hrun => ?_⟩
  · rw [run_eq_ok_iff hverdict]
    exact exists_congr fun t => parse_eq_ok_iff hlex
  · obtain ⟨found, us, hrest⟩ := exists_found_of_run hlex hrun
    obtain ⟨read, hread, hreach, -⟩ := Pushdown.reach_of_run_error hrun
    have hparse := parseTokens_eq_error hverdict hrun
    rw [Refusal.halt, hrest] at hparse
    obtain ⟨hkind, hpos, hmessage⟩ := diagnostic_of_wanted r.state found source
    refine ⟨found, us, _, hrest, parse_eq_error r.state.wanted_ne_tooDeep hlex hparse, hkind, hpos,
      hmessage, fun p hp => ?_⟩
    exact location_of_opened (hread ▸ hlex) hreach hp

/-- A parenthesis that the end of a line leaves open. -/
theorem parse_eq_error_of_open_line :
    ∃ e, parse 200 {} "(1\n+2" = .error e ∧ (e.diagnostic "(1\n+2").kind = .expression ∧
      (e.diagnostic "(1\n+2").pos = some 2 ∧ (e.diagnostic "(1\n+2").message =
        "Unmatched '(' at column 1: expected ')', got end of line" := by
  have hlex : tokenize .skip "(1\n+2" = .ok [⟨.leftParen, 0⟩, ⟨.number "1", 1⟩, ⟨.newline, 2⟩,
      ⟨.op .add, 3⟩, ⟨.number "2", 4⟩, ⟨.finish, 5⟩] := by decide +kernel
  obtain ⟨found, us, e, hrest, hparse, hkind, hpos, hmessage, -⟩ :=
    (parse_eq_run (c := {}) hlex (show NestsWithin 200 _ from nestsWithin_iff.mpr (by decide))).2
      ⟨⟨.operator, [0]⟩, [⟨.newline, 2⟩, ⟨.op .add, 3⟩, ⟨.number "2", 4⟩, ⟨.finish, 5⟩]⟩ rfl
  obtain rfl := (List.cons.inj hrest).1
  exact ⟨e, hparse, hkind, hpos, hmessage⟩

end IntExpr
