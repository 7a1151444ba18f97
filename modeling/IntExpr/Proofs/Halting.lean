import IntExpr.Proofs.NestingLimit

/-!
# Halting — the token at which a parse halts

A parse halts at a token for what was read before it, and for nothing else: the tokens after it and the
side to which powers group have no part in it (`parseTokens_eq_error_iff`, `parseTokens_of_same_start`).

* `HaltsAt`: after some tokens the machine refuses the next one, or that is a parenthesis too many.
-/

namespace IntExpr

open Pushdown (State reach run step)

/-- After `read` the token `t` halts a parse: the machine refuses it, or it opens one parenthesis too
many. -/
inductive HaltsAt (limit : Nat) (read : List Token) (t : Token) : Reason → Prop
  | refused {s : State} : reach {} read = some s → step s t = .refuse → HaltsAt limit read t s.wanted
  | tooDeep {s : State} : reach {} read = some s → s.mode = .operand → s.opened.length = limit →
    t.symbol = .leftParen → HaltsAt limit read t .tooDeep

variable {limit : Nat} {a b : Associativity} {s : State} {t : Token} {read ts us vs : List Token} {reason : Reason}

/-- Before a token at which it halts for another reason, the parser is within the limit of nesting. -/
theorem depth_le_of_parseTokens (h : parseTokens limit a (read ++ us) = .error ⟨reason, us⟩)
    (hreason : reason ≠ .tooDeep) (hreach : reach {} read = some s) :
    depth 0 (read.map Token.symbol) ≤ limit := by
  refine Nat.not_lt.mp fun hlt => hreason ?_
  obtain ⟨_, _, _, hfirst, -⟩ := exists_first_tooDeepAt hreach hlt
  obtain ⟨p, ws, hdeep⟩ := parseTokens_eq_tooDeep a (hfirst.append us)
  exact (Halt.mk.inj (Except.error.inj (h.symm.trans hdeep))).1

theorem not_tooDeepAt_of_refuse {read' : List Token} {pos : Nat} (hreach : reach {} read = some s)
    (hrefuse : step s t = .refuse) (hfits : depth 0 (read.map Token.symbol) ≤ limit) :
    ¬ TooDeepAt limit read' pos vs (read ++ t :: us) := by
  intro hat
  obtain ⟨mid, rfl, hrest⟩ := exists_rest_of_tooDeepAt hat rfl hfits
  obtain ⟨-, ⟨mode, opened⟩, hreach', hmode, -⟩ := hat
  rw [Pushdown.reach_append hreach] at hreach'
  cases mid with
  | nil =>
    obtain rfl : s = _ := Option.some.inj hreach'
    obtain rfl : mode = .operand := hmode
    obtain ⟨rfl, -⟩ := List.cons.inj hrest
    exact nomatch hrefuse
  | cons u mid =>
    obtain ⟨rfl, -⟩ := List.cons.inj hrest
    obtain ⟨s₁, hgoes, -⟩ := Pushdown.reach_cons_eq_some_iff.mp hreach'
    exact nomatch hgoes.step_eq.symm.trans hrefuse

/-- **A parse halts at a token** exactly if the tokens before it stay within the limit of nesting and the
machine, having read them, refuses that token or finds it one parenthesis too many. -/
theorem parseTokens_eq_error_iff : parseTokens limit a ts = .error ⟨reason, t :: us⟩ ↔
    ∃ read, ts = read ++ t :: us ∧ depth 0 (read.map Token.symbol) ≤ limit ∧
      HaltsAt limit read t reason := by
  constructor
  · intro h
    rcases parseTokens_verdict a ts with hverdict | ⟨read, pos, vs, hat, hfits, hdeep⟩
    · cases hrun : run {} ts with
      | ok _ =>
        rw [h, hrun] at hverdict
        cases hverdict
      | error r =>
        rw [h, hrun] at hverdict
        obtain ⟨rfl, hrest⟩ := Halt.mk.inj (Except.error.inj hverdict)
        obtain ⟨read, rfl, hreach, hrefuse⟩ := Pushdown.reach_of_run_error hrun
        have hstep : step r.state t = .refuse := hrefuse t us hrest.symm
        rw [← hrest] at h ⊢
        exact ⟨read, rfl, depth_le_of_parseTokens h r.state.wanted_ne_tooDeep hreach,
          .refused hreach hstep⟩
    · obtain ⟨rfl, hrest⟩ := Halt.mk.inj (Except.error.inj (h.symm.trans hdeep))
      obtain ⟨rfl, rfl⟩ := List.cons.inj hrest
      obtain ⟨rfl, s, hreach, hmode, hlength⟩ := hat
      exact ⟨read, rfl, hfits, .tooDeep hreach hmode hlength rfl⟩
  · rintro ⟨read, rfl, hfits, hhalts⟩
    cases hhalts with
    | @refused s hreach hrefuse =>
      rcases parseTokens_verdict a (read ++ t :: us) with hverdict | ⟨read', pos, vs, hat, -, -⟩
      · have hrun : run {} (read ++ t :: us) = .error ⟨s, t :: us⟩ := by
          rw [Pushdown.run_append hreach, run, hrefuse]
        exact parseTokens_eq_error hverdict hrun
      · exact absurd hat (not_tooDeepAt_of_refuse hreach hrefuse hfits)
    | @tooDeep s hreach hmode hlength hsymbol =>
      obtain ⟨symbol, pos⟩ := t
      obtain rfl : symbol = .leftParen := hsymbol
      exact parseTokens_of_tooDeepAt a ⟨rfl, s, hreach, hmode, hlength⟩ hfits

/-- **What halts a parse halts it whatever follows**, and to whichever side powers group. -/
theorem parseTokens_of_same_start (b : Associativity) (vs : List Token)
    (h : parseTokens limit a (read ++ t :: us) = .error ⟨reason, t :: us⟩) :
    parseTokens limit b (read ++ t :: vs) = .error ⟨reason, t :: vs⟩ := by
  obtain ⟨read', hread, hfits, hhalts⟩ := parseTokens_eq_error_iff.mp h
  obtain rfl : read = read' := List.append_cancel_right hread
  exact parseTokens_eq_error_iff.mpr ⟨read, rfl, hfits, hhalts⟩

end IntExpr
