import IntExpr.Proofs.ParserSound

/-!
# ParseTokens — the verdict on a list of tokens

The parser and the pushdown machine agree on every list of tokens (`parseTokens_verdict`): both accept
it, or both stop at the same token for the same reason, unless the parser has met one parenthesis too
many before that, and then it halts there (`parseTokens_of_tooDeepAt`).  So it stops at the same token to
whichever side powers group (`parseTokens_halts_alike`).  A tree that the parser finds is the grammar's
(`derives_of_parseTokens`).
-/

namespace IntExpr

open Pushdown (State Refusal Goes reach run step)

/-- A refusal as a halt of the parser. -/
def Pushdown.Refusal.halt (r : Refusal) : Halt := ⟨r.state.wanted, r.rest⟩

/-- The machine has read `read`, and the next token opens one parenthesis too many. -/
def TooDeepAt (limit : Nat) (read : List Token) (pos : Nat) (us : List Token) (ts : List Token) : Prop :=
  ts = read ++ ⟨.leftParen, pos⟩ :: us ∧
    ∃ s, reach {} read = some s ∧ s.mode = .operand ∧ s.opened.length = limit

variable {limit : Nat} {a : Associativity} {ts us read : List Token} {e : Expr}

/-! ### The end of a text -/

theorem run_tail (ts : List Token) :
    (run ⟨.tail, []⟩ ts).mapError Refusal.halt = endOf (ts.dropWhile (·.symbol = .newline)) := by
  induction ts with
  | nil => rfl
  | cons t ts ih =>
    obtain ⟨symbol, pos⟩ := t
    cases symbol with
    | newline => exact ih
    | number | op | leftParen | rightParen | finish => rfl

theorem run_after_sum (ts : List Token) (hends : (Phrase.chain .sum).EndsBefore ts) :
    (run ⟨.operator, []⟩ ts).mapError Refusal.halt = endOf (ts.dropWhile (·.symbol = .newline)) := by
  cases ts with
  | nil => rfl
  | cons t ts =>
    obtain ⟨symbol, pos⟩ := t
    cases symbol with
    | newline => exact run_tail ts
    | op o => exact absurd rfl (not_op_of_endsBefore_sum hends o pos ts)
    | number | leftParen | rightParen | finish => rfl

/-! ### The verdict -/

theorem parseTokens_verdict (a : Associativity) (ts : List Token) :
    (parseTokens limit a ts).map (fun _ => ()) = (run {} ts).mapError Refusal.halt ∨
    ∃ read pos us, TooDeepAt limit read pos us ts ∧ depth 0 (read.map Token.symbol) ≤ limit ∧
      parseTokens limit a ts = .error ⟨.tooDeep, ⟨.leftParen, pos⟩ :: us⟩ := by
  have hdoes := chain_does a .sum limit ts
  cases hc : chain a .sum limit ts with
  | ok p =>
    rw [hc] at hdoes
    obtain ⟨read, hread, hin⟩ := hdoes
    have hreach : reach {} read = some ⟨.operator, []⟩ :=
      Pushdown.reach_of_derives hin.derives read [] rfl
    have hrun : run {} ts = run ⟨.operator, []⟩ p.rest :=
      (congrArg (run {}) hread).trans (Pushdown.run_append hreach p.rest)
    left
    rw [parseTokens_of_chain hc, hrun, run_after_sum p.rest hin.ends]
    cases endOf (p.rest.dropWhile (·.symbol = .newline)) <;> rfl
  | error h =>
    rw [hc] at hdoes
    obtain ⟨read, hread, hfits, hs⟩ := hdoes
    obtain ⟨s, hreach, hhalt⟩ := hs []
    have hparse : parseTokens limit a ts = .error h := by rw [parseTokens, hc]
    cases hhalt with
    | @refused rest hrefuse =>
      -- the machine has read what the parser has, and refuses the same token
      left
      have hrun : run {} ts = .error ⟨s, rest⟩ := by
        rw [hread]
        exact (Pushdown.run_append hreach rest).trans (Pushdown.run_of_refuse hrefuse)
      rw [hparse, hrun]
      rfl
    | tooDeep hmode hlength =>
      exact .inr ⟨read, _, _, ⟨hread, s, hreach, hmode, hlength⟩, hfits, hparse⟩

/-- With a parenthesis more than the limit the depth is beyond it. -/
theorem lt_depth_of_reach {s : State} {pos : Nat} (hreach : reach {} read = some s)
    (hlength : s.opened.length = limit) (us : List Token) :
    limit < depth 0 ((read ++ ⟨.leftParen, pos⟩ :: us).map Token.symbol) := by
  have hopen : (read.map Token.symbol).foldl openAfter 0 = limit :=
    (Pushdown.length_opened_of_reach hreach).trans hlength
  rw [List.map_append, depth_append, hopen]
  have hmore : limit + 1 ≤ depth limit (.leftParen :: us.map Token.symbol) :=
    Nat.le_trans (le_depth _ (us.map Token.symbol)) (Nat.le_max_right _ _)
  exact Nat.lt_of_lt_of_le hmore (Nat.le_max_right _ _)

theorem not_tooDeepAt (hfit : NestsWithin limit (ts.map Token.symbol)) {pos : Nat} :
    ¬ TooDeepAt limit read pos us ts := by
  rintro ⟨rfl, s, hreach, -, hlength⟩
  exact absurd (nestsWithin_iff.mp hfit) (Nat.not_le.mpr (lt_depth_of_reach hreach hlength us))

/-- Within the limit of nesting the parser stops exactly where the machine does. -/
theorem parseTokens_eq_run (a : Associativity) (hfit : NestsWithin limit (ts.map Token.symbol)) :
    (parseTokens limit a ts).map (fun _ => ()) = (run {} ts).mapError Refusal.halt := by
  rcases parseTokens_verdict a ts with h | ⟨read, pos, us, hdeep, -, -⟩
  · exact h
  · exact absurd hdeep (not_tooDeepAt hfit)

/-- A parse within the limit does not go beyond a parenthesis that is too many. -/
theorem exists_rest_of_tooDeepAt {pos : Nat} {read' rest : List Token} (h : TooDeepAt limit read pos us ts)
    (hts : ts = read' ++ rest) (hfits : depth 0 (read'.map Token.symbol) ≤ limit) :
    ∃ mid, read = read' ++ mid ∧ rest = mid ++ ⟨.leftParen, pos⟩ :: us := by
  obtain ⟨hread, s, hreach, -, hlength⟩ := h
  rcases List.append_eq_append_iff.mp (hread.symm.trans hts) with ⟨more, rfl, hmore⟩ | hmid
  · cases more with
    | nil => exact ⟨[], (List.append_nil _).symm ▸ (List.append_nil _).symm, hmore.symm⟩
    | cons t more =>
      obtain ⟨rfl, -⟩ := List.cons.inj hmore
      exact absurd hfits (Nat.not_le.mpr (lt_depth_of_reach hreach hlength more))
  · exact hmid

/-- After a sum that ends the machine wants no operand again. -/
theorem not_operand_after_sum {s : State} {mid rest : List Token}
    (hends : (Phrase.chain .sum).EndsBefore (mid ++ rest))
    (hreach : reach ⟨.operator, []⟩ mid = some s) : s.mode ≠ .operand := by
  cases mid with
  | nil =>
    obtain rfl := Option.some.inj hreach
    exact nofun
  | cons t mid =>
    obtain ⟨s₁, hgoes, hr⟩ := Pushdown.reach_cons_eq_some_iff.mp hreach
    cases hgoes with
    | @op o pos => exact absurd rfl (not_op_of_endsBefore_sum hends o pos (mid ++ rest))
    | leave =>
      have htail : s.mode = .tail :=
        Pushdown.reach_invariant (I := fun s => s.mode = .tail) (fun _ _ _ hg => hg.tail_of_tail) hr rfl
      rw [htail]
      exact nofun

/-- The parser halts at the first parenthesis that is too many, whatever comes after it. -/
theorem parseTokens_of_tooDeepAt (a : Associativity) {pos : Nat} (h : TooDeepAt limit read pos us ts)
    (hfits : depth 0 (read.map Token.symbol) ≤ limit) :
    parseTokens limit a ts = .error ⟨.tooDeep, ⟨.leftParen, pos⟩ :: us⟩ := by
  have hdoes := chain_does a .sum limit ts
  obtain ⟨-, s, hreach, hmode, -⟩ := id h
  cases hc : chain a .sum limit ts with
  | ok p =>
    rw [hc] at hdoes
    obtain ⟨read', hread, hin⟩ := hdoes
    obtain ⟨mid, rfl, hrest⟩ := exists_rest_of_tooDeepAt h hread hin.fits
    have hreach' : reach {} read' = some ⟨.operator, []⟩ :=
      Pushdown.reach_of_derives hin.derives read' [] rfl
    rw [Pushdown.reach_append hreach'] at hreach
    exact absurd hmode (not_operand_after_sum (hrest ▸ hin.ends) hreach)
  | error halt =>
    rw [hc] at hdoes
    obtain ⟨read', hread, hfits', hs⟩ := hdoes
    obtain ⟨s', hreach', hhalt⟩ : ∃ s', reach {} read' = some s' ∧ HaltsIn limit s' halt := hs []
    obtain ⟨mid, rfl, hrest⟩ := exists_rest_of_tooDeepAt h hread hfits'
    rw [Pushdown.reach_append hreach'] at hreach
    have hparse : parseTokens limit a ts = .error halt := by rw [parseTokens, hc]
    cases mid with
    | nil =>
      obtain rfl := Option.some.inj hreach
      cases hhalt with
      | refused hrefuse =>
        -- where an operand is wanted, a parenthesis is not refused
        obtain ⟨mode, opened⟩ := s'
        obtain rfl : mode = .operand := hmode
        cases hrefuse _ us hrest
      | tooDeep => rw [hparse, ← List.nil_append (⟨.leftParen, pos⟩ :: us), ← hrest]
    | cons t mid =>
      cases hhalt with
      | refused hrefuse =>
        obtain ⟨s₁, hgoes, -⟩ := Pushdown.reach_cons_eq_some_iff.mp hreach
        cases hgoes.step_eq.symm.trans (hrefuse t _ hrest)
      | tooDeep _ hlength =>
        -- the parenthesis that halted the parser was read, and the depth is beyond the limit there
        obtain ⟨rfl, -⟩ := List.cons.inj hrest
        exact absurd hfits (Nat.not_le.mpr (lt_depth_of_reach hreach' hlength mid))

/-- **To whichever side powers group**, the same tokens are accepted, and the others are refused at the
same token for the same reason. -/
theorem parseTokens_halts_alike (limit : Nat) (a b : Associativity) (ts : List Token) :
    (parseTokens limit a ts).map (fun _ => ()) = (parseTokens limit b ts).map fun _ => () := by
  rcases parseTokens_verdict a ts with ha | ⟨read, pos, us, hdeep, hfits, ha⟩
  · rcases parseTokens_verdict b ts with hb | ⟨read, pos, us, hdeep, hfits, hb⟩
    · exact ha.trans hb.symm
    · rw [hb, parseTokens_of_tooDeepAt a hdeep hfits]
  · rw [ha, parseTokens_of_tooDeepAt b hdeep hfits]

/-- The machine accepts the tokens that have a tree. -/
theorem run_eq_ok_iff (h : (parseTokens limit a ts).map (fun _ => ()) = (run {} ts).mapError Refusal.halt) :
    run {} ts = .ok () ↔ ∃ e, parseTokens limit a ts = .ok e := by
  cases hrun : run {} ts with
  | ok _ =>
    cases hparse : parseTokens limit a ts with
    | ok e => exact ⟨fun _ => ⟨e, rfl⟩, fun _ => rfl⟩
    | error halt =>
      rw [hrun, hparse] at h
      exact nomatch h
  | error r =>
    cases hparse : parseTokens limit a ts with
    | ok e =>
      rw [hrun, hparse] at h
      exact nomatch h
    | error halt => exact ⟨nofun, nofun⟩

theorem parseTokens_eq_error {r : Refusal}
    (h : (parseTokens limit a ts).map (fun _ => ()) = (run {} ts).mapError Refusal.halt)
    (hrun : run {} ts = .error r) : parseTokens limit a ts = .error r.halt := by
  cases hparse : parseTokens limit a ts with
  | ok e =>
    rw [hrun, hparse] at h
    exact nomatch h
  | error halt =>
    rw [hrun, hparse] at h
    exact congrArg Except.error (Except.error.inj h)

/-! ### The tree -/

theorem exists_newlines (ts : List Token) : ∃ n, ts.map Token.symbol =
    List.replicate n .newline ++ (ts.dropWhile (·.symbol = .newline)).map Token.symbol := by
  refine ⟨(ts.takeWhile (·.symbol = .newline)).length, ?_⟩
  have hall : (ts.takeWhile (·.symbol = .newline)).map Token.symbol =
      List.replicate (ts.takeWhile (·.symbol = .newline)).length .newline := by
    refine List.eq_replicate_iff.mpr ⟨List.length_map _, fun s hs => ?_⟩
    obtain ⟨t, ht, rfl⟩ := List.mem_map.mp hs
    simpa using List.all_eq_true.mp List.all_takeWhile t ht
  rw [← hall, ← List.map_append, List.takeWhile_append_dropWhile]

/-- A tree that is found is that of a sum at the start of the tokens, before newlines and the end. -/
theorem derives_of_parseTokens (h : parseTokens limit a ts = .ok e) :
    ∃ body n after, Derives a (.chain .sum) body e ∧ depth 0 body ≤ limit ∧
      ts.map Token.symbol = body ++ List.replicate n .newline ++ .finish :: after := by
  have hdoes := chain_does a .sum limit ts
  cases hc : chain a .sum limit ts with
  | error h' =>
    rw [parseTokens, hc] at h
    cases h
  | ok p =>
    rw [hc] at hdoes
    obtain ⟨read, hread, hin⟩ := hdoes
    obtain ⟨n, hn⟩ := exists_newlines p.rest
    rw [parseTokens_of_chain hc] at h
    have hsymbols : ts.map Token.symbol = read.map Token.symbol ++ p.rest.map Token.symbol :=
      (congrArg (List.map Token.symbol) hread).trans List.map_append
    cases hend : p.rest.dropWhile (·.symbol = .newline) with
    | nil =>
      rw [hend] at h
      cases h
    | cons t us =>
      obtain ⟨symbol, pos⟩ := t
      rw [hend] at h hn
      cases symbol with
      | finish =>
        obtain rfl : p.expr = e := Except.ok.inj h
        refine ⟨read.map Token.symbol, n, us.map Token.symbol, hin.derives, hin.fits, ?_⟩
        rw [hsymbols, hn, List.append_assoc]
        rfl
      | number | op | leftParen | rightParen | newline => cases h

end IntExpr
