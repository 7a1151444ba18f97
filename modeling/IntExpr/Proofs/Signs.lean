import IntExpr.Proofs.CheckedOperator
import IntExpr.Proofs.Concatenation
import IntExpr.Proofs.RoundTrip

/-!
# Signs — signs in front of a number or of parentheses

A run of signs, with separators among them, negates the tree of what follows once for each minus, however
long it is (`parse_of_signs`).  No sign gives a failing tree a value or another failure, and an integer
changes its sign each time.  The one exception is the least integer of the range: the first minus finds no
integer for it, and the others keep the failure (`signs_before_primary`).
-/

namespace IntExpr

variable {limit : Nat} {c : Config} {w p : String} {t : Expr} {k n : Nat} {v : Int} {cs : List Char}

namespace Tree

theorem negateTimes_eq_iterate {φ : Type} (n : Nat) (t : Tree φ) : negateTimes n t = negate^[n] t := by
  induction n generalizing t with
  | zero => rfl
  | succ n ih => rw [negateTimes, ih, Function.iterate_succ_apply]

/-! ### Values of negated trees -/

/-- The zero that a sign subtracts from is in every range. -/
theorem value_zero (c : Config) : value c (.literal "0" : Expr) = .ok (.int 0) := by
  have hzero : c.InRange 0 := Config.inRange_of_natAbs_le_one (by decide)
  have hlimit : Decimal.IsNumeral "0".toList → "0".length ≤ Decimal.digitLimit := fun _ => by decide
  exact (value_literal_eq_int_iff hlimit).mpr ⟨by decide, hzero⟩

theorem value_negate (c : Config) (t : Expr) :
    value c t.negate = (value c t).bind fun w => orFault (Value.apply c .sub (.int 0) w) := by
  rw [negate, value, value_zero]
  rfl

theorem inRange_of_value (t : Expr) (h : value c t = .ok (.int v)) : c.InRange v := by
  cases t with
  | literal text =>
    rw [value, orFault_eq_ok_iff] at h
    by_cases hlong : Decimal.Overlong text
    · rw [Value.ofLiteral_of_overlong c hlong] at h
      cases h
    · obtain ⟨w, hw, hbounded⟩ := Value.exists_ofLiteral c hlong
      exact hbounded v (Except.ok.inj (hw.symm.trans h))
  | binary o l r =>
    obtain ⟨-, -, -, -, -, hrange⟩ := value_binary_eq_int_iff.mp h
    exact hrange
  | foreign w => exact w.elim

theorem value_negate_of_failure {f : Failure} (h : value c t = .ok (.failure f)) :
    value c t.negate = .ok (.failure f) := by
  rw [value_negate, h]
  rfl

theorem value_negate_of_int (h : value c t = .ok (.int v)) (hneg : c.InRange (-v)) :
    value c t.negate = .ok (.int (-v)) := by
  have hsub : BinOp.Computes .sub 0 v (-v) := by
    rw [← Int.zero_sub]
    exact .sub 0 v
  rw [value_negate, h]
  exact orFault_eq_ok_iff.mpr (Value.apply_of_computes hsub hneg)

/-- The least integer has no counterpart in the range. -/
theorem value_negate_of_least (hc : c.halfRange < Decimal.writeBound)
    (h : value c t = .ok (.int c.intMin)) :
    value c t.negate = .ok (.failure (.overflow 0 .sub c.intMin)) := by
  have hpos := c.halfRange_pos
  have hout : ¬ c.InRange (0 - c.intMin) := by
    unfold Config.InRange Config.intMin Config.intMax
    omega
  have hzero : Decimal.Writable 0 :=
    Config.writable_of_inRange hc (Config.inRange_of_natAbs_le_one (by decide))
  have hleast : Decimal.Writable c.intMin := Config.writable_of_inRange hc (inRange_of_value t h)
  obtain ⟨w, hw⟩ : ∃ w, Value.operate c .sub 0 c.intMin = .ok w := Value.exists_operate hzero hleast
  obtain rfl := Value.apply_of_not_inRange (.sub 0 c.intMin) hout hw
  rw [value_negate, h]
  exact orFault_eq_ok_iff.mpr hw

theorem value_iterate_of_failure {f : Failure} (h : value c t = .ok (.failure f)) (k : Nat) :
    value c (negate^[k] t) = .ok (.failure f) := by
  induction k with
  | zero => exact h
  | succ k ih =>
    rw [Function.iterate_succ_apply']
    exact value_negate_of_failure ih

/-- Signs never leave the range that has both an integer and its counterpart. -/
theorem value_iterate_of_int (h : value c t = .ok (.int v)) (hneg : c.InRange (-v)) (k : Nat) :
    value c (negate^[k] t) = .ok (.int ((-1) ^ k * v)) := by
  have hv := inRange_of_value t h
  induction k with
  | zero => rwa [pow_zero, one_mul]
  | succ k ih =>
    -- the value so far is `v` or `-v`, and its counterpart the other of the two
    have hnext : -((-1) ^ k * v) = (-1) ^ (k + 1) * v := by rw [pow_succ, mul_neg_one, neg_mul]
    have hrange : c.InRange (-((-1) ^ k * v)) := by
      rcases neg_one_pow_eq_or Int k with hk | hk
      · rwa [hk, one_mul]
      · rwa [hk, neg_one_mul, neg_neg]
    rw [Function.iterate_succ_apply', ← hnext]
    exact value_negate_of_int ih hrange

/-- From the first minus on, the least integer is an overflow. -/
theorem value_iterate_of_least (hc : c.halfRange < Decimal.writeBound)
    (h : value c t = .ok (.int c.intMin)) (hk : 0 < k) :
    value c (negate^[k] t) = .ok (.failure (.overflow 0 .sub c.intMin)) := by
  obtain ⟨j, rfl⟩ := Nat.exists_eq_succ_of_ne_zero (Nat.ne_of_gt hk)
  rw [Function.iterate_succ_apply]
  exact value_iterate_of_failure (value_negate_of_least hc h) j

end Tree

/-! ### Symbols of signs -/

theorem isDigit_of_isSeparator {x : Char} (h : isSeparator x = true) : x.isDigit = false := by
  refine Bool.eq_false_iff.mpr fun hdigit => ?_
  rw [isSeparator_of_isDigit hdigit] at h
  cases h

/-- Signs with separators among them are a run of signs, and nothing in them is a digit. -/
theorem lexes_signs (h : ∀ x ∈ cs, x = '+' ∨ x = '-' ∨ isSeparator x = true) :
    (∃ run, SignRun (cs.count '-') run ∧ Lexes cs (run.map Token.symbol)) ∧ ∀ x ∈ cs, x.isDigit = false := by
  induction cs with
  | nil => exact ⟨⟨[], .nil, .nil⟩, nofun⟩
  | cons x cs ih =>
    obtain ⟨hx, hcs⟩ := List.forall_mem_cons.mp h
    obtain ⟨⟨run, hrun, hlexes⟩, hdigits⟩ := ih hcs
    rcases hx with rfl | rfl | hsep
    · refine ⟨⟨⟨.op .add, 0⟩ :: run, ?_, (Lexes.op .add).append hlexes (apart_of_singleton rfl)⟩,
        List.forall_mem_cons.mpr ⟨rfl, hdigits⟩⟩
      rw [List.count_cons_of_ne (by decide)]
      exact hrun.plus
    · refine ⟨⟨⟨.op .sub, 0⟩ :: run, ?_, (Lexes.op .sub).append hlexes (apart_of_singleton rfl)⟩,
        List.forall_mem_cons.mpr ⟨rfl, hdigits⟩⟩
      rw [List.count_cons_self]
      exact hrun.minus
    · have hdigit := isDigit_of_isSeparator hsep
      have hne : x ≠ '-' := by
        rintro rfl
        exact absurd hsep (by decide)
      refine ⟨⟨run, ?_, (Lexes.separator hsep).append hlexes (apart_of_singleton hdigit)⟩,
        List.forall_mem_cons.mpr ⟨hdigit, hdigits⟩⟩
      rwa [List.count_cons_of_ne hne]

/-! ### Signs in front of a primary -/

/-- A number, or a sum in parentheses. -/
inductive IsPrimary (a : Associativity) : List Symbol → Prop
  | number (digits : String) : IsPrimary a [.number digits]
  | paren {ss : List Symbol} {e : Expr} :
    Derives a (.chain .sum) ss e → IsPrimary a (.leftParen :: (ss ++ [.rightParen]))

/-- The text `p` is one primary; there may be newlines after it. -/
def SinglePrimary (c : Config) (p : String) : Prop :=
  ∃ ts ss n, tokenize c.unknownCharacters p = .ok ts ∧ IsPrimary c.associativity ss ∧
    ts.map Token.symbol = ss ++ List.replicate n .newline ++ [.finish]

theorem IsPrimary.derives {a : Associativity} {ss : List Symbol} (h : IsPrimary a ss) :
    ∃ e, Derives a .factor ss e := by
  cases h with
  | number digits => exact ⟨_, .number digits⟩
  | paren hinner => exact ⟨_, hinner.paren⟩

theorem tokenize_signs {ts : List Token} (hw : ∀ x ∈ w.toList, x = '+' ∨ x = '-' ∨ isSeparator x = true)
    (hp : tokenize c.unknownCharacters p = .ok ts) : ∃ run us, SignRun (w.toList.count '-') run ∧
      tokenize c.unknownCharacters (w ++ p) = .ok us ∧
      us.map Token.symbol = run.map Token.symbol ++ ts.map Token.symbol := by
  obtain ⟨⟨run, hrun, hlexes⟩, hdigits⟩ := lexes_signs hw
  obtain ⟨hrejected, hsymbols⟩ := hlexes c.unknownCharacters 0
  have hapart : Apart w.toList p.toList := by
    intro x y hx _ hdigit
    rw [hdigits x (List.mem_of_getLast? hx)] at hdigit
    cases hdigit
  have hscan : tokenize c.unknownCharacters w = .ok (scan c.unknownCharacters w).tokens :=
    tokenize_eq_ok_iff.mpr ⟨hrejected, rfl⟩
  obtain ⟨init, hinit, happend⟩ := (tokenize_append c.unknownCharacters hapart).2.1 _ _ hscan hp
  have hrunsymbols : init.map Token.symbol = run.map Token.symbol := by
    rw [← scan, hinit, List.map_append] at hsymbols
    exact List.append_inj_left' hsymbols rfl
  have hmoved : (ts.map (Token.shift w.length)).map Token.symbol = ts.map Token.symbol := List.map_map
  refine ⟨run, _, hrun, happend, ?_⟩
  rw [List.map_append, hrunsymbols, hmoved]

/-- The tree of a primary, negated once for each minus. -/
theorem parse_of_signs (hw : ∀ x ∈ w.toList, x = '+' ∨ x = '-' ∨ isSeparator x = true)
    (hp : SinglePrimary c p) (ht : parse limit c p = .ok t) :
    parse limit c (w ++ p) = .ok (Tree.negate^[w.toList.count '-'] t) := by
  obtain ⟨ts, ss, n, hlex, hprimary, hsymbols⟩ := hp
  obtain ⟨run, us, hrun, hus, husymbols⟩ := tokenize_signs hw hlex
  obtain ⟨htext, hfits⟩ := derivesText_of_parseTokens hlex ((parse_eq_ok_iff hlex).mp ht)
  obtain ⟨e, hfactor⟩ := hprimary.derives
  have htext' : DerivesText c.associativity (ts.map Token.symbol) e :=
    ⟨ss, n, hfactor.chain_of_factor .sum, hsymbols⟩
  obtain rfl : t = e := htext.unique htext'
  have hsigned : DerivesText c.associativity (us.map Token.symbol) (.negateTimes (w.toList.count '-') t) := by
    refine ⟨run.map Token.symbol ++ ss, n, (hrun.derives hfactor).chain_of_factor .sum, ?_⟩
    rw [husymbols, hsymbols]
    simp only [List.append_assoc]
  -- signs open no parenthesis, so the limit holds with them as it does without
  have hwithin : NestsWithin limit (us.map Token.symbol) := by
    rw [nestsWithin_iff, husymbols, hrun.depth_append]
    exact nestsWithin_iff.mp hfits
  rw [← Tree.negateTimes_eq_iterate]
  exact (parse_eq_ok_iff hus).mpr (parseTokens_of_derivesText hsigned hwithin)

/-- **Signs in front of a number or of parentheses.**  The tree is negated once for each minus.  A failure
stays as it is, and an integer changes its sign so many times, unless it is the least one of the range and
there is a minus at all: then the value is the overflow of the first of them, which names that integer. -/
theorem signs_before_primary (c : Config) (w p : String) (t : Expr) (k : Nat)
    (hw : ∀ x ∈ w.toList, x = '+' ∨ x = '-' ∨ isSeparator x = true) (hk : w.toList.count '-' = k)
    (hp : SinglePrimary c p) (ht : parse limit c p = .ok t) :
    parse limit c (w ++ p) = .ok (Tree.negate^[k] t) ∧
    (∀ f, t.evaluate c = .ok (.failure f) → (Tree.negate^[k] t).evaluate c = .ok (.failure f)) ∧
    ∀ v, t.evaluate c = .ok (.int v) →
      (k = 0 ∨ v ≠ -(2 ^ (c.intBits - 1)) → (Tree.negate^[k] t).evaluate c = .ok (.int ((-1) ^ k * v))) ∧
      (2 ^ (c.intBits - 1) < 10 ^ Decimal.digitLimit → 0 < k → v = -(2 ^ (c.intBits - 1)) →
        ∃ f, (Tree.negate^[k] t).evaluate c = .ok (.failure f) ∧
          f.message = s!"integer overflow: '0 - {v}'") := by
  subst hk
  have hleast : -(2 ^ (c.intBits - 1)) = c.intMin := by
    rw [Config.intMin, c.halfRange_eq]
    norm_cast
  simp only [Tree.evaluate_eq_value, hleast]
  refine ⟨parse_of_signs hw hp ht, fun f hf => Tree.value_iterate_of_failure hf _, fun v hv => ⟨?_, ?_⟩⟩
  · rintro (hzero | hne)
    · rw [hzero, pow_zero, one_mul]
      exact hv
    · have hrange := Tree.inRange_of_value t hv
      have hneg : c.InRange (-v) := by
        unfold Config.InRange Config.intMax Config.intMin at *
        omega
      exact Tree.value_iterate_of_int hv hneg _
  · rintro hc hpos rfl
    rw [← c.halfRange_eq, ← Decimal.writeBound_eq] at hc
    exact ⟨_, Tree.value_iterate_of_least hc hv hpos, rfl⟩

/-- Three minus signs in front of the least integer of three bits. -/
theorem signs_before_primary_of_least :
    parse 200 { intBits := 3 } "(-1 - 3)" = .ok (.binary .sub (.negate (.literal "1")) (.literal "3")) ∧
    parse 200 { intBits := 3 } ("- +\"-\t-" ++ "(-1 - 3)") =
      .ok (Tree.negate^[3] (.binary .sub (.negate (.literal "1")) (.literal "3"))) ∧
    ∃ f, (Tree.negate^[3] (.binary .sub (.negate (.literal "1")) (.literal "3") : Expr)).evaluate
      { intBits := 3 } = .ok (.failure f) ∧ f.message = "integer overflow: '0 - -4'" := by
  have hlex : tokenize .skip "(-1 - 3)" = .ok [⟨.leftParen, 0⟩, ⟨.op .sub, 1⟩, ⟨.number "1", 2⟩,
      ⟨.op .sub, 4⟩, ⟨.number "3", 6⟩, ⟨.rightParen, 7⟩, ⟨.finish, 8⟩] := by
    decide +kernel
  have hsum : Derives .left (.chain .sum) [.op .sub, .number "1", .op .sub, .number "3"]
      (.binary .sub (.negate (.literal "1")) (.literal "3")) :=
    (Derives.number "1").minus.link_factors .sub (.number "3")
  have hparse : parse 200 { intBits := 3 } "(-1 - 3)" =
      .ok (.binary .sub (.negate (.literal "1")) (.literal "3")) := by
    refine (parse_eq_ok_iff hlex).mpr (parseTokens_of_derivesText ?_ (nestsWithin_iff.mpr (by decide)))
    exact ⟨_, 0, hsum.paren.chain_of_factor .sum, rfl⟩
  have hprimary : SinglePrimary { intBits := 3 } "(-1 - 3)" := ⟨_, _, 0, hlex, .paren hsum, rfl⟩
  have hsigns : ∀ x ∈ "- +\"-\t-".toList, x = '+' ∨ x = '-' ∨ isSeparator x = true := by
    simp [isSeparator]
  have hvalue : (Tree.binary .sub (.negate (.literal "1")) (.literal "3") : Expr).evaluate { intBits := 3 } =
      .ok (.int (-4)) := by
    rw [Tree.evaluate_eq_value]
    rfl
  have hc : 2 ^ (({ intBits := 3 } : Config).intBits - 1) < 10 ^ Decimal.digitLimit :=
    Nat.lt_of_lt_of_le (by decide : 2 ^ 2 < 10 ^ 1) (Nat.pow_le_pow_right (by decide) (by decide))
  obtain ⟨hsigned, -, hint⟩ := signs_before_primary { intBits := 3 } _ _ _ 3 hsigns (by decide) hprimary hparse
  exact ⟨hparse, hsigned, (hint _ hvalue).2 hc (by decide) (by decide)⟩

end IntExpr
