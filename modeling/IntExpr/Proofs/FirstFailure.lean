import IntExpr.Proofs.ExactValue

/-!
# FirstFailure — which failure a tree evaluates to

A failure goes up through every operator above it, the left one before the right one.  So a tree fails
exactly if a subtree does, and its failure is that of the first failing subtree in post-order
(`exists_first_failure`).  That subtree fails by itself (`FailsByItself`): it is a literal that is no
number of the range, or an operator whose operands are integers.

* `ofLiteral_failure`, `operate_failure`: why a literal and an operator fail.
* `int_of_mem_subtrees`: under an integer there are integers only.
-/

namespace IntExpr

variable {c : Config} {o : BinOp} {x y v : Int} {f : Failure} {text : String}

/-! ### What is said of an operator -/

namespace BinOp

/-- The first words of the message of a failing operator, `y` being its right operand. -/
def failureKind (o : BinOp) (y : Int) : String :=
  if o = .div ∧ y = 0 then "division by zero"
  else if o = .mod ∧ y = 0 then "modulo of zero"
  else if o = .pow ∧ y < 0 then "negative exponent"
  else "integer overflow"

theorem exact_eq_none_iff :
    o.exact x y = none ↔ (o = .div ∧ y = 0) ∨ (o = .mod ∧ y = 0) ∨ (o = .pow ∧ y < 0) := by
  cases o <;> simp [exact]

theorem failureKind_eq_overflow_iff : o.failureKind y = "integer overflow" ↔ o.exact x y ≠ none := by
  rw [Ne, exact_eq_none_iff]
  unfold failureKind
  by_cases hdiv : o = .div ∧ y = 0
  · simp [hdiv]
  · by_cases hmod : o = .mod ∧ y = 0
    · simp [hmod]
    · by_cases hpow : o = .pow ∧ y < 0
      · simp [hpow]
      · simp [hdiv, hmod, hpow]

theorem failureKind_pow (hy : y < 0) : failureKind .pow y = "negative exponent" := by
  simp [failureKind, hy]

end BinOp

namespace Failure

/-- A message in two pieces, with the left operand between them. -/
theorem shown_of_pieces {kind before after : String} (x : Int) (hbefore : before = kind ++ ": '")
    (hafter : after = " " ++ o.symbol ++ " " ++ toString y ++ "'") :
    before ++ toString x ++ after = s!"{kind}: '{x} {o.symbol} {y}'" := by
  show _ = kind ++ ": '" ++ toString x ++ " " ++ o.symbol ++ " " ++ toString y ++ "'"
  rw [hbefore, hafter]
  simp only [String.append_assoc]

theorem message_overflow (x : Int) (h : o.failureKind y = "integer overflow") :
    (overflow x o y).message = s!"{o.failureKind y}: '{x} {o.symbol} {y}'" := by
  rw [h, ← shown_of_pieces x (by decide : "integer overflow: '" = _) rfl]
  show "integer overflow: '" ++ toString x ++ " " ++ o.symbol ++ " " ++ toString y ++ "'" = _
  simp only [String.append_assoc]

theorem message_undefined (h : o.exact x y = none) :
    (o.undefined x y).message = s!"{o.failureKind y}: '{x} {o.symbol} {y}'" := by
  rcases BinOp.exact_eq_none_iff.mp h with ⟨rfl, rfl⟩ | ⟨rfl, rfl⟩ | ⟨rfl, hy⟩
  · exact shown_of_pieces x (by decide) (by decide)
  · exact shown_of_pieces x (by decide) (by decide)
  · have hop : " ^ " = " " ++ BinOp.symbol .pow ++ " " := by decide
    rw [BinOp.failureKind_pow hy, ← shown_of_pieces x (by decide : "negative exponent: '" = _) rfl, ← hop]
    show "negative exponent: '" ++ toString x ++ " ^ " ++ toString y ++ "'" = _
    simp only [String.append_assoc]

end Failure

/-! ### Failures of single nodes -/

namespace Value

theorem eq_failure_of_fail {w : Value} (h : fail f = .ok w) : w = .failure f := by
  unfold fail at h
  split at h
  · exact (Except.ok.inj h).symm
  · exact nomatch h

/-- An operator between integers fails where there is no result, or none in range. -/
theorem operate_failure (h : operate c o x y = .ok (.failure f)) :
    f.message = s!"{o.failureKind y}: '{x} {o.symbol} {y}'" ∧
      (o.failureKind y = "integer overflow" ↔ ∃ v, o.exact x y = some v ∧ ¬ c.InRange v) := by
  rw [operate_eq] at h
  rw [BinOp.failureKind_eq_overflow_iff (x := x)]
  cases hexact : o.exact x y with
  | none =>
    rw [hexact] at h
    obtain rfl : f = o.undefined x y := Value.failure.inj (eq_failure_of_fail h)
    refine ⟨Failure.message_undefined hexact, fun hne => absurd rfl hne, ?_⟩
    rintro ⟨v, hv, -⟩
    exact nomatch hv
  | some v =>
    rw [hexact] at h
    dsimp only at h
    by_cases hrange : c.InRange v
    · rw [checked_of_inRange hrange] at h
      exact nomatch h
    · rw [checked_of_not_inRange hrange] at h
      obtain rfl : f = .overflow x o y := Value.failure.inj (eq_failure_of_fail h)
      have hsome : o.exact x y ≠ none := by
        rw [hexact]
        exact Option.some_ne_none v
      have hkind := BinOp.failureKind_eq_overflow_iff.mpr hsome
      exact ⟨Failure.message_overflow x hkind, fun _ => ⟨v, rfl, hrange⟩, fun _ => Option.some_ne_none v⟩

/-- A literal fails if it is no number, or one too great. -/
theorem ofLiteral_failure (h : ofLiteral c text = .ok (.failure f)) :
    f = .illegalLiteral text ∧
      (¬ Decimal.IsNumeral text.toList ∨ 2 ^ (c.intBits - 1) - 1 < (Decimal.value text.toList : Int)) := by
  by_cases hnumeral : Decimal.IsNumeral text.toList
  · rw [ofLiteral, if_pos hnumeral] at h
    cases hread : Decimal.read text.toList with
    | error e =>
      rw [hread] at h
      cases h
    | ok n =>
      have hn : n = Decimal.value text.toList := by
        unfold Decimal.read at hread
        split at hread
        · exact (Except.ok.inj hread).symm
        · cases hread
      rw [hread] at h
      by_cases hrange : c.InRange n
      · have hint : Except.ok (Value.int n) = .ok (.failure f) := (if_pos hrange).symm.trans h
        cases hint
      · have hfail : fail (.illegalLiteral text) = .ok (.failure f) := (if_neg hrange).symm.trans h
        refine ⟨Value.failure.inj (eq_failure_of_fail hfail), .inr ?_⟩
        have hpos : (0 : Int) < 2 ^ (c.intBits - 1) := Int.pow_pos (by decide)
        rw [Config.inRange_iff, hn] at hrange
        omega
  · rw [ofLiteral, if_neg hnumeral] at h
    exact ⟨Value.failure.inj (eq_failure_of_fail h), .inl hnumeral⟩

end Value

/-! ### Trees -/

namespace Tree

/-- A tree fails at its root with this message: a literal that is no number of the range, or an operator
whose operands are integers. -/
inductive FailsByItself (c : Config) : Expr → String → Prop
  | literal {text : String} :
    (¬ Decimal.IsNumeral text.toList ∨ 2 ^ (c.intBits - 1) - 1 < (Decimal.value text.toList : Int)) →
    FailsByItself c (.literal text) s!"illegal literal '{text}'"
  | binary {o : BinOp} {l r : Expr} {x y : Int} :
    l.evaluate c = .ok (.int x) → r.evaluate c = .ok (.int y) →
    (o.failureKind y = "integer overflow" ↔ ∃ v, o.exact x y = some v ∧
      ¬ (-(2 ^ (c.intBits - 1)) ≤ v ∧ v ≤ 2 ^ (c.intBits - 1) - 1)) →
    FailsByItself c (.binary o l r) s!"{o.failureKind y}: '{x} {o.symbol} {y}'"

theorem int_of_mem_subtrees : ∀ (t : Expr) (v : Int), value c t = .ok (.int v) →
    ∀ s ∈ t.subtrees, ∃ x, value c s = .ok (.int x)
  | .literal text, v, h => by
    intro s hs
    obtain rfl := List.mem_singleton.mp hs
    exact ⟨v, h⟩
  | .binary o l r, v, h => by
    obtain ⟨x, y, hl, hr, -⟩ := value_binary_eq_int_iff.mp h
    exact forall_mem_subtrees_binary.mpr
      ⟨int_of_mem_subtrees l x hl, int_of_mem_subtrees r y hr, v, h⟩
  | .foreign w, _, _ => w.elim

/-- In a list of trees, `s` is the first that fails, and its failure is `f`. -/
def IsFirstFailure (c : Config) (ts : List Expr) (s : Expr) (f : Failure) : Prop :=
  ∃ before after, ts = before ++ s :: after ∧ (∀ u ∈ before, ∃ x, value c u = .ok (.int x)) ∧
    value c s = .ok (.failure f)

theorem IsFirstFailure.append {ts us vs : List Expr} {s : Expr}
    (hts : ∀ u ∈ ts, ∃ x, value c u = .ok (.int x)) (h : IsFirstFailure c us s f) :
    IsFirstFailure c (ts ++ us ++ vs) s f := by
  obtain ⟨before, after, rfl, hbefore, hs⟩ := h
  refine ⟨ts ++ before, after ++ vs, by simp, ?_, hs⟩
  exact List.forall_mem_append.mpr ⟨hts, hbefore⟩

/-- **The failure of a tree** is that of its first failing subtree, which fails by itself. -/
theorem exists_first_failure : ∀ (t : Expr) (f : Failure), value c t = .ok (.failure f) →
    ∃ s, IsFirstFailure c t.subtrees s f ∧ FailsByItself c s f.message
  | .literal text, f, h => by
    obtain ⟨rfl, hwhy⟩ := Value.ofLiteral_failure (orFault_eq_ok_iff.mp h)
    exact ⟨_, ⟨[], [], rfl, nofun, h⟩, .literal hwhy⟩
  | .binary o l r, f, h => by
    obtain ⟨w, w', hl, hr, hop⟩ := value_binary_eq_ok_iff.mp h
    cases w with
    | failure g =>
      obtain rfl : g = f := Value.failure.inj (Except.ok.inj hop)
      obtain ⟨s, hs, hwhy⟩ := exists_first_failure l g hl
      refine ⟨s, ?_, hwhy⟩
      rw [subtrees, List.append_assoc]
      exact IsFirstFailure.append (List.forall_mem_nil _) hs
    | int x =>
      have hints := int_of_mem_subtrees l x hl
      cases w' with
      | failure g =>
        obtain rfl : g = f := Value.failure.inj (Except.ok.inj hop)
        obtain ⟨s, hs, hwhy⟩ := exists_first_failure r g hr
        exact ⟨s, hs.append hints, hwhy⟩
      | int y =>
        have hints' := int_of_mem_subtrees r y hr
        obtain ⟨hmessage, hkind⟩ := Value.operate_failure hop
        refine ⟨_, ⟨_, [], rfl, List.forall_mem_append.mpr ⟨hints, hints'⟩, h⟩, ?_⟩
        rw [hmessage]
        rw [← evaluate_eq_value] at hl hr
        refine .binary hl hr ?_
        simp only [hkind, Config.inRange_iff]
  | .foreign w, _, _ => w.elim

/-- **A tree fails exactly if one of its subtrees does, and as the first of them in post-order does.**
That one is a literal that is no number of the range, or an operator between integers. -/
theorem evaluate_failure_iff (c : Config) (t : Expr) (w : Value) (h : t.evaluate c = .ok w) :
    ((∃ f, w = .failure f) ↔ ∃ s ∈ t.subtrees, ∃ f, s.evaluate c = .ok (.failure f)) ∧
      ∀ f, w = .failure f → ∃ before s after, t.subtrees = before ++ s :: after ∧
        (∀ u ∈ before, ∃ x, u.evaluate c = .ok (.int x)) ∧ s.evaluate c = .ok (.failure f) ∧
        FailsByItself c s f.message := by
  simp only [evaluate_eq_value] at h ⊢
  refine ⟨⟨?_, ?_⟩, ?_⟩
  · rintro ⟨f, rfl⟩
    exact ⟨t, self_mem_subtrees t, f, h⟩
  · rintro ⟨s, hs, f, hf⟩
    cases w with
    | failure g => exact ⟨g, rfl⟩
    | int v =>
      obtain ⟨x, hx⟩ := int_of_mem_subtrees t v h s hs
      exact nomatch hf.symm.trans hx
  · rintro f rfl
    obtain ⟨s, ⟨before, after, hsubtrees, hbefore, hs⟩, hwhy⟩ := exists_first_failure t f h
    exact ⟨before, s, after, hsubtrees, hbefore, hs, hwhy⟩

/-- A division by zero on the left of a literal that is no number. -/
theorem evaluate_failure_of_division :
    evaluate {} (.binary .mul (.binary .div (.literal "1") (.literal "0")) (.literal "x") : Expr) =
        .ok (.failure (.divisionByZero 1)) ∧
      ∃ before s after, subtrees (.binary .mul (.binary .div (.literal "1") (.literal "0")) (.literal "x")) =
        before ++ s :: after ∧ (∀ u ∈ before, ∃ x, u.evaluate {} = .ok (.int x)) ∧
        s.evaluate {} = .ok (.failure (.divisionByZero 1)) ∧
        FailsByItself {} s "division by zero: '1 / 0'" := by
  have h : evaluate {} (.binary .mul (.binary .div (.literal "1") (.literal "0")) (.literal "x") : Expr) =
      .ok (.failure (.divisionByZero 1)) := by
    rw [evaluate_eq_value]
    rfl
  exact ⟨h, (evaluate_failure_iff {} _ _ h).2 _ rfl⟩

end Tree

end IntExpr
