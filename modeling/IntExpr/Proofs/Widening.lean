import IntExpr.Proofs.FirstFailure

/-!
# Widening — evaluation in a wider range

What is in a range is in every wider one, and so a wider range takes away two kinds of failures only: an
overflow, and a literal that is a number too great.  All other values are settled (`Value.Settled`).  A
settled value comes from settled operands that had a part in it, and so it is the same in a wider range,
whatever becomes of the rest of the tree (`apply_of_le`, `value_of_le`).
-/

namespace IntExpr

variable {c c' : Config} {o : BinOp} {x y v : Int} {text : String} {w w' l l' r r' : Value}

/-- A wider range has all that is in a narrower one. -/
theorem Config.InRange.of_le (hle : c.intBits ≤ c'.intBits) (h : c.InRange v) : c'.InRange v := by
  have hhalf : c.halfRange ≤ c'.halfRange :=
    Nat.pow_le_pow_right (by decide) (Nat.sub_le_sub_right hle 1)
  unfold Config.InRange Config.intMin Config.intMax at h ⊢
  omega

/-- A failure that no wider range takes away. -/
def Failure.Lasts : Failure → Prop
  | .overflow _ _ _ => False
  | .illegalLiteral text => ¬ Decimal.IsNumeral text.toList
  | _ => True

namespace Value

/-- An integer, or a failure that lasts. -/
def Settled : Value → Prop
  | .int _ => True
  | .failure f => f.Lasts

/-! ### Literals and operators -/

theorem ofLiteral_of_le (hle : c.intBits ≤ c'.intBits) (hw : w.Settled) (h : ofLiteral c text = .ok w)
    (h' : ofLiteral c' text = .ok w') : w' = w := by
  rw [ofLiteral] at h h'
  by_cases hnumeral : Decimal.IsNumeral text.toList
  · rw [if_pos hnumeral] at h h'
    cases hread : Decimal.read text.toList with
    | error e =>
      rw [hread] at h
      cases h
    | ok n =>
      rw [hread] at h h'
      by_cases hrange : c.InRange n
      · obtain rfl : Value.int n = w := Except.ok.inj ((if_pos hrange).symm.trans h)
        exact Except.ok.inj (h'.symm.trans (if_pos (hrange.of_le hle)))
      · -- a number too great is not settled
        obtain rfl := eq_failure_of_fail ((if_neg hrange).symm.trans h)
        exact absurd hnumeral hw
  · rw [if_neg hnumeral] at h h'
    rw [eq_failure_of_fail h, eq_failure_of_fail h']

theorem operate_of_le (hle : c.intBits ≤ c'.intBits) (hw : w.Settled) (h : operate c o x y = .ok w)
    (h' : operate c' o x y = .ok w') : w' = w := by
  rw [operate_eq] at h h'
  cases hexact : o.exact x y with
  | none =>
    rw [hexact] at h h'
    rw [eq_failure_of_fail h, eq_failure_of_fail h']
  | some z =>
    rw [hexact] at h h'
    dsimp only at h h'
    by_cases hrange : c.InRange z
    · rw [checked_of_inRange hrange] at h
      rw [checked_of_inRange (hrange.of_le hle)] at h'
      rw [← Except.ok.inj h, ← Except.ok.inj h']
    · rw [checked_of_not_inRange hrange] at h
      obtain rfl := eq_failure_of_fail h
      exact hw.elim

/-- An operator with operands that are the same where they are settled. -/
theorem apply_of_le (hle : c.intBits ≤ c'.intBits) (hw : w.Settled) (hl : l.Settled → l' = l)
    (hr : r.Settled → r' = r) (h : apply c o l r = .ok w) (h' : apply c' o l' r' = .ok w') : w' = w := by
  cases l with
  | failure f =>
    -- the result is the failure of the left operand, which is settled with it
    obtain rfl := Except.ok.inj h
    obtain rfl := hl hw
    exact (Except.ok.inj h').symm
  | int x =>
    obtain rfl := hl trivial
    cases r with
    | failure f =>
      obtain rfl := Except.ok.inj h
      obtain rfl := hr hw
      exact (Except.ok.inj h').symm
    | int y =>
      obtain rfl := hr trivial
      exact operate_of_le hle hw h h'

end Value

/-! ### Trees -/

namespace Tree

theorem value_of_le (hle : c.intBits ≤ c'.intBits) (t : Expr) : ∀ w w', w.Settled →
    value c t = .ok w → value c' t = .ok w' → w' = w := by
  induction t with
  | literal text =>
    intro w w' hw h h'
    exact Value.ofLiteral_of_le hle hw (orFault_eq_ok_iff.mp h) (orFault_eq_ok_iff.mp h')
  | binary o l r ihl ihr =>
    intro w w' hw h h'
    obtain ⟨x, y, hx, hy, hop⟩ := value_binary_eq_ok_iff.mp h
    obtain ⟨x', y', hx', hy', hop'⟩ := value_binary_eq_ok_iff.mp h'
    exact Value.apply_of_le hle hw (fun hs => ihl x x' hs hx hx') (fun hs => ihr y y' hs hy hy') hop hop'
  | foreign v => exact v.elim

/-- **A settled value stays the same in every wider range**, if the tree has values in both: an integer,
and a failure that is neither an overflow nor a literal that is a number too great. -/
theorem evaluate_eq_of_le (hle : c.intBits ≤ c'.intBits) (t : Expr) (h : t.evaluate c = .ok w)
    (h' : t.evaluate c' = .ok w') (hw : w.Settled) : w' = w := by
  rw [evaluate_eq_value] at h h'
  exact value_of_le hle t w w' hw h h'

/-- A division by zero, times a literal that is too great for eight bits. -/
theorem evaluate_eq_of_le_of_division :
    evaluate { intBits := 8 } (.binary .mul (.binary .div (.literal "1") (.literal "0")) (.literal "200") :
        Expr) = .ok (.failure (.divisionByZero 1)) ∧
      evaluate { intBits := 64 } (.binary .mul (.binary .div (.literal "1") (.literal "0"))
        (.literal "200") : Expr) = .ok (.failure (.divisionByZero 1)) := by
  have h : evaluate { intBits := 8 } (.binary .mul (.binary .div (.literal "1") (.literal "0"))
      (.literal "200") : Expr) = .ok (.failure (.divisionByZero 1)) := by
    rw [evaluate_eq_value]
    rfl
  obtain ⟨w', h'⟩ : ∃ w', evaluate { intBits := 64 } (.binary .mul (.binary .div (.literal "1")
      (.literal "0")) (.literal "200") : Expr) = .ok w' := ⟨_, (evaluate_eq_value _ _).trans rfl⟩
  have hle : ({ intBits := 8 } : Config).intBits ≤ ({ intBits := 64 } : Config).intBits := by decide
  exact ⟨h, evaluate_eq_of_le hle _ h h' trivial ▸ h'⟩

end Tree

end IntExpr
