import IntExpr.Proofs.RoundTrip

/-!
# UniqueReading — no two trees have one canonical text

The text of a tree falls into symbols in one way only, and the symbols into operands in one way only: an
operand ends where its parentheses are closed, so two operands with which one list of symbols begins are the
same (`enclose_append_inj`).  No parser has a part in this.  So it holds of trees of any height, also of
those whose texts are nested too deeply to be read back.
-/

namespace IntExpr.Expr

variable {o : BinOp} {l r e e' : Expr} {text : String}

/-- What stands inside the parentheses around an operator and its operands, in front of other symbols. -/
theorem enclose_binary_append (o : BinOp) (l r : Expr) (us : List Symbol) :
    enclose (.binary o l r) (symbols (.binary o l r)) ++ us =
      .leftParen :: (enclose l (symbols l) ++ .op o :: (enclose r (symbols r) ++ .rightParen :: us)) := by
  simp only [enclose, symbols, List.cons_append, List.append_assoc, List.nil_append]

/-- **An operand is known from the symbols that begin with it**, whatever comes after it. -/
theorem enclose_append_inj : ∀ (e e' : Expr) (us vs : List Symbol),
    enclose e e.symbols ++ us = enclose e' e'.symbols ++ vs → e = e' ∧ us = vs
  | .literal text, .literal text', us, vs, h => by
    obtain ⟨htext, hrest⟩ := List.cons.inj h
    exact ⟨congrArg Tree.literal (Symbol.number.inj htext), hrest⟩
  | .literal text, .binary o l r, us, vs, h => by
    rw [enclose_binary_append] at h
    cases (List.cons.inj h).1
  | .binary o l r, .literal text, us, vs, h => by
    rw [enclose_binary_append] at h
    cases (List.cons.inj h).1
  | .binary o l r, .binary o' l' r', us, vs, h => by
    rw [enclose_binary_append, enclose_binary_append] at h
    obtain ⟨rfl, hafter⟩ := enclose_append_inj l l' _ _ (List.cons.inj h).2
    -- the operators stand at the same place, since the left operands end there
    obtain ⟨hop, hright⟩ := List.cons.inj hafter
    obtain rfl := Symbol.op.inj hop
    obtain ⟨rfl, hclose⟩ := enclose_append_inj r r' _ _ hright
    exact ⟨rfl, (List.cons.inj hclose).2⟩
  | .foreign v, _, _, _, _ => v.elim
  | _, .foreign v, _, _, _ => v.elim

theorem symbols_literal_ne_binary : symbols (.literal text) ≠ symbols (.binary o l r) := by
  intro h
  have hop : Symbol.op o ∈ symbols (.literal text) := by
    rw [h, symbols]
    exact List.mem_append_right _ List.mem_cons_self
  cases List.mem_singleton.mp hop

theorem symbols_inj : symbols e = symbols e' ↔ e = e' := by
  refine ⟨fun h => ?_, fun h => congrArg symbols h⟩
  cases e with
  | literal text =>
    cases e' with
    | literal text' => exact congrArg Tree.literal (Symbol.number.inj (List.cons.inj h).1)
    | binary o l r => exact absurd h symbols_literal_ne_binary
    | foreign v => exact v.elim
  | binary o l r =>
    cases e' with
    | literal text => exact absurd h.symm symbols_literal_ne_binary
    | binary o' l' r' =>
      have henclosed : enclose (.binary o l r) (symbols (.binary o l r)) =
          enclose (.binary o' l' r') (symbols (.binary o' l' r')) := by
        simp only [enclose, h]
      exact (enclose_append_inj _ _ [] [] (congrArg (· ++ []) henclosed)).1
    | foreign v => exact v.elim
  | foreign v => exact v.elim

/-- **The canonical text of a tree belongs to no other tree**, of whatever height the two are. -/
theorem print_inj (h : ∀ text ∈ e.literals, Decimal.IsNumeral text.toList)
    (h' : ∀ text ∈ e'.literals, Decimal.IsNumeral text.toList) : e.print = e'.print ↔ e = e' := by
  refine ⟨fun hprint => ?_, fun heq => congrArg print heq⟩
  have hlexes := lexes_written e h
  have hlexes' := lexes_written e' h'
  rw [← print_eq_written] at hlexes hlexes'
  rw [← hprint] at hlexes'
  exact symbols_inj.mp (hlexes.unique hlexes')

/-- Two groupings under 300 minus signs, which is more than a parse takes. -/
theorem print_inj_of_deep_groupings :
    print (.negateTimes 300 (.binary .sub (.binary .sub (.literal "1") (.literal "2")) (.literal "3"))) ≠
      print (.negateTimes 300 (.binary .sub (.literal "1") (.binary .sub (.literal "2") (.literal "3")))) :=
  mt (print_inj (by decide +kernel) (by decide +kernel)).mp (by decide +kernel)

end IntExpr.Expr
