import IntExpr.Proofs.Grammar

/-!
# Nesting — how many parentheses are open at once

`unclosed ss` counts the parentheses that `ss` leaves open, and `depth n ss` is the largest count
met on the way through `ss` when `n` are open before it (`depth_le_iff`).  A phrase closes what it
opens, so its depth adds up (`Derives.depth_eq`).
-/

namespace IntExpr

/-- The parentheses open after a symbol, `n` being open before it; a closing one that closes nothing
counts for nothing. -/
def openAfter (n : Nat) : Symbol → Nat
  | .leftParen => n + 1
  | .rightParen => n - 1
  | _ => n

/-- The parentheses that a list of symbols leaves open. -/
def unclosed (ss : List Symbol) : Nat := ss.foldl openAfter 0

/-- The largest count of open parentheses on the way through a list, `n` being open before it. -/
def depth (n : Nat) : List Symbol → Nat
  | [] => n
  | s :: ss => max n (depth (openAfter n s) ss)

/-- At no point of a list are more than `limit` parentheses open. -/
def NestsWithin (limit : Nat) (ss : List Symbol) : Prop := ∀ pre, pre <+: ss → unclosed pre ≤ limit

theorem depth_le_iff {n k : Nat} {ss : List Symbol} :
    depth n ss ≤ k ↔ ∀ pre, pre <+: ss → pre.foldl openAfter n ≤ k := by
  induction ss generalizing n with
  | nil => simp [depth]
  | cons s ss ih =>
    rw [depth, Nat.max_le, ih]
    constructor
    · rintro ⟨hn, h⟩ pre hpre
      rcases List.prefix_cons_iff.mp hpre with rfl | ⟨t, rfl, ht⟩
      · exact hn
      · exact h t ht
    · intro h
      refine ⟨h [] List.nil_prefix, fun pre hpre => ?_⟩
      exact h (s :: pre) (List.cons_prefix_cons.mpr ⟨rfl, hpre⟩)

theorem nestsWithin_iff {limit : Nat} {ss : List Symbol} :
    NestsWithin limit ss ↔ depth 0 ss ≤ limit := depth_le_iff.symm

theorem NestsWithin.left {limit : Nat} {ss us : List Symbol} (h : NestsWithin limit (ss ++ us)) :
    NestsWithin limit ss := fun pre hpre => h pre (hpre.trans (List.prefix_append ss us))

theorem le_depth (n : Nat) (ss : List Symbol) : n ≤ depth n ss := by
  cases ss with
  | nil => exact Nat.le_refl n
  | cons s ss => exact Nat.le_max_left _ _

theorem depth_append (n : Nat) (ss us : List Symbol) :
    depth n (ss ++ us) = max (depth n ss) (depth (ss.foldl openAfter n) us) := by
  induction ss generalizing n with
  | nil => exact (Nat.max_eq_right (le_depth n us)).symm
  | cons s ss ih =>
    rw [List.cons_append, depth, depth, ih, List.foldl_cons, Nat.max_assoc]

/-- The parentheses left open are met on the way. -/
theorem foldl_openAfter_le_depth (n : Nat) (ss : List Symbol) : ss.foldl openAfter n ≤ depth n ss :=
  depth_le_iff.mp (Nat.le_refl _) ss (List.prefix_refl ss)

/-- One parenthesis more in front is at most one more all the way. -/
theorem depth_succ_le (n : Nat) (ss : List Symbol) : depth (n + 1) ss ≤ depth n ss + 1 := by
  induction ss generalizing n with
  | nil => exact Nat.le_refl _
  | cons s ss ih =>
    have hafter : depth (openAfter (n + 1) s) ss ≤ depth (openAfter n s) ss + 1 := by
      cases s with
      | leftParen => exact ih (n + 1)
      | rightParen =>
        cases n with
        | zero => exact Nat.le_succ _
        | succ n => exact ih n
      | number | op | newline | finish => exact ih n
    rw [depth, depth]
    omega

theorem depth_op (n : Nat) (o : BinOp) (ss : List Symbol) : depth n (.op o :: ss) = depth n ss :=
  Nat.max_eq_right (le_depth n ss)

namespace Derives

variable {a : Associativity} {ph : Phrase} {ss : List Symbol} {e : Expr}

/-- A phrase closes what it opens. -/
theorem foldl_openAfter (h : Derives a ph ss e) (n : Nat) : ss.foldl openAfter n = n := by
  induction h generalizing n with
  | single _ ih => exact ih n
  | linkLeft _ _ _ ihl ihr | linkRight _ _ _ ihl ihr =>
    rw [List.foldl_append, ihl, List.foldl_cons]
    exact ihr n
  | plus _ ih | minus _ ih =>
    rw [List.foldl_cons]
    exact ih n
  | number digits => rfl
  | paren _ ih =>
    rw [List.foldl_cons, List.foldl_append, ih]
    rfl

/-- The depth of a phrase on top of `n` open parentheses. -/
theorem depth_eq (h : Derives a ph ss e) (n : Nat) : depth n ss = n + depth 0 ss := by
  induction h generalizing n with
  | single _ ih => exact ih n
  | linkLeft _ hl _ ihl ihr | linkRight _ hl _ ihl ihr =>
    rw [depth_append, depth_append, hl.foldl_openAfter, hl.foldl_openAfter, depth_op, depth_op,
      ihl, ihr n]
    omega
  | plus _ ih | minus _ ih => rw [depth_op, depth_op, ih n]
  | number digits => simp [depth, openAfter]
  | paren hin ih =>
    rw [depth, depth, depth_append, depth_append, hin.foldl_openAfter, hin.foldl_openAfter, depth, depth]
    simp only [openAfter, depth]
    rw [ih (n + 1), ih (0 + 1)]
    omega

theorem depth_link (h : Derives a ph ss e) (o : BinOp) (us : List Symbol) :
    depth 0 (ss ++ .op o :: us) = max (depth 0 ss) (depth 0 us) := by
  rw [depth_append, h.foldl_openAfter, depth_op]

theorem depth_paren (h : Derives a ph ss e) :
    depth 0 (.leftParen :: (ss ++ [.rightParen])) = depth 0 ss + 1 := by
  rw [depth, depth_append, h.foldl_openAfter]
  simp only [openAfter, depth]
  rw [h.depth_eq (0 + 1)]
  omega

end Derives

/-! ### Texts -/

theorem depth_newlines (n k : Nat) : depth n (List.replicate k .newline ++ [.finish]) = n := by
  induction k with
  | zero => exact Nat.max_self n
  | succ k ih =>
    rw [List.replicate_succ, List.cons_append, depth]
    exact (congrArg (max n) ih).trans (Nat.max_self n)

/-- Only the sum of a text has parentheses. -/
theorem Derives.depth_text {a : Associativity} {ph : Phrase} {ss : List Symbol} {e : Expr}
    (h : Derives a ph ss e) (k : Nat) :
    depth 0 (ss ++ List.replicate k .newline ++ [.finish]) = depth 0 ss := by
  rw [List.append_assoc, depth_append, h.foldl_openAfter, depth_newlines]
  exact Nat.max_eq_left (le_depth 0 ss)

end IntExpr
