import IntExpr.Evaluation
import IntExpr.Proofs.Arithmetic

/-!
# ExactValue — evaluation and the unbounded integers

`Tree.exact` is the value of a tree with no bound on the size of integers.  A tree evaluates to an
integer exactly if the exact values of all its subtrees exist and are in range, and then to its own
(`evaluate_eq_int_iff`).
-/

namespace IntExpr.Tree

variable {c : Config} {v : Int}

/-- The value of a tree over the unbounded integers, if it has one. -/
def exact : Expr → Option Int
  | .literal text =>
    if Decimal.IsNumeral text.toList then some (Decimal.value text.toList) else none
  | .binary o l r => (exact l).bind fun x => (exact r).bind fun y => o.exact x y
  | .foreign v => nomatch v

/-- A tree has an exact value, and it is in range. -/
def Fits (c : Config) (t : Expr) : Prop := ∃ x, exact t = some x ∧ c.InRange x

theorem exact_binary_eq_some_iff {o : BinOp} {l r : Expr} : exact (.binary o l r) = some v ↔
    ∃ x y, exact l = some x ∧ exact r = some y ∧ o.exact x y = some v := by
  rw [exact, Option.bind_eq_some_iff]
  constructor
  · rintro ⟨x, hx, h⟩
    obtain ⟨y, hy, hv⟩ := Option.bind_eq_some_iff.mp h
    exact ⟨x, y, hx, hy, hv⟩
  · rintro ⟨x, y, hx, hy, hv⟩
    exact ⟨x, hx, Option.bind_eq_some_iff.mpr ⟨y, hy, hv⟩⟩

/-! ### Literals and operators -/

theorem orFault_eq_ok_iff {φ : Type} {r : Except Decimal.LimitError Value} {w : Value} :
    orFault (φ := φ) r = .ok w ↔ r = .ok w := by
  cases r with
  | ok w' =>
    constructor
    · rintro ⟨⟩
      rfl
    · rintro ⟨⟩
      rfl
  | error e => exact ⟨nofun, nofun⟩

theorem value_literal_eq_int_iff {text : String}
    (hlimit : Decimal.IsNumeral text.toList → text.length ≤ Decimal.digitLimit) :
    value c (.literal text : Expr) = .ok (.int v) ↔ exact (.literal text) = some v ∧ c.InRange v := by
  rw [value, orFault_eq_ok_iff, Value.ofLiteral, exact]
  by_cases hnumeral : Decimal.IsNumeral text.toList
  · have hread : Decimal.read text.toList = .ok (Decimal.value text.toList) :=
      if_pos (String.length_toList ▸ hlimit hnumeral)
    rw [if_pos hnumeral, if_pos hnumeral, hread, Option.some_inj]
    exact Value.look_eq_ok_int_iff
  · rw [if_neg hnumeral, if_neg hnumeral]
    constructor
    · intro h
      exact absurd h (Value.fail_ne_ok_int _)
    · rintro ⟨h, -⟩
      cases h

/-- Both operands have values, and then the operator has one. -/
theorem value_binary_eq_ok_iff {φ : Type} {o : BinOp} {l r : Tree φ} {w : Value} :
    value c (.binary o l r) = .ok w ↔
      ∃ x y, value c l = .ok x ∧ value c r = .ok y ∧ Value.apply c o x y = .ok w := by
  rw [value]
  cases value c l with
  | error f =>
    constructor
    · rintro ⟨⟩
    · rintro ⟨_, _, ⟨⟩, _⟩
  | ok x =>
    cases value c r with
    | error f =>
      constructor
      · rintro ⟨⟩
      · rintro ⟨_, _, _, ⟨⟩, _⟩
    | ok y =>
      show orFault (Value.apply c o x y) = _ ↔ _
      simp [orFault_eq_ok_iff]

theorem value_binary_eq_int_iff {o : BinOp} {l r : Expr} :
    value c (.binary o l r) = .ok (.int v) ↔ ∃ x y, value c l = .ok (.int x) ∧
      value c r = .ok (.int y) ∧ o.exact x y = some v ∧ c.InRange v := by
  rw [value_binary_eq_ok_iff]
  constructor
  · rintro ⟨_, _, hl, hr, hop⟩
    obtain ⟨x, y, rfl, rfl, hv⟩ := Value.apply_eq_ok_int_iff.mp hop
    exact ⟨x, y, hl, hr, hv⟩
  · rintro ⟨x, y, hl, hr, hv⟩
    exact ⟨_, _, hl, hr, Value.apply_eq_ok_int_iff.mpr ⟨x, y, rfl, rfl, hv⟩⟩

theorem value_eq_int_iff : ∀ t : Expr,
    (∀ text ∈ t.literals, Decimal.IsNumeral text.toList → text.length ≤ Decimal.digitLimit) →
    ∀ v, value c t = .ok (.int v) ↔ (∀ s ∈ t.subtrees, Fits c s) ∧ exact t = some v
  | .literal text, hlimit, v => by
    rw [value_literal_eq_int_iff (hlimit text (List.mem_singleton.mpr rfl)), subtrees,
      List.forall_mem_singleton]
    constructor
    · rintro ⟨hv, hrange⟩
      exact ⟨⟨v, hv, hrange⟩, hv⟩
    · rintro ⟨⟨x, hx, hrange⟩, hv⟩
      obtain rfl : x = v := Option.some.inj (hx.symm.trans hv)
      exact ⟨hv, hrange⟩
  | .binary o l r, hlimit, v => by
    obtain ⟨hl, hr⟩ := forall_mem_literals_binary.mp hlimit
    rw [value_binary_eq_int_iff, forall_mem_subtrees_binary]
    constructor
    · rintro ⟨x, y, hx, hy, hv, hrange⟩
      obtain ⟨hfitl, hx⟩ := (value_eq_int_iff l hl x).mp hx
      obtain ⟨hfitr, hy⟩ := (value_eq_int_iff r hr y).mp hy
      have hexact : exact (.binary o l r) = some v := exact_binary_eq_some_iff.mpr ⟨x, y, hx, hy, hv⟩
      exact ⟨⟨hfitl, hfitr, v, hexact, hrange⟩, hexact⟩
    · rintro ⟨⟨hfitl, hfitr, w, hw, hrange⟩, hexact⟩
      obtain rfl : w = v := Option.some.inj (hw.symm.trans hexact)
      obtain ⟨x, y, hx, hy, hv⟩ := exact_binary_eq_some_iff.mp hexact
      exact ⟨x, y, (value_eq_int_iff l hl x).mpr ⟨hfitl, hx⟩, (value_eq_int_iff r hr y).mpr ⟨hfitr, hy⟩,
        hv, hrange⟩
  | .foreign w, _, _ => w.elim

/-- **Evaluation finds an integer exactly where exact arithmetic stays in range**: all subtrees have
exact values in range, and the integer is that of the tree. -/
theorem evaluate_eq_int_iff (c : Config) (t : Expr) (v : Int)
    (hlimit : ∀ text ∈ t.literals, Decimal.IsNumeral text.toList → text.length ≤ 4300) :
    t.evaluate c = .ok (.int v) ↔
      (∀ s ∈ t.subtrees, ∃ x, exact s = some x ∧
        -(2 ^ (c.intBits - 1)) ≤ x ∧ x ≤ 2 ^ (c.intBits - 1) - 1) ∧ exact t = some v := by
  rw [evaluate_eq_value, value_eq_int_iff t hlimit]
  simp only [Fits, Config.inRange_iff]

/-- The least integer of eight bits is a power of -2, and 128 is out of range. -/
theorem evaluate_eq_int_of_powers :
    evaluate { intBits := 8 } (.binary .pow (.binary .sub (.literal "0") (.literal "2")) (.literal "7") :
        Expr) = .ok (.int (-128)) ∧
      evaluate { intBits := 8 } (.binary .pow (.literal "2") (.literal "7") : Expr) ≠ .ok (.int 128) := by
  constructor
  · refine (evaluate_eq_int_iff _ _ _ (by decide)).mpr ⟨?_, by decide⟩
    simp only [subtrees, List.cons_append, List.nil_append, List.forall_mem_cons]
    refine ⟨⟨0, ?_⟩, ⟨2, ?_⟩, ⟨-2, ?_⟩, ⟨7, ?_⟩, ⟨-128, ?_⟩, List.forall_mem_nil _⟩
    all_goals decide
  · intro h
    obtain ⟨hfits, -⟩ := (evaluate_eq_int_iff _ _ _ (by decide)).mp h
    obtain ⟨x, hx, -, hmax⟩ := hfits _ (self_mem_subtrees _)
    obtain rfl : 128 = x := Option.some.inj hx
    exact absurd hmax (by decide)

end IntExpr.Tree
