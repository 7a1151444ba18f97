import IntExpr.Proofs.ExactValue

/-!
# DigitLimit — which trees have no value for the length of their digits

An operator names its operands where it fails, and an integer that is too long cannot be named.  In a
range of integers that can all be written, no operator is ever stopped by that: its operands are in
range.  What is left are literals that are too long to be read (`Overlong`).

* `writable_of_inRange`: where the bounds of the range can be written, so can all of it.
* `exists_value`: without an overlong literal every subtree has a value.
* `value_of_overlong`: no failure before the first overlong literal hides it.
-/

namespace IntExpr

variable {c : Config} {o : BinOp} {x y v : Int} {f : Failure} {text : String} {w : Value}

/-! ### Integers that can be written -/

/-- A run of more digits than are read. -/
def Decimal.Overlong (text : String) : Prop := IsNumeral text.toList ∧ digitLimit < text.length

instance (text : String) : Decidable (Decimal.Overlong text) := inferInstanceAs (Decidable (_ ∧ _))

open Decimal (Overlong Writable)

theorem Decimal.writeBound_eq : writeBound = 10 ^ digitLimit := by
  unfold writeBound
  -- without the number in place of `digitLimit` nothing computes the power
  generalize digitLimit = k
  exact Nat.pow_eq

theorem Config.halfRange_eq (c : Config) : c.halfRange = 2 ^ (c.intBits - 1) := Nat.pow_eq

/-- The size of no integer of the range exceeds that of its lower bound. -/
theorem Config.writable_of_inRange (hc : c.halfRange < Decimal.writeBound) (h : c.InRange v) :
    Writable v := by
  unfold Config.InRange Config.intMin Config.intMax at h
  unfold Writable
  omega

namespace Value

theorem fail_of_writable (h : ∀ v ∈ f.integers, Writable v) : fail f = .ok (.failure f) := if_pos h

/-- Where an operator has no result, the failure names its operands and nothing else. -/
theorem forall_mem_integers_undefined {p : Int → Prop} (hx : p x) (hy : p y) :
    ∀ v ∈ (o.undefined x y).integers, p v := by
  cases o with
  | div | mod => exact List.forall_mem_singleton.mpr hx
  | add | sub | mul | pow => exact List.forall_mem_cons.mpr ⟨hx, List.forall_mem_singleton.mpr hy⟩

theorem exists_operate (hx : Writable x) (hy : Writable y) : ∃ w, operate c o x y = .ok w := by
  rw [operate_eq]
  cases o.exact x y with
  | none => exact ⟨_, fail_of_writable (forall_mem_integers_undefined hx hy)⟩
  | some r =>
    have hboth : ∀ v ∈ (Failure.overflow x o y).integers, Writable v :=
      List.forall_mem_cons.mpr ⟨hx, List.forall_mem_singleton.mpr hy⟩
    by_cases hr : c.InRange r
    · exact ⟨_, checked_of_inRange hr⟩
    · exact ⟨_, (checked_of_not_inRange hr).trans (fail_of_writable hboth)⟩

def Bounded (c : Config) (w : Value) : Prop := ∀ v, w = .int v → c.InRange v

theorem bounded_failure (c : Config) (f : Failure) : Bounded c (.failure f) := nofun

/-- In a writable range operators have values, and these are bounded again. -/
theorem exists_apply {w' : Value} (hc : c.halfRange < Decimal.writeBound) (hw : Bounded c w)
    (hw' : Bounded c w') : ∃ u, apply c o w w' = .ok u ∧ Bounded c u := by
  cases w with
  | failure f => exact ⟨_, rfl, bounded_failure c f⟩
  | int x =>
    cases w' with
    | failure f => exact ⟨_, rfl, bounded_failure c f⟩
    | int y =>
      have hx : Writable x := Config.writable_of_inRange hc (hw x rfl)
      have hy : Writable y := Config.writable_of_inRange hc (hw' y rfl)
      obtain ⟨u, hu⟩ := exists_operate (c := c) (o := o) hx hy
      refine ⟨u, hu, ?_⟩
      rintro v rfl
      exact (operate_eq_ok_int_iff.mp hu).2

theorem ofLiteral_of_overlong (c : Config) (h : Overlong text) :
    ofLiteral c text = .error (.reading text.length) := by
  obtain ⟨hnumeral, hlong⟩ := h
  have hread : Decimal.read text.toList = .error (.reading text.length) := by
    rw [Decimal.read, String.length_toList, if_neg (Nat.not_le.mpr hlong)]
  rw [ofLiteral, if_pos hnumeral, hread]
  rfl

theorem exists_ofLiteral (c : Config) (h : ¬ Overlong text) :
    ∃ w, ofLiteral c text = .ok w ∧ Bounded c w := by
  rw [ofLiteral]
  by_cases hnumeral : Decimal.IsNumeral text.toList
  · have hshort : text.toList.length ≤ Decimal.digitLimit := by
      rw [String.length_toList]
      exact Nat.not_lt.mp fun hlong => h ⟨hnumeral, hlong⟩
    have hread : Decimal.read text.toList = .ok (Decimal.value text.toList) := if_pos hshort
    rw [if_pos hnumeral, hread]
    by_cases hrange : c.InRange (Decimal.value text.toList)
    · refine ⟨.int (Decimal.value text.toList), if_pos hrange, ?_⟩
      rintro v ⟨⟩
      exact hrange
    · exact ⟨.failure (.illegalLiteral text), if_neg hrange, bounded_failure c _⟩
  · rw [if_neg hnumeral]
    exact ⟨.failure (.illegalLiteral text), rfl, bounded_failure c _⟩

theorem text_eq_of_bounded (hc : c.halfRange < Decimal.writeBound) (hw : Bounded c w) :
    w.text = .ok (match w with
      | .int v => toString v
      | .failure f => f.message) := by
  cases w with
  | int v => exact Decimal.write_of_writable (Config.writable_of_inRange hc (hw v rfl))
  | failure f => rfl

end Value

/-! ### Trees -/

namespace Tree

/-- Without an overlong literal a tree has a value. -/
theorem exists_value (hc : c.halfRange < Decimal.writeBound) : ∀ t : Expr,
    (∀ text ∈ t.literals, ¬ Overlong text) → ∃ w, value c t = .ok w ∧ Value.Bounded c w
  | .literal text, h => by
    obtain ⟨w, hw, hbounded⟩ := Value.exists_ofLiteral c (h text (List.mem_singleton.mpr rfl))
    exact ⟨w, orFault_eq_ok_iff.mpr hw, hbounded⟩
  | .binary o l r, h => by
    obtain ⟨hl, hr⟩ := forall_mem_literals_binary.mp h
    obtain ⟨x, hx, hboundedx⟩ := exists_value hc l hl
    obtain ⟨y, hy, hboundedy⟩ := exists_value hc r hr
    obtain ⟨u, hu, hbounded⟩ := Value.exists_apply (o := o) hc hboundedx hboundedy
    exact ⟨u, value_binary_eq_ok_iff.mpr ⟨x, y, hx, hy, hu⟩, hbounded⟩
  | .foreign v, _ => v.elim

/-- The first overlong literal has no value, and so the tree has none; what stands to the left of it has
one, even if it is a failure. -/
theorem value_of_overlong (hc : c.halfRange < Decimal.writeBound) : ∀ t : Expr,
    t.literals.find? (Overlong ·) = some text → value c t = .error (.limit (.reading text.length))
  | .literal s, h => by
    obtain rfl : text = s := List.mem_singleton.mp (List.mem_of_find?_eq_some h)
    have hlong : Overlong text := by simpa using List.find?_some h
    rw [value, Value.ofLiteral_of_overlong c hlong]
    rfl
  | .binary o l r, h => by
    rw [literals, List.find?_append] at h
    rw [value]
    cases hfind : l.literals.find? (Overlong ·) with
    | some s =>
      rw [hfind] at h
      obtain rfl : text = s := (Option.some.inj h).symm
      rw [value_of_overlong hc l hfind]
      rfl
    | none =>
      rw [hfind] at h
      have hnone : ∀ s ∈ l.literals, ¬ Overlong s := by simpa using hfind
      obtain ⟨x, hx, -⟩ := exists_value hc l hnone
      rw [hx, value_of_overlong hc r h]
      rfl
  | .foreign v, _ => v.elim

/-- **In a range whose integers can all be written, only a literal that is too long to be read ends an
evaluation without a value**, and of several the first one from the left does, whatever fails before it.
All other trees have values, and these have texts. -/
theorem evaluate_eq_error_iff (c : Config) (t : Expr)
    (hc : 2 ^ (c.intBits - 1) < 10 ^ Decimal.digitLimit) :
    (∀ f, t.evaluate c = .error f ↔
      ∃ text, t.literals.find? (Overlong ·) = some text ∧ f = .limit (.reading text.length)) ∧
    ((∃ f, t.evaluate c = .error f) ↔ ∃ text ∈ t.literals, Overlong text) ∧
    ((∀ text ∈ t.literals, ¬ Overlong text) → ∃ w, t.evaluate c = .ok w ∧
      ((∃ v, w = .int v ∧ w.text = .ok (toString v)) ∨ ∃ f, w = .failure f ∧ w.text = .ok f.message)) := by
  rw [evaluate_eq_value]
  rw [← c.halfRange_eq, ← Decimal.writeBound_eq] at hc
  have hiff : ∀ f, value c t = .error f ↔
      ∃ text, t.literals.find? (Overlong ·) = some text ∧ f = .limit (.reading text.length) := by
    intro f
    cases hfind : t.literals.find? (Overlong ·) with
    | some text =>
      rw [value_of_overlong hc t hfind]
      simp [eq_comm]
    | none =>
      obtain ⟨w, hw, -⟩ := exists_value hc t (by simpa using hfind)
      rw [hw]
      simp
  refine ⟨hiff, ?_, fun h => ?_⟩
  · constructor
    · rintro ⟨f, hf⟩
      obtain ⟨text, hfind, -⟩ := (hiff f).mp hf
      exact ⟨text, List.mem_of_find?_eq_some hfind, by simpa using List.find?_some hfind⟩
    · rintro ⟨text, hmem, hlong⟩
      have hsome : (t.literals.find? (Overlong ·)).isSome = true :=
        List.find?_isSome.mpr ⟨text, hmem, decide_eq_true hlong⟩
      obtain ⟨s, hs⟩ := Option.isSome_iff_exists.mp hsome
      exact ⟨_, (hiff _).mpr ⟨s, hs, rfl⟩⟩
  · obtain ⟨w, hw, hbounded⟩ := exists_value hc t h
    refine ⟨w, hw, ?_⟩
    have htext := Value.text_eq_of_bounded hc hbounded
    cases w with
    | int v => exact .inl ⟨v, rfl, htext⟩
    | failure f => exact .inr ⟨f, rfl, htext⟩

/-- A division by zero in front of a literal of 4301 digits. -/
theorem evaluate_eq_error_of_division :
    2 ^ (({} : Config).intBits - 1) < 10 ^ Decimal.digitLimit ∧
      evaluate {} (.binary .add (.binary .div (.literal "1") (.literal "0"))
        (.literal (String.ofList (List.replicate 4301 '9'))) : Expr) = .error (.limit (.reading 4301)) := by
  have hc : 2 ^ (({} : Config).intBits - 1) < 10 ^ Decimal.digitLimit :=
    Nat.lt_of_lt_of_le (by decide : 2 ^ 63 < 10 ^ 19) (Nat.pow_le_pow_right (by decide) (by decide))
  have hlength : (String.ofList (List.replicate 4301 '9')).length = 4301 := by
    rw [String.length_ofList, List.length_replicate]
  have hlong : Overlong (String.ofList (List.replicate 4301 '9')) := by
    refine ⟨⟨?_, fun d hd => ?_⟩, by rw [hlength]; decide⟩
    · rw [String.toList_ofList]
      exact List.cons_ne_nil _ _
    · rw [String.toList_ofList] at hd
      rw [(List.mem_replicate.mp hd).2]
      rfl
  refine ⟨hc, ((evaluate_eq_error_iff {} _ hc).1 _).mpr ⟨_, ?_, by rw [hlength]⟩⟩
  have hone : ¬ Overlong "1" := by decide
  have hzero : ¬ Overlong "0" := by decide
  generalize String.ofList (List.replicate 4301 '9') = text at hlong
  simp [literals, hone, hzero, hlong]

end Tree

end IntExpr
