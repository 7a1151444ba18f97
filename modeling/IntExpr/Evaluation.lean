import IntExpr.Expr
import IntExpr.Value

/-!
# Evaluation — the value of a tree

`evaluate` works with two stacks, one of what is still to be done and one of values, so that a tree
may be as deep as it likes. `value` says the same by recursion: left operand, right operand, then
the operator, and the first fault ends it. `run_visit` is the invariant that joins the two; it also
shows that the machine never lacks a value.
-/

namespace IntExpr

/-- What ends an evaluation without a value. -/
inductive Fault (φ : Type) where
  /-- A foreign value stands where a node should be. -/
  | notANode (value : φ)
  | limit (e : Decimal.LimitError)
  deriving DecidableEq, Repr

namespace Tree

variable {φ : Type}

def orFault (r : Except Decimal.LimitError Value) : Except (Fault φ) Value := r.mapError .limit

def value (c : Config) : Tree φ → Except (Fault φ) Value
  | .literal text => orFault (Value.ofLiteral c text)
  | .binary op l r => do
    let x ← value c l
    let y ← value c r
    orFault (Value.apply c op x y)
  | .foreign v => .error (.notANode v)

/-! ### The machine -/

inductive Task (φ : Type) where
  | visit (t : Tree φ)
  | apply (op : BinOp)

def Task.weight : Task φ → Nat
  | .visit t => 2 * t.size
  | .apply _ => 1

def taskWeight : List (Task φ) → Nat
  | [] => 0
  | t :: ts => t.weight + taskWeight ts

inductive Halted (φ : Type) where
  | values (vs : List Value)
  | fault (f : Fault φ)
  /-- An operator found fewer than two values. -/
  | underflow

/-- Do the tasks, the first one first; `vs` are the values at hand, the last one first. -/
def run (c : Config) : List (Task φ) → List Value → Halted φ
  | [], vs => .values vs
  | .visit (.literal text) :: tasks, vs =>
    match orFault (φ := φ) (Value.ofLiteral c text) with
    | .ok v => run c tasks (v :: vs)
    | .error f => .fault f
  | .visit (.binary op l r) :: tasks, vs =>
    run c (.visit l :: .visit r :: .apply op :: tasks) vs
  | .visit (.foreign v) :: _, _ => .fault (.notANode v)
  | .apply op :: tasks, y :: x :: vs =>
    match orFault (φ := φ) (Value.apply c op x y) with
    | .ok v => run c tasks (v :: vs)
    | .error f => .fault f
  | .apply _ :: _, _ => .underflow
termination_by tasks => taskWeight tasks
decreasing_by
  all_goals simp only [taskWeight, Task.weight, Tree.size]; omega

/-- Visiting a tree comes to its value, put on the stack of values, or to its fault. -/
theorem run_visit (c : Config) (t : Tree φ) (tasks : List (Task φ)) (vs : List Value) :
    run c (.visit t :: tasks) vs =
      match value c t with
      | .ok v => run c tasks (v :: vs)
      | .error f => .fault f := by
  induction t generalizing tasks vs with
  | literal text => rw [run]; rfl
  | foreign v => rw [run]; rfl
  | binary op l r hl hr =>
    rw [run, hl, value]
    cases value c l with
    | error f => rfl
    | ok x =>
      simp only [hr]
      cases value c r with
      | error f => rfl
      | ok y => simp only [run]; rfl

/-- The machine ends with exactly one value, or at a fault. -/
theorem run_visit_nil (c : Config) (t : Tree φ) :
    run c [.visit t] [] =
      match value c t with
      | .ok v => .values [v]
      | .error f => .fault f := by
  rw [run_visit]
  cases value c t with
  | ok v => simp only [run]
  | error f => rfl

/-- The value of a tree, or the first fault. -/
def evaluate (c : Config) (t : Tree φ) : Except (Fault φ) Value :=
  match h : run c [.visit t] [] with
  | .values [v] => .ok v
  | .fault f => .error f
  | .values [] | .values (_ :: _ :: _) | .underflow => False.elim <| by
    rw [run_visit_nil] at h
    cases hv : value c t <;> simp [hv] at h

theorem evaluate_eq_value (c : Config) (t : Tree φ) : evaluate c t = value c t := by
  have h := run_visit_nil c t
  unfold evaluate
  split <;> rename_i hr <;> rw [hr] at h <;> cases hv : value c t <;> simp_all

end Tree

end IntExpr
