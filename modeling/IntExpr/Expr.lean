import IntExpr.Operator

/-!
# Expr — expression trees

A literal keeps its text as it was written; a binary node has two operands. There is no unary
minus: `-x` is the tree of `0 - x` (`negate`). A `Tree φ` may also hold foreign values where a
node should be; an `Expr` holds none.
-/

namespace IntExpr

/-- Expression trees in which values of `φ` may stand for nodes. -/
inductive Tree (φ : Type) where
  | literal (text : String)
  | binary (op : BinOp) (left right : Tree φ)
  | foreign (value : φ)
  deriving DecidableEq, Repr

abbrev Expr := Tree Empty

namespace Tree

variable {φ : Type}

def size : Tree φ → Nat
  | .literal _ => 1
  | .binary _ l r => l.size + r.size + 1
  | .foreign _ => 1

/-- The number of operators on the longest way from the root to a leaf. -/
def height : Tree φ → Nat
  | .literal _ => 0
  | .binary _ l r => max l.height r.height + 1
  | .foreign _ => 0

def children : Tree φ → List (Tree φ)
  | .binary _ l r => [l, r]
  | _ => []

def label? : Tree φ → Option String
  | .literal text => some text
  | .binary op _ _ => some op.symbol
  | .foreign _ => none

/-- The tree with no room for foreign values, if it holds none. -/
def toExpr? : Tree φ → Option Expr
  | .literal text => some (.literal text)
  | .binary op l r => do return .binary op (← l.toExpr?) (← r.toExpr?)
  | .foreign _ => none

/-- The tree of `0 - t`. -/
def negate (t : Tree φ) : Tree φ := .binary .sub (.literal "0") t

/-- `negate`, `n` times over. -/
def negateTimes : Nat → Tree φ → Tree φ
  | 0, t => t
  | n + 1, t => negateTimes n t.negate

theorem negateTimes_succ' (n : Nat) (t : Tree φ) :
    negateTimes (n + 1) t = (negateTimes n t).negate := by
  induction n generalizing t with
  | zero => rfl
  | succ n ih => rw [negateTimes, ih, negateTimes]

/-! ### The parts of a tree -/

variable {o : BinOp} {l r : Tree φ}

/-- The subtrees in post-order. -/
def subtrees : Tree φ → List (Tree φ)
  | .literal text => [.literal text]
  | .binary o l r => l.subtrees ++ r.subtrees ++ [.binary o l r]
  | .foreign v => [.foreign v]

def literals : Tree φ → List String
  | .literal text => [text]
  | .binary _ l r => l.literals ++ r.literals
  | .foreign _ => []

theorem self_mem_subtrees (t : Tree φ) : t ∈ t.subtrees := by
  cases t with
  | literal text => exact List.mem_singleton.mpr rfl
  | binary o l r => exact List.mem_append_right _ (List.mem_singleton.mpr rfl)
  | foreign v => exact List.mem_singleton.mpr rfl

theorem forall_mem_subtrees_binary {p : Tree φ → Prop} :
    (∀ s ∈ (binary o l r).subtrees, p s) ↔
      (∀ s ∈ l.subtrees, p s) ∧ (∀ s ∈ r.subtrees, p s) ∧ p (.binary o l r) := by
  rw [subtrees, List.forall_mem_append, List.forall_mem_append, List.forall_mem_singleton, and_assoc]

theorem forall_mem_literals_binary {p : String → Prop} :
    (∀ text ∈ (binary o l r).literals, p text) ↔
      (∀ text ∈ l.literals, p text) ∧ ∀ text ∈ r.literals, p text :=
  List.forall_mem_append

end Tree

end IntExpr
