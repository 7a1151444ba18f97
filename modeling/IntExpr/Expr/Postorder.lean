import IntExpr.Expr

/-!
# Postorder — a tree as a flat list

The pieces of a tree in post-order, each operator after its operands. `assemble` builds the tree of
such a list again (`assemble_pieces`); there an operator is a text and has to be one of the six.
-/

namespace IntExpr

/-- One node of a flat list. -/
inductive Piece (φ : Type) where
  | literal (text : String)
  | op (symbol : String)
  | foreign (value : φ)
  deriving DecidableEq, Repr

/-- Why a list is not that of a tree. -/
inductive AssemblyError where
  | unknownOperator (symbol : String)
  | unbalanced
  deriving DecidableEq, Repr

namespace Tree

variable {φ : Type}

/-- The nodes in post-order, before those of `rest`. -/
def piecesOnto (rest : List (Piece φ)) : Tree φ → List (Piece φ)
  | .literal text => .literal text :: rest
  | .binary o l r => piecesOnto (piecesOnto (.op o.symbol :: rest) r) l
  | .foreign v => .foreign v :: rest

def pieces (t : Tree φ) : List (Piece φ) := t.piecesOnto []

def isForeign : Tree φ → Bool
  | .foreign _ => true
  | _ => false

/-- The binary node of an operator's text. Over a foreign value no operator is ever applied, and
any text will do. -/
def node (symbol : String) (l r : Tree φ) : Except AssemblyError (Tree φ) :=
  match BinOp.ofSymbol? symbol with
  | some o => .ok (.binary o l r)
  | none =>
    if l.isForeign || r.isForeign then .ok (.binary .add l r) else .error (.unknownOperator symbol)

def push (built : List (Tree φ)) : Piece φ → Except AssemblyError (List (Tree φ))
  | .literal text => .ok (.literal text :: built)
  | .foreign v => .ok (.foreign v :: built)
  | .op symbol =>
    match built with
    | r :: l :: built => (node symbol l r).map (· :: built)
    | _ => .error .unbalanced

/-- The tree of a list of nodes in post-order. -/
def assemble (ps : List (Piece φ)) : Except AssemblyError (Tree φ) := do
  match ← ps.foldlM push [] with
  | [t] => .ok t
  | _ => .error .unbalanced

/-! ### A tree is built again from its pieces -/

theorem foldlM_push_piecesOnto (t : Tree φ) (rest : List (Piece φ)) (built : List (Tree φ)) :
    (t.piecesOnto rest).foldlM push built = rest.foldlM push (t :: built) := by
  induction t generalizing rest built with
  | literal text => rfl
  | foreign v => rfl
  | binary o l r hl hr =>
    rw [piecesOnto, hl, hr, List.foldlM_cons]
    simp only [push, node, BinOp.ofSymbol?_symbol]
    rfl

theorem assemble_pieces (t : Tree φ) : assemble t.pieces = .ok t := by
  rw [assemble, pieces, foldlM_push_piecesOnto]; rfl

end Tree

end IntExpr
