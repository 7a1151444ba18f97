import IntExpr.Expr

/-!
# Dot — a tree as a DOT digraph

Nodes are numbered in pre-order from zero. Each node has a line for its label, and each operand,
after the lines of its whole subtree, a line for the edge that leads to it. `dot` works off a list
of what is still to be drawn; `drawn` says the same by recursion, and `draw_eq` joins the two.
-/

namespace IntExpr.Expr

/-- A label's character between double quotes. -/
def escapeLabelChar (c : Char) : List Char := if c = '\\' ∨ c = '"' then ['\\', c] else [c]

def escapeLabel (s : String) : String := String.ofList (s.toList.flatMap escapeLabelChar)

def nodeLine (k : Nat) (label : String) : String := s!"n{k} [label=\"{escapeLabel label}\"];\n"

/-- The line of the edge from node `p` to node `k`. -/
def edgeLine (p k : Nat) : String := s!"n{p} -> n{k};\n"

/-- What is still to be drawn: the edge to a node, or a subtree with the node above it. -/
inductive Undrawn where
  | edge (line : String)
  | tree (e : Expr) (parent : Option Nat)

def Undrawn.weight : Undrawn → Nat
  | .edge _ => 1
  | .tree e _ => 2 * e.size

def undrawnWeight : List Undrawn → Nat
  | [] => 0
  | u :: us => u.weight + undrawnWeight us

def edgeFrom (parent : Option Nat) (k : Nat) : List Undrawn :=
  match parent with
  | none => []
  | some p => [.edge (edgeLine p k)]

theorem undrawnWeight_edgeFrom (parent : Option Nat) (k : Nat) (rest : List Undrawn) :
    undrawnWeight (edgeFrom parent k ++ rest) ≤ undrawnWeight rest + 1 := by
  cases parent
  · simp [edgeFrom]
  · simp only [edgeFrom, List.cons_append, List.nil_append, undrawnWeight, Undrawn.weight]; omega

/-- Draw what is undrawn after `done`; the next node gets the number `k`. -/
def draw (done : String) (k : Nat) : List Undrawn → String
  | [] => done
  | .edge line :: rest => draw (done ++ line) k rest
  | .tree (.literal text) parent :: rest =>
    draw (done ++ nodeLine k text) (k + 1) (edgeFrom parent k ++ rest)
  | .tree (.binary o l r) parent :: rest =>
    draw (done ++ nodeLine k o.symbol) (k + 1)
      (.tree l (some k) :: .tree r (some k) :: (edgeFrom parent k ++ rest))
  | .tree (.foreign v) _ :: _ => nomatch v
termination_by undrawn => undrawnWeight undrawn
decreasing_by
  · simp [undrawnWeight, Undrawn.weight]
  all_goals
    have he := undrawnWeight_edgeFrom parent k rest
    simp only [undrawnWeight, Undrawn.weight, Tree.size]
    omega

def dotHeader : String := "digraph g \x7b\n"

def dotFooter : String := "\x7d\n"

/-- The DOT digraph of a tree. -/
def dot (e : Expr) : String := dotHeader ++ draw "" 0 [.tree e none] ++ dotFooter

/-! ### The drawing by recursion -/

/-- The lines of a subtree whose root has the number `k`. -/
def drawn (k : Nat) : Expr → String
  | .literal text => nodeLine k text
  | .binary o l r =>
    nodeLine k o.symbol ++ drawn (k + 1) l ++ edgeLine k (k + 1) ++
      drawn (k + 1 + l.size) r ++ edgeLine k (k + 1 + l.size)
  | .foreign v => nomatch v

/-- The line of the edge from `parent` to node `k`, if there is a parent. -/
def edgeLine? (parent : Option Nat) (k : Nat) : String :=
  match parent with
  | none => ""
  | some p => edgeLine p k

/-- What a list of undrawn items comes to when the next node gets the number `k`. -/
def allDrawn (k : Nat) : List Undrawn → String
  | [] => ""
  | .edge line :: rest => line ++ allDrawn k rest
  | .tree e parent :: rest => drawn k e ++ edgeLine? parent k ++ allDrawn (k + e.size) rest

theorem allDrawn_edgeFrom (parent : Option Nat) (j k : Nat) (rest : List Undrawn) :
    allDrawn k (edgeFrom parent j ++ rest) = edgeLine? parent j ++ allDrawn k rest := by
  cases parent <;> simp [edgeFrom, edgeLine?, allDrawn]

theorem draw_eq (done : String) (k : Nat) (us : List Undrawn) :
    draw done k us = done ++ allDrawn k us := by
  fun_induction draw done k us with
  | case1 done k => simp [allDrawn]
  | case2 done k line rest ih => simp [ih, allDrawn, String.append_assoc]
  | case3 done k text parent rest ih =>
    simp [ih, allDrawn_edgeFrom, allDrawn, drawn, Tree.size, String.append_assoc]
  | case4 done k o l r parent rest ih =>
    have next : k + 1 + l.size + r.size = k + (l.size + r.size + 1) := by omega
    simp [ih, allDrawn_edgeFrom, allDrawn, drawn, edgeLine?, Tree.size, String.append_assoc, next]

theorem dot_eq (e : Expr) : e.dot = dotHeader ++ drawn 0 e ++ dotFooter := by
  rw [dot, draw_eq]
  simp only [allDrawn, edgeLine?, String.append_empty, String.empty_append]

end IntExpr.Expr
