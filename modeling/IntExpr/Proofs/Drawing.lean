import IntExpr.Expr.Dot
import Mathlib.Data.List.Nodup

/-!
# Drawing — the lines of a drawing and the nodes of its tree

The lines of a drawing are those of a walk through the tree in pre-order (`lines`).  They are compared with
`nodes`, which knows of no numbers: it lists the nodes in pre-order, each with the way that leads to it from
the root, so that equal subtrees are kept apart.  The number of a node is its place in this list
(`nodeLines_eq`), each number but that of the root is the target of one edge (`targets_perm`), and this edge
comes from the node that is one step less away from the root (`isParent_of_mem_edges`).
-/

namespace IntExpr.Expr

variable {i j k : Nat} {o : BinOp} {l r : Expr}

/-! ### Nodes -/

/-- The operand that a step downwards leads to. -/
inductive Side where
  | left
  | right
  deriving DecidableEq, Repr

/-- A node of a tree: the way that leads to it from the root, and its label. -/
structure Node where
  way : List Side
  label : String
  deriving DecidableEq, Repr

/-- A node of an operand as a node of the whole tree. -/
def Node.beneath (side : Side) (n : Node) : Node := { n with way := side :: n.way }

/-- The nodes of a tree, in pre-order. -/
def nodes : Expr → List Node
  | .literal text => [⟨[], text⟩]
  | .binary o l r =>
    ⟨[], o.symbol⟩ :: ((nodes l).map (Node.beneath .left) ++ (nodes r).map (Node.beneath .right))
  | .foreign v => nomatch v

/-- Of the nodes of a tree in pre-order, number `j` is an operand of number `i`. -/
def IsParent (e : Expr) (i j : Nat) : Prop :=
  ∃ n m side, (nodes e)[i]? = some n ∧ (nodes e)[j]? = some m ∧ m.way = n.way ++ [side]

theorem length_nodes (e : Expr) : (nodes e).length = e.size := by
  induction e with
  | literal text => rfl
  | binary o l r hl hr =>
    rw [nodes, List.length_cons, List.length_append, List.length_map, List.length_map, hl, hr]
    rfl
  | foreign v => exact v.elim

theorem exists_root (e : Expr) : ∃ label, (nodes e)[0]? = some ⟨[], label⟩ := by
  cases e with
  | literal text => exact ⟨text, rfl⟩
  | binary o l r => exact ⟨o.symbol, rfl⟩
  | foreign v => exact v.elim

theorem getElem?_nodes_left {n : Node} (h : (nodes l)[i]? = some n) :
    (nodes (.binary o l r))[1 + i]? = some (n.beneath .left) := by
  have hlt : i < ((nodes l).map (Node.beneath .left)).length := by
    rw [List.length_map]
    exact (List.getElem?_eq_some_iff.mp h).1
  rw [nodes, Nat.add_comm, List.getElem?_cons_succ, List.getElem?_append_left hlt, List.getElem?_map, h]
  rfl

theorem getElem?_nodes_right {n : Node} (h : (nodes r)[i]? = some n) :
    (nodes (.binary o l r))[1 + l.size + i]? = some (n.beneath .right) := by
  have hlength : ((nodes l).map (Node.beneath .left)).length = l.size := by
    rw [List.length_map, length_nodes]
  have hplace : 1 + l.size + i = l.size + i + 1 := by omega
  rw [nodes, hplace, List.getElem?_cons_succ, List.getElem?_append_right (by omega), hlength,
    Nat.add_sub_cancel_left, List.getElem?_map, h]
  rfl

/-- A node and its parent in an operand, whose nodes stand `d` places further on in the whole tree. -/
theorem IsParent.beneath {e e' : Expr} {d : Nat} {side : Side}
    (hnodes : ∀ {i n}, (nodes e)[i]? = some n → (nodes e')[d + i]? = some (n.beneath side))
    (h : IsParent e i j) : IsParent e' (d + i) (d + j) := by
  obtain ⟨n, m, last, hn, hm, hway⟩ := h
  refine ⟨_, _, last, hnodes hn, hnodes hm, ?_⟩
  show side :: m.way = side :: n.way ++ [last]
  rw [hway, List.cons_append]

theorem isParent_left : IsParent (.binary o l r) 0 1 := by
  obtain ⟨label, hroot⟩ := exists_root l
  exact ⟨_, _, .left, rfl, getElem?_nodes_left hroot, rfl⟩

theorem isParent_right : IsParent (.binary o l r) 0 (1 + l.size) := by
  obtain ⟨label, hroot⟩ := exists_root r
  exact ⟨_, _, .right, rfl, getElem?_nodes_right hroot, rfl⟩

/-! ### Lines -/

inductive Line where
  | node (k : Nat) (label : String)
  | edge (parent child : Nat)

def Line.text : Line → String
  | .node k label => nodeLine k label
  | .edge p k => edgeLine p k

/-- The label and the number of a node's line. -/
def Line.node? : Line → Option (String × Nat)
  | .node k label => some (label, k)
  | .edge _ _ => none

/-- The two ends of an edge's line, the parent first. -/
def Line.edge? : Line → Option (Nat × Nat)
  | .node _ _ => none
  | .edge p k => some (p, k)

/-- The lines of a subtree whose root has the number `k`: the root, and then each operand with all that is
beneath it and the edge that leads to it. -/
def lines (k : Nat) : Expr → List Line
  | .literal text => [.node k text]
  | .binary o l r =>
    .node k o.symbol :: (lines (k + 1) l ++ .edge k (k + 1) ::
      (lines (k + 1 + l.size) r ++ [.edge k (k + 1 + l.size)]))
  | .foreign v => nomatch v

def nodeLines (k : Nat) (e : Expr) : List (String × Nat) := (lines k e).filterMap Line.node?

def edges (k : Nat) (e : Expr) : List (Nat × Nat) := (lines k e).filterMap Line.edge?

theorem drawn_eq_join (e : Expr) (k : Nat) : drawn k e = String.join ((lines k e).map Line.text) := by
  induction e generalizing k with
  | literal text =>
    rw [lines, List.map_singleton, String.join_cons, String.join_nil, String.append_empty]
    rfl
  | binary o l r hl hr =>
    simp only [drawn, lines, hl, hr, List.map_cons, List.map_append, List.map_nil, String.join_cons,
      String.join_append, String.join_nil, Line.text, String.append_assoc, String.append_empty]
  | foreign v => exact v.elim

theorem nodeLines_binary : nodeLines k (.binary o l r) =
    (o.symbol, k) :: (nodeLines (k + 1) l ++ nodeLines (k + 1 + l.size) r) := by
  simp only [nodeLines, lines, List.filterMap_cons, List.filterMap_append, List.filterMap_nil, Line.node?,
    List.append_nil]

theorem edges_binary : edges k (.binary o l r) =
    edges (k + 1) l ++ (k, k + 1) :: (edges (k + 1 + l.size) r ++ [(k, k + 1 + l.size)]) := by
  simp only [edges, lines, List.filterMap_cons, List.filterMap_append, List.filterMap_nil, Line.edge?]

/-- The nodes are numbered in pre-order, and each has its own label. -/
theorem nodeLines_eq (e : Expr) (k : Nat) : nodeLines k e = ((nodes e).map Node.label).zipIdx k := by
  induction e generalizing k with
  | literal text => rfl
  | binary o l r hl hr =>
    have hlabel (side : Side) (e : Expr) :
        ((nodes e).map (Node.beneath side)).map Node.label = (nodes e).map Node.label := by
      rw [List.map_map]
      rfl
    rw [nodeLines_binary, hl, hr, nodes, List.map_cons, List.map_append, hlabel, hlabel, List.zipIdx_cons,
      List.zipIdx_append, List.length_map, length_nodes]
  | foreign v => exact v.elim

/-- **Every number but that of the root is the target of one edge.** -/
theorem targets_perm (e : Expr) (k : Nat) :
    (k :: (edges k e).map Prod.snd).Perm (List.range' k e.size) := by
  induction e generalizing k with
  | literal text => exact .refl _
  | binary o l r hl hr =>
    have hleft : ((edges (k + 1) l).map Prod.snd ++ [k + 1]).Perm (List.range' (k + 1) l.size) :=
      (List.perm_append_singleton _ _).trans (hl (k + 1))
    have hright : ((edges (k + 1 + l.size) r).map Prod.snd ++ [k + 1 + l.size]).Perm
        (List.range' (k + 1 + l.size) r.size) :=
      (List.perm_append_singleton _ _).trans (hr (k + 1 + l.size))
    have hboth := (hleft.append hright).cons k
    rw [List.range'_append_1, ← List.range'_succ] at hboth
    rw [edges_binary]
    simp only [List.map_append, List.map_cons, List.map_nil]
    rwa [List.append_assoc, List.singleton_append] at hboth
  | foreign v => exact v.elim

theorem length_edges (e : Expr) (k : Nat) : (edges k e).length + 1 = e.size := by
  have hlength := (targets_perm e k).length_eq
  rwa [List.length_cons, List.length_map, List.length_range'] at hlength

/-- An edge comes from the parent of the node that it leads to. -/
theorem isParent_of_mem_edges (e : Expr) (k : Nat) (h : (i, j) ∈ edges k e) :
    ∃ p c, i = k + p ∧ j = k + c ∧ IsParent e p c := by
  induction e generalizing k with
  | literal text => exact nomatch h
  | binary o l r hl hr =>
    rw [edges_binary] at h
    simp only [List.mem_append, List.mem_cons, List.not_mem_nil, or_false, Prod.mk.injEq] at h
    rcases h with h | ⟨rfl, rfl⟩ | h | ⟨rfl, rfl⟩
    · obtain ⟨p, c, rfl, rfl, hparent⟩ := hl _ h
      exact ⟨1 + p, 1 + c, Nat.add_assoc .., Nat.add_assoc .., hparent.beneath getElem?_nodes_left⟩
    · exact ⟨0, 1, rfl, rfl, isParent_left⟩
    · obtain ⟨p, c, rfl, rfl, hparent⟩ := hr _ h
      exact ⟨1 + l.size + p, 1 + l.size + c, by omega, by omega, hparent.beneath getElem?_nodes_right⟩
    · exact ⟨0, 1 + l.size, rfl, Nat.add_assoc .., isParent_right⟩
  | foreign v => exact v.elim

theorem exists_edge (e : Expr) (hpos : 0 < j) (hlt : j < e.size) :
    ∃ i, IsParent e i j ∧ (edges 0 e).filter (·.2 = j) = [(i, j)] := by
  have hperm := targets_perm e 0
  have hnodup := (List.nodup_cons.mp (hperm.nodup_iff.mpr List.nodup_range')).2
  have hmem : j ∈ (edges 0 e).map Prod.snd := by
    have hrange : j ∈ List.range' 0 e.size := List.mem_range'_1.mpr (by omega)
    exact List.mem_of_ne_of_mem (Nat.ne_of_gt hpos) (hperm.mem_iff.mpr hrange)
  have hone : ((edges 0 e).filter (·.2 = j)).length = 1 := by
    rw [← List.countP_eq_length_filter, ← List.count_eq_one_of_mem hnodup hmem, List.count, List.countP_map]
    rfl
  obtain ⟨⟨i, target⟩, hfilter⟩ := List.length_eq_one_iff.mp hone
  have hfound : (i, target) ∈ (edges 0 e).filter (·.2 = j) := hfilter ▸ List.mem_singleton.mpr rfl
  obtain ⟨hedge, htarget⟩ := List.mem_filter.mp hfound
  obtain rfl : target = j := of_decide_eq_true htarget
  obtain ⟨p, c, rfl, hc, hparent⟩ := isParent_of_mem_edges e 0 hedge
  rw [Nat.zero_add] at hc hfilter
  exact ⟨p, hc ▸ hparent, hfilter⟩

/-- **A drawing is a walk in pre-order.**  Its lines are those of the walk.  The lines of nodes have the
labels of the nodes in pre-order and the numbers from zero on; there is one edge less than there are nodes,
and of all edges just one leads to a node other than the root, from its parent. -/
theorem dot_preorder (e : Expr) :
    e.dot = dotHeader ++ String.join ((lines 0 e).map Line.text) ++ dotFooter ∧
      nodeLines 0 e = ((nodes e).map Node.label).zipIdx ∧
      (nodeLines 0 e).map Prod.snd = List.range e.size ∧
      (edges 0 e).length + 1 = e.size ∧
      ∀ j, 0 < j → j < e.size → ∃ i, IsParent e i j ∧ (edges 0 e).filter (·.2 = j) = [(i, j)] := by
  refine ⟨?_, nodeLines_eq e 0, ?_, length_edges e 0, fun j => exists_edge e⟩
  · rw [dot_eq, drawn_eq_join]
  · rw [nodeLines_eq, List.zipIdx_map_snd, List.length_map, length_nodes, List.range_eq_range']

/-- A product of two equal differences: node 5 is the first operand of the second one. -/
theorem dot_preorder_of_equal_operands :
    let difference : Expr := .binary .sub (.literal "1") (.literal "1")
    let product : Expr := .binary .mul difference difference
    IsParent product 4 5 ∧ (edges 0 product).filter (·.2 = 5) = [(4, 5)] := by
  intro difference product
  obtain ⟨i, hparent, hedge⟩ := (dot_preorder product).2.2.2.2 5 (by decide) (by decide)
  have hedges : (edges 0 product).filter (·.2 = 5) = [(4, 5)] := rfl
  obtain rfl : i = 4 := by
    rw [hedges] at hedge
    exact (Prod.mk.inj (List.cons.inj hedge).1).1.symm
  exact ⟨hparent, hedge⟩

end IntExpr.Expr
