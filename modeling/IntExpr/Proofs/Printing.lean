import IntExpr.Proofs.Drawing
import IntExpr.Proofs.RoundTrip

/-!
# Printing — the pieces of a canonical text and the nodes that they are printed for

The printer works off a list of what is pending.  `Emits` lists the pieces that it appends to the text, turn by
turn.  They are compared with `fragments`, which goes through the tree by recursion, in order, and knows with
each piece the way to its node: a literal has its text, another node its operator and, unless it is the root,
the parentheses around it (`own`).

* `emits_tree`: the pieces of a pending tree come first, whatever is pending after it.
* `piecesAt_fragments`: each node has its own pieces, each of them once, and no piece is without a node.
-/

namespace IntExpr.Expr

variable {o : BinOp} {l r e : Expr} {n : Nat} {side : Side} {way : List Side} {ps : List Pending}
  {pieces pieces' : List String}

/-! ### The loop -/

/-- The printer takes `n` turns with what is pending, and appends these pieces. -/
inductive Emits : Nat → List Pending → List String → Prop
  | finish : Emits 0 [] []
  | text {n : Nat} {s : String} {rest : List Pending} {pieces : List String} :
    Emits n rest pieces → Emits (n + 1) (.text s :: rest) (s :: pieces)
  | literal {n : Nat} {text : String} {rest : List Pending} {pieces : List String} :
    Emits n rest pieces → Emits (n + 1) (.tree (.literal text) :: rest) (text :: pieces)
  /-- An operator is no piece yet: the node is replaced by what it is made of. -/
  | binary {n : Nat} {o : BinOp} {l r : Expr} {rest : List Pending} {pieces : List String} :
    Emits n (operand l ++ .text (" " ++ o.symbol ++ " ") :: (operand r ++ rest)) pieces →
    Emits (n + 1) (.tree (.binary o l r) :: rest) pieces

theorem Emits.emit_eq (h : Emits n ps pieces) (done : String) :
    emit done ps = done ++ String.join pieces := by
  induction h generalizing done with
  | finish => rw [emit, String.join_nil, String.append_empty]
  | text _ ih | literal _ ih => rw [emit, ih, String.join_cons, String.append_assoc]
  | binary _ ih => rw [emit, ih]

theorem Emits.unique {n' : Nat} (h : Emits n ps pieces) (h' : Emits n' ps pieces') :
    n = n' ∧ pieces = pieces' := by
  induction h generalizing n' pieces' with
  | finish =>
    cases h'
    exact ⟨rfl, rfl⟩
  | text _ ih =>
    cases h' with
    | text h' =>
      obtain ⟨rfl, rfl⟩ := ih h'
      exact ⟨rfl, rfl⟩
  | literal _ ih =>
    cases h' with
    | literal h' =>
      obtain ⟨rfl, rfl⟩ := ih h'
      exact ⟨rfl, rfl⟩
  | binary _ ih =>
    cases h' with
    | binary h' =>
      obtain ⟨rfl, rfl⟩ := ih h'
      exact ⟨rfl, rfl⟩

/-! ### The pieces of a tree -/

/-- A piece of a text, and the way to the node that it is printed for. -/
structure Fragment where
  way : List Side
  piece : String

def Fragment.beneath (side : Side) (f : Fragment) : Fragment := { f with way := side :: f.way }

/-- The pieces of an operand: those of its text, in parentheses unless it is a literal. -/
def enclosed (e : Expr) (fs : List Fragment) : List Fragment :=
  match e with
  | .literal _ => fs
  | _ => ⟨[], "("⟩ :: (fs ++ [⟨[], ")"⟩])

/-- The pieces of the text of a tree, in order. -/
def fragments : Expr → List Fragment
  | .literal text => [⟨[], text⟩]
  | .binary o l r =>
    (enclosed l (fragments l)).map (Fragment.beneath .left) ++ ⟨[], " " ++ o.symbol ++ " "⟩ ::
      (enclosed r (fragments r)).map (Fragment.beneath .right)
  | .foreign v => nomatch v

def texts (fs : List Fragment) : List String := fs.map Fragment.piece

theorem texts_beneath (side : Side) (fs : List Fragment) :
    texts (fs.map (Fragment.beneath side)) = texts fs := by
  rw [texts, List.map_map]
  rfl

theorem texts_fragments_binary : texts (fragments (.binary o l r)) =
    texts (enclosed l (fragments l)) ++ (" " ++ o.symbol ++ " ") :: texts (enclosed r (fragments r)) := by
  rw [fragments, texts, List.map_append, List.map_cons]
  exact congrArg₂ (· ++ _ :: ·) (texts_beneath .left _) (texts_beneath .right _)

theorem texts_enclosed_binary (fs : List Fragment) :
    texts (enclosed (.binary o l r) fs) = "(" :: (texts fs ++ [")"]) := by
  show texts (⟨[], "("⟩ :: (fs ++ [⟨[], ")"⟩])) = _
  rw [texts, List.map_cons, List.map_append]
  rfl

/-- An operand comes to its pieces if its tree does. -/
theorem emits_operand (htree : ∀ {n ps pieces}, Emits n ps pieces →
      ∃ m, Emits m (.tree e :: ps) (texts (fragments e) ++ pieces))
    (h : Emits n ps pieces) :
    ∃ m, Emits m (operand e ++ ps) (texts (enclosed e (fragments e)) ++ pieces) := by
  cases e with
  | literal text => exact htree h
  | binary o l r =>
    obtain ⟨m, hm⟩ := htree (.text (s := ")") h)
    refine ⟨m + 1, ?_⟩
    rw [texts_enclosed_binary, List.cons_append, List.append_assoc]
    exact .text hm
  | foreign v => exact v.elim

/-- **The pieces of a pending tree** come first, whatever is pending after it. -/
theorem emits_tree (e : Expr) (h : Emits n ps pieces) :
    ∃ m, Emits m (.tree e :: ps) (texts (fragments e) ++ pieces) := by
  induction e generalizing n ps pieces with
  | literal text => exact ⟨n + 1, .literal h⟩
  | binary o l r hl hr =>
    obtain ⟨_, hright⟩ := emits_operand (fun h => hr h) h
    obtain ⟨m, hleft⟩ := emits_operand (fun h => hl h) (.text (s := " " ++ o.symbol ++ " ") hright)
    refine ⟨m + 1, ?_⟩
    rw [texts_fragments_binary, List.append_assoc, List.cons_append]
    exact .binary hleft
  | foreign v => exact v.elim

theorem Emits.le_totalWeight (h : Emits n ps pieces) : n ≤ totalWeight ps := by
  induction h with
  | finish => exact Nat.le_refl 0
  | text _ ih | literal _ ih =>
    simp only [totalWeight, Pending.weight, Tree.size]
    omega
  | @binary n o l r rest pieces _ ih =>
    have hl := totalWeight_operand l
    have hr := totalWeight_operand r
    simp only [totalWeight_append, totalWeight, Pending.weight] at ih
    simp only [totalWeight, Pending.weight, Tree.size]
    omega

/-! ### The pieces of a node -/

/-- The subtree that a way leads to. -/
def subtreeAt? : Expr → List Side → Option Expr
  | e, [] => some e
  | .binary _ l _, .left :: way => subtreeAt? l way
  | .binary _ _ r, .right :: way => subtreeAt? r way
  | _, _ :: _ => none

/-- What is printed for a node itself: a literal, or an operator with the parentheses around it, which the
root does not have. -/
def own (way : List Side) : Expr → List String
  | .literal text => [text]
  | .binary o _ _ =>
    if way = [] then [" " ++ o.symbol ++ " "] else ["(", " " ++ o.symbol ++ " ", ")"]
  | .foreign v => nomatch v

/-- The pieces that are printed for the node that a way leads to. -/
def piecesAt (way : List Side) (fs : List Fragment) : List String := texts (fs.filter (·.way = way))

theorem piecesAt_cons (way : List Side) (f : Fragment) (fs : List Fragment) :
    piecesAt way (f :: fs) = if f.way = way then f.piece :: piecesAt way fs else piecesAt way fs := by
  unfold piecesAt
  by_cases h : f.way = way <;> simp [h, texts]

theorem piecesAt_append (way : List Side) (fs gs : List Fragment) :
    piecesAt way (fs ++ gs) = piecesAt way fs ++ piecesAt way gs := by
  simp [piecesAt, texts]

theorem piecesAt_beneath (side : Side) (way : List Side) (fs : List Fragment) :
    piecesAt (side :: way) (fs.map (Fragment.beneath side)) = piecesAt way fs := by
  induction fs with
  | nil => rfl
  | cons f fs ih => simp [piecesAt_cons, ih, Fragment.beneath]

theorem piecesAt_beneath_of_ne (h : way.head? ≠ some side) (fs : List Fragment) :
    piecesAt way (fs.map (Fragment.beneath side)) = [] := by
  induction fs with
  | nil => rfl
  | cons f fs ih =>
    have hne : side :: f.way ≠ way := fun heq => h (heq ▸ rfl)
    simp [piecesAt_cons, ih, Fragment.beneath, hne]

/-- All nodes but the root have their parentheses. -/
theorem own_cons (side side' : Side) (way way' : List Side) : own (side :: way) = own (side' :: way') := by
  funext e
  cases e with
  | literal text => rfl
  | binary o l r => rfl
  | foreign v => exact v.elim

/-- The parentheses of an operand are those that its root lacks as a tree of its own. -/
theorem piecesAt_enclosed
    (htree : ∀ way, piecesAt way (fragments e) = ((subtreeAt? e way).map (own way)).getD [])
    (side : Side) (way : List Side) :
    piecesAt way (enclosed e (fragments e)) = ((subtreeAt? e way).map (own (side :: way))).getD [] := by
  cases e with
  | literal text =>
    cases way with
    | nil => rfl
    | cons side' way => exact htree (side' :: way)
  | binary o l r =>
    show piecesAt way (⟨[], "("⟩ :: (fragments (.binary o l r) ++ [⟨[], ")"⟩])) = _
    rw [piecesAt_cons, piecesAt_append, piecesAt_cons, htree]
    cases way with
    | nil => rfl
    | cons side' way =>
      rw [own_cons side side' (side' :: way) way]
      exact List.append_nil _
  | foreign v => exact v.elim

/-- **The pieces of each node** are its own, each of them once, and no piece is printed for no node. -/
theorem piecesAt_fragments (e : Expr) (way : List Side) :
    piecesAt way (fragments e) = ((subtreeAt? e way).map (own way)).getD [] := by
  induction e generalizing way with
  | literal text =>
    cases way with
    | nil => rfl
    | cons side way =>
      rw [fragments, piecesAt_cons, if_neg (List.cons_ne_nil side way).symm]
      cases side <;> rfl
  | binary o l r hl hr =>
    rw [fragments, piecesAt_append, piecesAt_cons]
    cases way with
    | nil =>
      rw [piecesAt_beneath_of_ne (by simp), piecesAt_beneath_of_ne (by simp)]
      rfl
    | cons side way =>
      rw [if_neg (List.cons_ne_nil side way).symm]
      cases side with
      | left =>
        rw [piecesAt_beneath, piecesAt_beneath_of_ne (by simp), List.append_nil]
        exact piecesAt_enclosed hl .left way
      | right =>
        rw [piecesAt_beneath, piecesAt_beneath_of_ne (by simp), List.nil_append]
        exact piecesAt_enclosed hr .right way
  | foreign v => exact v.elim

/-- **The canonical text of a tree** is what the recursion writes: literals as they are, operands in parentheses
unless they are literals, the root bare.  The printer ends, in one way only and after no more turns than six for
each node; the pieces that it appends are those of the recursion, in order, and each node of the tree has its
own among them, once. -/
theorem print_in_order (e : Expr) :
    e.print = e.written ∧
    (∃ n, n ≤ 6 * e.size ∧ Emits n [.tree e] (texts (fragments e))) ∧
    (∀ n pieces, Emits n [.tree e] pieces → pieces = texts (fragments e) ∧ e.print = String.join pieces) ∧
    ∀ way, piecesAt way (fragments e) = ((subtreeAt? e way).map (own way)).getD [] := by
  obtain ⟨m, hm⟩ := emits_tree e .finish
  rw [List.append_nil] at hm
  refine ⟨print_eq_written e, ⟨m, hm.le_totalWeight, hm⟩, fun n pieces h => ?_, piecesAt_fragments e⟩
  obtain ⟨-, rfl⟩ := h.unique hm
  exact ⟨rfl, (h.emit_eq "").trans String.empty_append⟩

example : texts (fragments (.binary .mul (.binary .add (.literal "1") (.literal "2")) (.literal "3"))) =
    ["(", "1", " + ", "2", ")", " * ", "3"] := rfl

end IntExpr.Expr
