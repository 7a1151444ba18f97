import IntExpr.Decimal
import IntExpr.Expr.Dot

/-!
# DotReading — a tree from its drawing

**The DOT text of a tree determines the tree** (`dot_determines_tree`), whatever its literals hold:
`ofDot?` reads every tree back.  First `marks` goes over the text and keeps the labels, with their quoting
undone, and the arrows.  Then `attach` takes in the marks one by one, with the nodes on a stack that are not
yet joined to a parent.  The numbers of the nodes are not read: an edge follows the whole subtree it leads
to, so it joins the last node to the one before.

* `marks_nodeLine`, `marks_edgeLine`: a line of a drawing is one mark, and what follows the line is read
  as if the line were not there.
* `attach_treeMarks`: the marks of a subtree put its root on the stack.
-/

namespace IntExpr.Expr

/-! ### The marks of a drawing -/

/-- What counts in a drawing: a node with its label, or an edge. -/
inductive Mark where
  | node (label : String)
  | edge

/-- Where a reader of a drawing stands; the characters read of a label have the last one first. -/
inductive Reader where
  | outside
  | label (read : List Char)
  | escaped (read : List Char)

/-- The marks in the rest of a drawing.  Outside of a label only a quote and the head of an arrow count. -/
def marks : Reader → List Char → List Mark
  | _, [] => []
  | .outside, c :: cs =>
    if c = '"' then marks (.label []) cs
    else if c = '>' then .edge :: marks .outside cs
    else marks .outside cs
  | .label read, c :: cs =>
    if c = '\\' then marks (.escaped read) cs
    else if c = '"' then .node (String.ofList read.reverse) :: marks .outside cs
    else marks (.label (c :: read)) cs
  | .escaped read, c :: cs => marks (.label (c :: read)) cs

variable {cs : List Char}

/-- Text without a quote or an arrow's head. -/
def IsPlain (cs : List Char) : Prop := ∀ c ∈ cs, c ≠ '"' ∧ c ≠ '>'

instance (cs : List Char) : Decidable (IsPlain cs) := List.decidableBAll _ cs

theorem IsPlain.append {ds : List Char} (hc : IsPlain cs) (hd : IsPlain ds) : IsPlain (cs ++ ds) := by
  intro c h
  rcases List.mem_append.mp h with h | h
  · exact hc c h
  · exact hd c h

theorem isPlain_toDigits (k : Nat) : IsPlain (Nat.toDigits 10 k) := by
  intro c h
  have hdigit : c.isDigit = true := (Decimal.isNumeral_toDigits k).2 c h
  constructor
  · rintro rfl
    exact absurd hdigit (by decide)
  · rintro rfl
    exact absurd hdigit (by decide)

theorem marks_of_isPlain (h : IsPlain cs) (after : List Char) :
    marks .outside (cs ++ after) = marks .outside after := by
  induction cs with
  | nil => rfl
  | cons c cs ih =>
    obtain ⟨hquote, hhead⟩ := h c List.mem_cons_self
    rw [List.cons_append, marks, if_neg hquote, if_neg hhead]
    exact ih fun d hd => h d (List.mem_cons_of_mem c hd)

/-- What is read of an escaped character is the character. -/
theorem marks_escapeLabelChar (c : Char) (read after : List Char) :
    marks (.label read) (escapeLabelChar c ++ after) = marks (.label (c :: read)) after := by
  by_cases h : c = '\\' ∨ c = '"'
  · rw [escapeLabelChar, if_pos h]
    show marks (.label read) ('\\' :: c :: after) = _
    rw [marks, if_pos rfl, marks]
  · obtain ⟨hback, hquote⟩ := not_or.mp h
    rw [escapeLabelChar, if_neg h]
    show marks (.label read) (c :: after) = _
    rw [marks, if_neg hback, if_neg hquote]

theorem marks_escaped (label read after : List Char) :
    marks (.label read) (label.flatMap escapeLabelChar ++ after) =
      marks (.label (label.reverse ++ read)) after := by
  induction label generalizing read with
  | nil => rfl
  | cons c label ih =>
    rw [List.flatMap_cons, List.append_assoc, marks_escapeLabelChar, ih, List.reverse_cons,
      List.append_assoc, List.singleton_append]

/-- A label ends at the quote that was put after it, and at no quote of its own. -/
theorem marks_quoted (label : String) (after : List Char) :
    marks .outside ('"' :: (label.toList.flatMap escapeLabelChar ++ '"' :: after)) =
      .node label :: marks .outside after := by
  rw [marks, if_pos rfl, marks_escaped, List.append_nil, marks, if_neg (by decide), if_pos rfl,
    List.reverse_reverse, String.ofList_toList]

theorem marks_nodeLine (k : Nat) (label : String) (after : List Char) :
    marks .outside ((nodeLine k label).toList ++ after) = .node label :: marks .outside after := by
  have hline : (nodeLine k label).toList = (['n'] ++ Nat.toDigits 10 k ++ " [label=".toList) ++
      '"' :: (label.toList.flatMap escapeLabelChar ++ '"' :: "];\n".toList) := by
    simp [nodeLine, escapeLabel, toString]
  have hfront : IsPlain (['n'] ++ Nat.toDigits 10 k ++ " [label=".toList) :=
    IsPlain.append (IsPlain.append (by decide) (isPlain_toDigits k)) (by decide)
  have hback : IsPlain "];\n".toList := by decide
  rw [hline, List.append_assoc, marks_of_isPlain hfront, List.cons_append, List.append_assoc,
    List.cons_append, marks_quoted, marks_of_isPlain hback]

theorem marks_edgeLine (p k : Nat) (after : List Char) :
    marks .outside ((edgeLine p k).toList ++ after) = .edge :: marks .outside after := by
  have hline : (edgeLine p k).toList = (['n'] ++ Nat.toDigits 10 p ++ " -".toList) ++
      '>' :: (" n".toList ++ Nat.toDigits 10 k ++ ";\n".toList) := by
    simp [edgeLine, toString]
  have hfront : IsPlain (['n'] ++ Nat.toDigits 10 p ++ " -".toList) :=
    IsPlain.append (IsPlain.append (by decide) (isPlain_toDigits p)) (by decide)
  have hback : IsPlain (" n".toList ++ Nat.toDigits 10 k ++ ";\n".toList) :=
    IsPlain.append (IsPlain.append (by decide) (isPlain_toDigits k)) (by decide)
  rw [hline, List.append_assoc, marks_of_isPlain hfront, List.cons_append, marks, if_neg (by decide),
    if_pos rfl, marks_of_isPlain hback]

/-- The marks of a subtree: its root, and each operand with the edge that leads to it. -/
def treeMarks : Expr → List Mark
  | .literal text => [.node text]
  | .binary o l r => .node o.symbol :: (treeMarks l ++ .edge :: (treeMarks r ++ [.edge]))
  | .foreign v => nomatch v

theorem marks_drawn (e : Expr) (k : Nat) (after : List Char) :
    marks .outside ((drawn k e).toList ++ after) = treeMarks e ++ marks .outside after := by
  induction e generalizing k after with
  | literal text => exact marks_nodeLine k text after
  | binary o l r hl hr =>
    simp only [drawn, treeMarks, String.toList_append, List.append_assoc, List.cons_append,
      List.nil_append, marks_nodeLine, marks_edgeLine, hl, hr]
  | foreign v => exact v.elim

theorem marks_dot (e : Expr) : marks .outside e.dot.toList = treeMarks e := by
  have hheader : IsPlain dotHeader.toList := by decide
  have hfooter : IsPlain dotFooter.toList := by decide
  have hend : marks .outside dotFooter.toList = [] := by
    have hmarks := marks_of_isPlain hfooter []
    rwa [List.append_nil] at hmarks
  rw [dot_eq, String.toList_append, String.toList_append, List.append_assoc, marks_of_isPlain hheader,
    marks_drawn, hend, List.append_nil]

/-! ### The tree of the marks -/

/-- A node that is not joined to its parent, with the operands that are joined to it. -/
structure OpenNode where
  label : String
  operands : List Expr

/-- The subtree of a node.  Only the operands tell an operator from a literal of the same label. -/
def OpenNode.close (node : OpenNode) : Option Expr :=
  match node.operands with
  | [] => some (.literal node.label)
  | [l, r] => (BinOp.ofSymbol? node.label).map fun o => .binary o l r
  | _ => none

/-- Take in a mark; the stack has the last node first. -/
def attach : List OpenNode → Mark → Option (List OpenNode)
  | stack, .node label => some (⟨label, []⟩ :: stack)
  | last :: parent :: stack, .edge =>
    last.close.map fun e => ⟨parent.label, parent.operands ++ [e]⟩ :: stack
  | _, .edge => none

/-- The tree of a stack that holds its root alone. -/
def rootOf : List OpenNode → Option Expr
  | [root] => root.close
  | _ => none

/-- The tree that a DOT text draws. -/
def ofDot? (text : String) : Option Expr := ((marks .outside text.toList).foldlM attach []).bind rootOf

/-- The root of a subtree, with its operands joined to it. -/
def opened : Expr → OpenNode
  | .literal text => ⟨text, []⟩
  | .binary o l r => ⟨o.symbol, [l, r]⟩
  | .foreign v => nomatch v

theorem close_opened (e : Expr) : (opened e).close = some e := by
  cases e with
  | literal text => rfl
  | binary o l r =>
    show (BinOp.ofSymbol? o.symbol).map _ = _
    rw [BinOp.ofSymbol?_symbol]
    rfl
  | foreign v => exact v.elim

theorem attach_edge (e : Expr) (parent : OpenNode) (stack : List OpenNode) :
    attach (opened e :: parent :: stack) .edge =
      some (⟨parent.label, parent.operands ++ [e]⟩ :: stack) := by
  rw [attach, close_opened]
  rfl

/-- The marks of a subtree put its root on the stack, and leave alone what was there. -/
theorem attach_treeMarks (e : Expr) (after : List Mark) (stack : List OpenNode) :
    (treeMarks e ++ after).foldlM attach stack = after.foldlM attach (opened e :: stack) := by
  induction e generalizing after stack with
  | literal text => rfl
  | binary o l r hl hr =>
    have hroot : (treeMarks (.binary o l r) ++ after).foldlM attach stack =
        (treeMarks l ++ .edge :: (treeMarks r ++ .edge :: after)).foldlM attach
          (⟨o.symbol, []⟩ :: stack) := by
      simp only [treeMarks, List.cons_append, List.append_assoc, List.nil_append]
      rfl
    rw [hroot, hl, List.foldlM_cons, attach_edge]
    show (treeMarks r ++ .edge :: after).foldlM attach (⟨o.symbol, [l]⟩ :: stack) = _
    rw [hr, List.foldlM_cons, attach_edge]
    rfl
  | foreign v => exact v.elim

theorem ofDot?_dot (e : Expr) : ofDot? e.dot = some e := by
  have hstack : (treeMarks e).foldlM attach [] = some [opened e] := by
    have hmarks := attach_treeMarks e [] []
    rwa [List.append_nil] at hmarks
  rw [ofDot?, marks_dot, hstack]
  exact close_opened e

/-- **A drawing determines its tree.**  Every tree is read back from its DOT text, so two trees with one DOT
text are one tree.  A label of whatever text, in whatever context, is read as a label and as a whole: the
line of a node is one mark with this label, and reading goes on after the line as if it were not there. -/
theorem dot_determines_tree :
    (∀ e : Expr, ofDot? e.dot = some e) ∧
    (∀ e₁ e₂ : Expr, e₁.dot = e₂.dot → e₁ = e₂) ∧
    ∀ (k : Nat) (label : String) (after : List Char),
      marks .outside ((nodeLine k label).toList ++ after) = .node label :: marks .outside after := by
  refine ⟨ofDot?_dot, ?_, marks_nodeLine⟩
  intro e₁ e₂ h
  have hsome : some e₁ = some e₂ := by rw [← ofDot?_dot e₁, h, ofDot?_dot]
  exact Option.some.inj hsome

end IntExpr.Expr
