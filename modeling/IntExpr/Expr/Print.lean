import IntExpr.Expr

/-!
# Print — the canonical text of a tree

A literal is printed as it is, an operator between its operands with a space on either side, and
every operand that is no literal in parentheses. `print` works off a list of what is still to be
printed, so that a tree may be as deep as it likes; `written` says the same by recursion, and
`emit_eq` is the invariant that joins the two.
-/

namespace IntExpr.Expr

/-- What is still to be printed: a text, or a tree. -/
inductive Pending where
  | text (s : String)
  | tree (e : Expr)

def Pending.weight : Pending → Nat
  | .text _ => 1
  | .tree e => 6 * e.size

def totalWeight : List Pending → Nat
  | [] => 0
  | p :: ps => p.weight + totalWeight ps

theorem totalWeight_append (ps qs : List Pending) :
    totalWeight (ps ++ qs) = totalWeight ps + totalWeight qs := by
  induction ps with
  | nil => simp [totalWeight]
  | cons p ps ih => simp only [List.cons_append, totalWeight, ih]; omega

/-- An operand, in parentheses unless it is a literal. -/
def operand (e : Expr) : List Pending :=
  match e with
  | .literal _ => [.tree e]
  | _ => [.text "(", .tree e, .text ")"]

theorem totalWeight_operand (e : Expr) : totalWeight (operand e) ≤ 6 * e.size + 2 := by
  rcases e with _ | _ | v
  · simp [operand, totalWeight, Pending.weight]
  · simp only [operand, totalWeight, Pending.weight]; omega
  · exact v.elim

def emit (done : String) : List Pending → String
  | [] => done
  | .text s :: rest => emit (done ++ s) rest
  | .tree (.literal text) :: rest => emit (done ++ text) rest
  | .tree (.binary o l r) :: rest =>
    emit done (operand l ++ .text (" " ++ o.symbol ++ " ") :: (operand r ++ rest))
  | .tree (.foreign v) :: _ => nomatch v
termination_by pending => totalWeight pending
decreasing_by
  · simp [totalWeight, Pending.weight]
  · simp [totalWeight, Pending.weight, Tree.size]
  · have hl := totalWeight_operand l
    have hr := totalWeight_operand r
    simp only [totalWeight_append, totalWeight, Pending.weight, Tree.size]
    omega

/-- The canonical text of a tree. -/
def print (e : Expr) : String := emit "" [.tree e]

/-! ### The text by recursion -/

/-- A text, in parentheses unless it is that of a literal. -/
def wrap (e : Expr) (s : String) : String :=
  match e with
  | .literal _ => s
  | _ => "(" ++ s ++ ")"

def written : Expr → String
  | .literal text => text
  | .binary o l r => wrap l (written l) ++ " " ++ o.symbol ++ " " ++ wrap r (written r)
  | .foreign v => nomatch v

def Pending.written : Pending → String
  | .text s => s
  | .tree e => e.written

/-- What a list of pending items comes to. -/
def allWritten : List Pending → String
  | [] => ""
  | p :: ps => p.written ++ allWritten ps

theorem allWritten_append (ps qs : List Pending) :
    allWritten (ps ++ qs) = allWritten ps ++ allWritten qs := by
  induction ps with
  | nil => simp [allWritten]
  | cons p ps ih => simp [allWritten, ih, String.append_assoc]

theorem allWritten_operand (e : Expr) : allWritten (operand e) = wrap e e.written := by
  rcases e with _ | _ | v
  · simp [operand, allWritten, Pending.written, wrap]
  · simp [operand, allWritten, Pending.written, wrap, String.append_assoc]
  · exact v.elim

theorem emit_eq (done : String) (ps : List Pending) : emit done ps = done ++ allWritten ps := by
  fun_induction emit done ps with
  | case1 done => simp [allWritten]
  | case2 done s rest ih => simp [ih, allWritten, Pending.written, String.append_assoc]
  | case3 done text rest ih => simp [ih, allWritten, Pending.written, written, String.append_assoc]
  | case4 done o l r rest ih =>
    rw [ih]
    simp only [allWritten_append, allWritten_operand, allWritten, Pending.written, written,
      String.append_assoc]

end IntExpr.Expr
