/-!
# Operator — the six binary operators and their precedence

Operators bind at three levels. A level is what a token of an operator is called by; which operator
of the level it is, its symbol tells.
-/

namespace IntExpr

/-- The precedence levels, the loosest first. -/
inductive Level where
  | sum
  | product
  | power
  deriving DecidableEq, Repr

inductive BinOp where
  | add
  | sub
  | mul
  | div
  | mod
  | pow
  deriving DecidableEq, Repr

namespace BinOp

/-- Every operator, in the order in which they are listed to a reader. -/
def all : List BinOp := [.add, .sub, .mul, .div, .mod, .pow]

/-- The level at which an operator binds. -/
def level : BinOp → Level
  | .add | .sub => .sum
  | .mul | .div | .mod => .product
  | .pow => .power

def char : BinOp → Char
  | .add => '+'
  | .sub => '-'
  | .mul => '*'
  | .div => '/'
  | .mod => '%'
  | .pow => '^'

def symbol (o : BinOp) : String := String.singleton o.char

def ofChar? (c : Char) : Option BinOp := all.find? (·.char = c)

/-- The operator that a text stands for. -/
def ofSymbol? (s : String) : Option BinOp := all.find? (·.symbol = s)

/-! ### Symbols tell operators apart -/

theorem symbol_inj {o p : BinOp} : o.symbol = p.symbol ↔ o = p := by cases o <;> cases p <;> decide

@[simp] theorem ofSymbol?_symbol (o : BinOp) : ofSymbol? o.symbol = some o := by cases o <;> decide

@[simp] theorem toList_symbol (o : BinOp) : o.symbol.toList = [o.char] := by cases o <;> rfl

theorem eq_char_of_ofChar? {c : Char} {o : BinOp} (h : ofChar? c = some o) : c = o.char := by
  simpa [eq_comm] using List.find?_some h

end BinOp

end IntExpr
