import IntExpr.Operator
import IntExpr.Text.Quoted

/-!
# Token — the symbols of an expression text

A symbol is what the grammar sees; a token is a symbol with the offset at which it starts. The last
token of a text is `finish`, which stands for no character.
-/

namespace IntExpr

/-- A symbol of the expression language. -/
inductive Symbol where
  /-- A run of digits, kept as it was written. -/
  | number (digits : String)
  | op (o : BinOp)
  | leftParen
  | rightParen
  | newline
  | finish
  deriving DecidableEq, Repr

inductive TokenKind where
  | op (level : Level)
  | number
  | leftParen
  | rightParen
  | newline
  | finish
  deriving DecidableEq, Repr

namespace TokenKind

def all : List TokenKind :=
  [.op .sum, .op .product, .op .power, .number, .leftParen, .rightParen, .newline, .finish]

def name : TokenKind → String
  | .op .sum => "ADD_OP"
  | .op .product => "MULT_OP"
  | .op .power => "EXP_OP"
  | .number => "NUMBER"
  | .leftParen => "LPAREN"
  | .rightParen => "RPAREN"
  | .newline => "EOL"
  | .finish => "EOF"

def ofName? (s : String) : Option TokenKind := all.find? (·.name = s)

/-- A kind, a lexeme and an offset as one text. -/
def render (k : TokenKind) (lexeme : String) (pos : Int) : String :=
  s!"Token({k.name.toLower}, {Text.quote lexeme}, pos={pos})"

@[simp] theorem ofName?_name (k : TokenKind) : ofName? k.name = some k := by
  rcases k with (_ | _ | _) | _ | _ | _ | _ | _ <;> decide

end TokenKind

namespace Symbol

def kind : Symbol → TokenKind
  | .number _ => .number
  | .op o => .op o.level
  | .leftParen => .leftParen
  | .rightParen => .rightParen
  | .newline => .newline
  | .finish => .finish

/-- The characters of the text that a symbol stands for. -/
def lexeme : Symbol → String
  | .number digits => digits
  | .op o => o.symbol
  | .leftParen => "("
  | .rightParen => ")"
  | .newline => "\n"
  | .finish => ""

/-- How a message speaks of a symbol. -/
def describe (s : Symbol) : String :=
  match s with
  | .finish => "end of input"
  | .newline => "end of line"
  | _ => s!"{s.kind.name} ({Text.quote s.lexeme})"

/-- Kind and lexeme together tell symbols apart. -/
theorem kind_lexeme_inj {s t : Symbol} : s.kind = t.kind ∧ s.lexeme = t.lexeme ↔ s = t := by
  refine ⟨fun ⟨hk, hl⟩ => ?_, fun h => by simp [h]⟩
  cases s <;> cases t <;> simp_all [kind, lexeme, BinOp.symbol_inj]

end Symbol

/-- A symbol and the offset at which it starts. -/
structure Token where
  symbol : Symbol
  pos : Nat
  deriving DecidableEq, Repr

namespace Token

def kind (t : Token) : TokenKind := t.symbol.kind

def lexeme (t : Token) : String := t.symbol.lexeme

def render (t : Token) : String := t.kind.render t.lexeme t.pos

end Token

end IntExpr
