import IntExpr.Config
import IntExpr.Token

/-!
# Lexer — from characters to tokens

`draw` goes on from some place in a text to the next token and no further. A digit run is taken as
long as it can be. Characters outside the alphabet are passed over and noted, or else the first of
them ends the text. Spaces, tabs, carriage returns and both quotes are passed without a word.
-/

namespace IntExpr

def isSeparator (c : Char) : Bool := c = ' ' || c = '\t' || c = '\r' || c = '"' || c = '\''

def Symbol.ofChar? (c : Char) : Option Symbol :=
  if c = '(' then some .leftParen
  else if c = ')' then some .rightParen
  else if c = '\n' then some .newline
  else (BinOp.ofChar? c).map .op

/-- The alphabet: separators, ASCII digits, and the characters that are symbols of their own. -/
def inAlphabet (c : Char) : Bool := isSeparator c || c.isDigit || (Symbol.ofChar? c).isSome

structure Located where
  char : Char
  pos : Nat
  deriving DecidableEq, Repr

def Located.rejection (c : Located) : String :=
  s!"Unexpected character: {Text.quote (String.singleton c.char)}"

/-- What is met on the way to the next token. -/
structure Draw where
  /-- The characters outside the alphabet that are passed over, in order. -/
  passed : List Located := []
  /-- The token, or a character that is not let past. -/
  found : Except Located Token
  /-- The offset from which to go on and the characters from there; `none` when nothing is to come. -/
  next : Option (Nat × List Char)
  deriving Repr

/-- Go on to the next token of the characters `cs`, the first of which stands at offset `i`. -/
def draw (policy : UnknownCharacters) (i : Nat) : List Char → Draw
  | [] => { found := .ok ⟨.finish, i⟩, next := none }
  | c :: cs =>
    if isSeparator c then draw policy (i + 1) cs
    else if c.isDigit then
      let more := cs.takeWhile Char.isDigit
      { found := .ok ⟨.number (String.ofList (c :: more)), i⟩
        next := some (i + 1 + more.length, cs.dropWhile Char.isDigit) }
    else match Symbol.ofChar? c with
      | some s => { found := .ok ⟨s, i⟩, next := some (i + 1, cs) }
      | none => match policy with
        | .skip =>
          let d := draw policy (i + 1) cs
          { d with passed := ⟨c, i⟩ :: d.passed }
        | .reject => { found := .error ⟨c, i⟩, next := none }

end IntExpr
