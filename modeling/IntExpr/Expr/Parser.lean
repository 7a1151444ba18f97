import IntExpr.Expr
import IntExpr.Token.Stream

/-!
# Parser — from a text to its tree

The grammar, the loosest level first; each level is a chain of operands of the next one:

* a sum: products joined by `+` and `-`;
* a product: powers joined by `*`, `/` and `%`;
* a power: factors joined by `^`, grouped as the associativity says (`group`);
* a factor: any number of signs before a primary; each `-` makes the tree of `0 - x`;
* a primary: a number, or a sum in parentheses;
* a text: a sum, then newlines, then the end.

There is one procedure for each level, and it draws the tokens from a cursor one at a time. Chains
and sign runs are loops. Only parentheses nest, and `room` is how many of them may still be opened;
where it is used up depends on the machine that the program runs on, so that the limit is given from
outside. Every procedure returns the cursor with a proof that less is left of the text, and so none
needs a bound on its length.
-/

namespace IntExpr

/-! ### Chains -/

def groupLeft (first : Expr) (links : List (BinOp × Expr)) : Expr :=
  links.foldl (fun left link => .binary link.1 left link.2) first

def groupRight (first : Expr) : List (BinOp × Expr) → Expr
  | [] => first
  | (op, next) :: links => .binary op first (groupRight next links)

/-- The tree of a chain; only powers ever group from the right. -/
def group (a : Associativity) (level : Level) (first : Expr) (links : List (BinOp × Expr)) : Expr :=
  match level, a with
  | .power, .right => groupRight first links
  | _, _ => groupLeft first links

/-! ### Errors -/

/-- Why a text has no tree. -/
inductive ParseError where
  | operandExpected (found : Token)
  | closingExpected (openPos : Nat) (found : Token)
  | endExpected (found : Token)
  /-- A character that is not let past stands where the next token is wanted. -/
  | rejected (c : Located)
  /-- One parenthesis more than the limit was opened, in front of `found`. -/
  | tooDeep (found : Token)
  /-- One parenthesis more than the limit was opened, in front of a character that is not let past.
  That is met as the place of the error for the depth is looked up, and its own error comes out. -/
  | escaped (c : Located)
  deriving DecidableEq, Repr

namespace ParseError

def message : ParseError → String
  | .operandExpected t => s!"Expected a number, sign or '(', got {t.symbol.describe}"
  | .closingExpected p t =>
    s!"Unmatched '(' at column {p + 1}: expected ')', got {t.symbol.describe}"
  | .endExpected t => s!"Unexpected token after expression: {Text.quote t.lexeme}"
  | .rejected c | .escaped c => c.rejection
  | .tooDeep _ => "Expression is nested too deeply"

def pos : ParseError → Nat
  | .operandExpected t | .closingExpected _ t | .endExpected t | .tooDeep t => t.pos
  | .rejected c | .escaped c => c.pos

end ParseError

/-- Why a procedure of the grammar gives up. -/
inductive Stop where
  | error (e : ParseError)
  | rejected (c : Located)
  | noRoom
  deriving DecidableEq, Repr

/-! ### The procedures of the grammar -/

/-- A tree and the cursor behind it, which has less than `n` left. -/
structure Read (n : Nat) where
  expr : Expr
  stream : TokenStream
  shorter : stream.left < n

/-- A count of minus signs and the cursor behind them, which has no more than `n` left. -/
structure Signs (n : Nat) where
  minuses : Nat
  stream : TokenStream
  le : stream.left ≤ n

def readSigns (minuses : Nat) (s : TokenStream) : Except (Stop × TokenStream) (Signs s.left) :=
  match h : s.peek with
  | (.error c, s') => .error (.rejected c, s')
  | (.ok ⟨.op .sub, _⟩, s') =>
    match readSigns (minuses + 1) s'.advance.2 with
    | .error stop => .error stop
    | .ok p => .ok ⟨p.minuses, p.stream,
        Nat.le_trans p.le (Nat.le_of_lt (TokenStream.left_taken_lt h nofun))⟩
  | (.ok ⟨.op .add, _⟩, s') =>
    match readSigns minuses s'.advance.2 with
    | .error stop => .error stop
    | .ok p => .ok ⟨p.minuses, p.stream,
        Nat.le_trans p.le (Nat.le_of_lt (TokenStream.left_taken_lt h nofun))⟩
  | (.ok _, s') => .ok ⟨minuses, s', TokenStream.left_of_peek_le h⟩
termination_by s.left
decreasing_by all_goals exact TokenStream.left_taken_lt h nofun

def readClosing {n : Nat} (openPos : Nat) (inner : Expr) (s : TokenStream) (shorter : s.left < n) :
    Except (Stop × TokenStream) (Read n) :=
  match h : s.peek with
  | (.error c, s') => .error (.rejected c, s')
  | (.ok ⟨.rightParen, _⟩, s') =>
    .ok ⟨inner, s'.advance.2, Nat.lt_trans (TokenStream.left_taken_lt h nofun) shorter⟩
  | (.ok t, s') => .error (.error (.closingExpected openPos t), s')

def Level.rank : Level → Nat
  | .sum => 3
  | .product => 2
  | .power => 1

mutual

/-- A chain of a level; `room` is the number of parentheses that may still be opened. -/
def readChain (a : Associativity) (level : Level) (room : Nat) (s : TokenStream) :
    Except (Stop × TokenStream) (Read s.left) :=
  match readOperand a level room s with
  | .error stop => .error stop
  | .ok p => readLinks a level room p.expr [] p.stream p.shorter
termination_by (s.left, 2 * level.rank + 1)
decreasing_by
  · exact Prod.Lex.right _ (Nat.lt_succ_self _)
  · exact Prod.Lex.left _ _ p.shorter

/-- The rest of a chain, of which the first operand and, in reverse, some links are found. -/
def readLinks {n : Nat} (a : Associativity) (level : Level) (room : Nat) (first : Expr)
    (found : List (BinOp × Expr)) (s : TokenStream) (shorter : s.left < n) :
    Except (Stop × TokenStream) (Read n) :=
  match h : s.peek with
  | (.error c, s') => .error (.rejected c, s')
  | (.ok ⟨.op op, _⟩, s') =>
    if op.level = level then
      match readOperand a level room s'.advance.2 with
      | .error stop => .error stop
      | .ok p => readLinks a level room first ((op, p.expr) :: found) p.stream
          (Nat.lt_trans p.shorter (Nat.lt_trans (TokenStream.left_taken_lt h nofun) shorter))
    else .ok ⟨group a level first found.reverse, s',
      Nat.lt_of_le_of_lt (TokenStream.left_of_peek_le h) shorter⟩
  | (.ok _, s') => .ok ⟨group a level first found.reverse, s',
      Nat.lt_of_le_of_lt (TokenStream.left_of_peek_le h) shorter⟩
termination_by (s.left, 0)
decreasing_by
  · exact Prod.Lex.left _ _ (TokenStream.left_taken_lt h nofun)
  · exact Prod.Lex.left _ _ (Nat.lt_trans p.shorter (TokenStream.left_taken_lt h nofun))

def readOperand (a : Associativity) (level : Level) (room : Nat) (s : TokenStream) :
    Except (Stop × TokenStream) (Read s.left) :=
  match level with
  | .sum => readChain a .product room s
  | .product => readChain a .power room s
  | .power => readFactor a room s
termination_by (s.left, 2 * level.rank)
decreasing_by all_goals exact Prod.Lex.right _ (by decide)

def readFactor (a : Associativity) (room : Nat) (s : TokenStream) :
    Except (Stop × TokenStream) (Read s.left) :=
  match readSigns 0 s with
  | .error stop => .error stop
  | .ok q =>
    match readPrimary a room q.stream with
    | .error stop => .error stop
    | .ok p => .ok ⟨.negateTimes q.minuses p.expr, p.stream, Nat.lt_of_lt_of_le p.shorter q.le⟩
termination_by (s.left, 1)
decreasing_by
  rcases Nat.lt_or_eq_of_le q.le with h | h
  · exact Prod.Lex.left _ _ h
  · rw [h]; exact Prod.Lex.right _ Nat.zero_lt_one

/-- A number, or a sum in parentheses. -/
def readPrimary (a : Associativity) (room : Nat) (s : TokenStream) :
    Except (Stop × TokenStream) (Read s.left) :=
  match h : s.peek with
  | (.error c, s') => .error (.rejected c, s')
  | (.ok ⟨.number digits, _⟩, s') =>
    .ok ⟨.literal digits, s'.advance.2, TokenStream.left_taken_lt h nofun⟩
  | (.ok ⟨.leftParen, pos⟩, s') =>
    match room with
    | 0 => .error (.noRoom, s'.advance.2)
    | room + 1 =>
      match readChain a .sum room s'.advance.2 with
      | .error stop => .error stop
      | .ok p => readClosing pos p.expr p.stream
          (Nat.lt_trans p.shorter (TokenStream.left_taken_lt h nofun))
  | (.ok t, s') => .error (.error (.operandExpected t), s')
termination_by (s.left, 0)
decreasing_by exact Prod.Lex.left _ _ (TokenStream.left_taken_lt h nofun)

end

def readEnd (s : TokenStream) : Except (Stop × TokenStream) TokenStream :=
  match _h : s.peek with
  | (.error c, s') => .error (.rejected c, s')
  | (.ok ⟨.newline, _⟩, s') => readEnd s'.advance.2
  | (.ok ⟨.finish, _⟩, s') => .ok s'
  | (.ok t, s') => .error (.error (.endExpected t), s')
termination_by s.left
decreasing_by exact TokenStream.left_taken_lt _h nofun

def readText (limit : Nat) (a : Associativity) (s : TokenStream) :
    Except (Stop × TokenStream) (Expr × TokenStream) :=
  match readChain a .sum limit s with
  | .error stop => .error stop
  | .ok p =>
    match readEnd p.stream with
    | .error stop => .error stop
    | .ok s' => .ok (p.expr, s')

/-! ### Texts -/

/-- The error of a text that was given up. For one that is nested too deeply the next token is drawn,
and it is where the error points. -/
def Stop.resolve (s : TokenStream) : Stop → ParseError × TokenStream
  | .error e => (e, s)
  | .rejected c => (.rejected c, s)
  | .noRoom =>
    match s.peek with
    | (.ok t, s') => (.tooDeep t, s')
    | (.error c, s') => (.escaped c, s')

/-- The outcome of a parse of what is in front of a cursor, and the cursor after it. -/
def parseStream (limit : Nat) (a : Associativity) (s : TokenStream) :
    Except ParseError Expr × TokenStream :=
  match readText limit a s with
  | .ok (e, s') => (.ok e, s')
  | .error (stop, s') => ((.error (stop.resolve s').1), (stop.resolve s').2)

/-- The tree of a text, of which no more than `limit` parentheses may be open at once. -/
def parse (limit : Nat) (c : Config) (source : String) : Except ParseError Expr :=
  (parseStream limit c.associativity (.ofSource c.unknownCharacters source)).1

/-- The characters that a parse passes over before it succeeds or stops, in order. -/
def parseSkips (limit : Nat) (c : Config) (source : String) : List Located :=
  (parseStream limit c.associativity (.ofSource c.unknownCharacters source)).2.passed

end IntExpr
