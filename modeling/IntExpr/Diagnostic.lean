import IntExpr.Config.Settings
import IntExpr.Evaluation
import IntExpr.Expr.Parser
import IntExpr.Location

/-!
# Diagnostic — errors and debug records

A diagnostic has a kind, a message, and where it is known the place in the text, the offset of that
place, and what the error was made of. The kinds form a tree under `general`.

A debug record is one line on what was configured, which character was passed over, or why a parse
failed.
-/

namespace IntExpr

/-! ### Errors -/

inductive ErrorKind where
  | general
  | lexical
  | syntactic
  | configuration
  | evaluation
  /-- A lexical error in an expression text. -/
  | token
  | expression
  deriving DecidableEq, Repr

namespace ErrorKind

/-- A kind and all that it is a special case of, itself first. -/
def lineage : ErrorKind → List ErrorKind
  | .general => [.general]
  | .token => [.token, .lexical, .general]
  | .expression => [.expression, .syntactic, .general]
  | k => [k, .general]

end ErrorKind

inductive Cause where
  /-- A lexical error in an expression text. -/
  | token
  /-- The error of the machine that a recursion is too deep for. -/
  | recursion
  deriving DecidableEq, Repr

structure Diagnostic where
  kind : ErrorKind
  message : String
  context : Option Location := none
  /-- The offset of the place; errors of a text have one even where the text is not known. -/
  pos : Option Int := none
  cause : Option Cause := none
  deriving DecidableEq, Repr

namespace Diagnostic

/-- The whole text of a diagnostic: the place, if it is known, above the message. -/
def text (d : Diagnostic) : String :=
  match d.context with
  | none => d.message
  | some l => l.render ++ "\n" ++ d.message

def atOffset (kind : ErrorKind) (message : String) (pos : Int) (source : Option String) :
    Diagnostic :=
  { kind, message, context := source.map (Location.ofOffset · pos), pos := some pos }

end Diagnostic

def Located.diagnostic (source : String) (c : Located) : Diagnostic :=
  .atOffset .token c.rejection c.pos (some source)

namespace ParseError

def kind : ParseError → ErrorKind
  | .escaped _ => .token
  | _ => .expression

def cause : ParseError → Option Cause
  | .rejected _ => some .token
  | .tooDeep _ => some .recursion
  | _ => none

def diagnostic (source : String) (e : ParseError) : Diagnostic :=
  { Diagnostic.atOffset e.kind e.message e.pos (some source) with cause := e.cause }

end ParseError

/-- The report of a value that stands where a node should be. -/
def RawValue.diagnostic (v : RawValue) : Diagnostic :=
  { kind := .evaluation, message := s!"Unknown expression type: {v.typeName}" }

/-! ### Records -/

inductive Record where
  | configured (c : Config)
  | skipped (c : Located)
  | parseFailed (source : String) (e : ParseError)
  deriving DecidableEq, Repr

def Config.render (c : Config) : String :=
  s!"ArithConfig(unknown_characters='{c.unknownCharacters.word}', " ++
    s!"exponent_associativity='{c.associativity.word}', int_bits={c.intBits})"

namespace Record

def render : Record → String
  | .configured c => s!"DEBUG arithtree.core.config: Loaded config: {c.render}"
  | .skipped c =>
    "DEBUG arithtree.core.expression_lang.tokenizer: " ++
      s!"Skipping unrecognised character {Text.quote (String.singleton c.char)} at {c.pos}"
  | .parseFailed source e =>
    "DEBUG arithtree.core.expression_lang.parser: " ++
      s!"Parse failed for {Text.quote source}: {e.message}"

end Record

/-- The records of a parse, in the order in which they arise. -/
def parseRecords (limit : Nat) (c : Config) (source : String) : List Record :=
  (parseSkips limit c source).map .skipped ++
    match parse limit c source with
    | .ok _ | .error (.escaped _) => []
    | .error e => [.parseFailed source e]

/-- The records of listing the tokens of a text. -/
def tokenRecords (c : Config) (source : String) : List Record :=
  (TokenStream.ofSource c.unknownCharacters source).drain.2.passed.map .skipped

end IntExpr
