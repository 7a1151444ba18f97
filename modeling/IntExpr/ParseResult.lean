import IntExpr.Diagnostic

/-!
# ParseResult — a parse that is kept with its text

`parse` as a value that can be asked later: for its tree, for its error, for the value of its tree.
A result may also be blank, when nothing has been parsed.
-/

namespace IntExpr

/-- The outcome of a parse, with the text and the settings that it was made with. -/
structure ParseResult where
  source : String
  config : Config := {}
  /-- `none` where nothing has been parsed. -/
  outcome : Option (Except ParseError Expr) := none

/-- Why a result does not give what it is asked for. -/
inductive ResultError where
  | failed (e : ParseError)
  | blank
  | fault (f : Fault Empty)
  deriving DecidableEq, Repr

namespace ParseResult

/-- The result of parsing a text. The error of a character that comes up in the place of the error for
the depth is no part of a result, and comes out as it is. -/
def ofSource (limit : Nat) (c : Config) (source : String) : Except Located ParseResult :=
  match parse limit c source with
  | .error (.escaped found) => .error found
  | outcome => .ok ⟨source, c, some outcome⟩

def tree? (r : ParseResult) : Option Expr :=
  match r.outcome with
  | some (.ok e) => some e
  | _ => none

def error? (r : ParseResult) : Option ParseError :=
  match r.outcome with
  | some (.error e) => some e
  | _ => none

def isOk (r : ParseResult) : Bool := r.error?.isNone

def unwrap (r : ParseResult) : Except ResultError Expr :=
  match r.outcome with
  | some (.ok e) => .ok e
  | some (.error e) => .error (.failed e)
  | none => .error .blank

/-- The value of the tree; a failed parse is never evaluated. -/
def value (r : ParseResult) : Except ResultError Value :=
  match r.unwrap with
  | .ok e => (e.evaluate r.config).mapError .fault
  | .error e => .error e

end ParseResult

def ParseResult.blankDiagnostic (source : String) : Diagnostic :=
  .atOffset .expression "Parse result holds no tree" 0 (some source)

end IntExpr
