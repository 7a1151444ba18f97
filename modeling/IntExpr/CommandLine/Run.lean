import IntExpr.CommandLine.Command
import IntExpr.Config.Settings
import IntExpr.Diagnostic
import IntExpr.Expr.Dot
import IntExpr.Expr.Print
import IntExpr.Release

/-!
# Run — what a command does

`run` maps a command line and its surroundings to an `Outcome`: how it ended, what it printed and
wrote, and what it put on record. Nothing is printed or written before the configuration is loaded
and the expression is parsed.
-/

namespace IntExpr

/-! ### Paths -/

structure OutputPath where
  root : String
  parts : List String
  deriving DecidableEq, Repr

namespace OutputPath

/-- The root of a path; exactly two slashes in front are kept. -/
def rootOf (path : String) : String :=
  match (path.toList.takeWhile (· = '/')).length with
  | 0 => ""
  | 2 => "//"
  | _ => "/"

def ofString (path : String) : OutputPath :=
  ⟨rootOf path, ((path.toList.splitOn '/').map String.ofList).filter fun part =>
    part ≠ "" && part ≠ "."⟩

def toString (p : OutputPath) : String :=
  let text := p.root ++ "/".intercalate p.parts
  if text = "" then "." else text

def directory (p : OutputPath) : OutputPath := { p with parts := p.parts.dropLast }

def isDirectory (p : OutputPath) : Bool := p.parts.isEmpty || p.parts.getLast? = some ".."

end OutputPath

namespace CommandLine

/-! ### What a run needs and leaves -/

/-- What a run depends on besides its arguments. -/
structure Surroundings where
  environment : List (String × String) := []
  /-- How many parentheses may be open at once; it depends on what the machine has room for. -/
  nesting : Nat := 195
  /-- A directory with this path exists. -/
  hasDirectory : OutputPath → Bool := fun p => p.root = "" && p.parts.isEmpty

/-- A failure that no command answers for. -/
inductive Crash where
  | limit (e : Decimal.LimitError)
  /-- A character that is not let past came up in the place of the error for the depth. -/
  | rejected (c : Located)
  /-- The file is to be written into a directory that does not exist. -/
  | missingDirectory (path : OutputPath)
  | isDirectory (path : OutputPath)
  deriving DecidableEq, Repr

inductive Ending where
  | done
  | usage (e : UsageError)
  | badConfig (details : List Detail)
  | parseFailed (source : String) (e : ParseError)
  | tokensFailed (source : String) (c : Located)
  | crashed (c : Crash)
  deriving DecidableEq, Repr

structure Outcome where
  ending : Ending := .done
  stdout : String := ""
  /-- The debug records that were asked for. -/
  records : List Record := []
  files : List (String × String) := []
  deriving DecidableEq, Repr

namespace Ending

def exitCode : Ending → Nat
  | .done => 0
  | .usage _ | .badConfig _ => 2
  | .parseFailed _ _ | .tokensFailed _ _ | .crashed _ => 1

def message : Ending → String
  | .done | .crashed _ => ""
  | .usage e => s!"Error: {e.message}\n"
  | .badConfig details =>
    "Error: Invalid configuration" ++
      String.join (details.map fun d => s!"\n  {d.name}: {d.problem.message}") ++ "\n"
  | .parseFailed source e => Text.onScreen s!"Parse error: {(e.diagnostic source).text}\n"
  | .tokensFailed source c => Text.onScreen s!"Token error: {(c.diagnostic source).text}\n"

end Ending

namespace Outcome

/-- What a run writes to its error channel: a line per record, and why it did not succeed. -/
def stderr (o : Outcome) : String :=
  String.join (o.records.map fun r => r.render ++ "\n") ++ o.ending.message

/-- An outcome with records that come before its own, if they are asked for. -/
def record (verbose : Bool) (rs : List Record) (o : Outcome) : Outcome :=
  if verbose then { o with records := rs ++ o.records } else o

end Outcome

/-! ### The commands -/

def flagSettings (strict rightAssoc : Bool) : RawSettings :=
  [(Setting.unknownCharacters.name,
      if strict then .text UnknownCharacters.reject.word else .null),
    (Setting.associativity.name, if rightAssoc then .text Associativity.right.word else .null)]

/-- Load the configuration of a command and go on with it. -/
def withConfig (s : Surroundings) (verbose strict rightAssoc : Bool) (next : Config → Outcome) :
    Outcome :=
  match load s.environment (flagSettings strict rightAssoc) with
  | .error (.invalid details) => { ending := .badConfig details }
  | .error (.limit e) => { ending := .crashed (.limit e) }
  | .ok c => (next c).record verbose [.configured c]

/-- Parse the expression of a command and go on with its tree. -/
def withTree (s : Surroundings) (c : Config) (verbose : Bool) (expression : String)
    (next : Expr → Outcome) : Outcome :=
  Outcome.record verbose (parseRecords s.nesting c expression) <|
    match parse s.nesting c expression with
    | .error (.escaped found) => { ending := .crashed (.rejected found) }
    | .error e => { ending := .parseFailed expression e }
    | .ok t => next t

def expressionLine (t : Expr) : String := s!"Reconstituted expression: \"{t.print}\"\n"

def runEvaluate (c : Config) (withGraph : Bool) (t : Expr) : Outcome :=
  match t.evaluate c with
  | .error (.limit e) => { ending := .crashed (.limit e), stdout := expressionLine t }
  | .error (.notANode v) => nomatch v
  | .ok v =>
    match v.text with
    | .error e => { ending := .crashed (.limit e), stdout := expressionLine t }
    | .ok text =>
      { stdout := expressionLine t ++ s!"/* {text} */\n" ++ if withGraph then t.dot else "" }

/-- Print the graph of a tree, or write it to a file. -/
def runGraph (s : Surroundings) (output : Option String) (t : Expr) : Outcome :=
  match output with
  | none => { stdout := t.dot }
  | some path =>
    let p := OutputPath.ofString path
    if p.isDirectory then { ending := .crashed (.isDirectory p) }
    else if s.hasDirectory p.directory then
      { stdout := s!"Wrote graph to {p.toString}\n", files := [(p.toString, t.dot)] }
    else { ending := .crashed (.missingDirectory p) }

def tokenLine (t : Token) : String := s!"{t.kind.name} {Text.quote t.lexeme}\n"

def runTokens (c : Config) (verbose : Bool) (expression : String) : Outcome :=
  Outcome.record verbose (tokenRecords c expression) <|
    match tokenize c.unknownCharacters expression with
    | .error e => { ending := .tokensFailed expression e }
    | .ok ts => { stdout := String.join (ts.map tokenLine) }

def Command.run (s : Surroundings) (verbose : Bool) : Command → Outcome
  | .evaluate expression withGraph strict rightAssoc =>
    withConfig s verbose strict rightAssoc fun c =>
      withTree s c verbose expression (runEvaluate c withGraph)
  | .graph expression output strict rightAssoc =>
    withConfig s verbose strict rightAssoc fun c =>
      withTree s c verbose expression (runGraph s output)
  | .tokens expression strict =>
    withConfig s verbose strict false fun c => runTokens c verbose expression

def helpText : String :=
  "Usage: arithtree [--version] [--verbose] COMMAND\n\n" ++
    "  eval [--graph] [--strict] [--right-assoc] EXPRESSION\n" ++
    "  graph [--output FILE] [--strict] [--right-assoc] EXPRESSION\n" ++
    "  tokens [--strict] EXPRESSION\n"

/-- What a command line does. -/
def run (s : Surroundings) (args : List String) : Outcome :=
  match readRequest args with
  | .error e => { ending := .usage e }
  | .ok .version => { stdout := s!"arithtree {Release.version}\n" }
  | .ok .help => { stdout := helpText }
  | .ok (.run verbose command) => command.run s verbose

end CommandLine

end IntExpr
