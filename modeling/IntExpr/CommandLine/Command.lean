import IntExpr.CommandLine.Arguments

/-!
# Command — what a command line asks for

Three commands: the value of an expression, its graph, and its tokens. Before the command stand the
options of the program as a whole; within it, options and the expression come in any order.
-/

namespace IntExpr.CommandLine

inductive Command where
  | evaluate (expression : String) (withGraph strict rightAssoc : Bool)
  | graph (expression : String) (output : Option String) (strict rightAssoc : Bool)
  | tokens (expression : String) (strict : Bool)
  deriving DecidableEq, Repr

/-- What a command line asks for. -/
inductive Request where
  | version
  | help
  | run (verbose : Bool) (command : Command)
  deriving DecidableEq, Repr

def helpOption : OptionSpec := { long := "help" }

def strictOption : OptionSpec := { long := "strict" }

def rightAssocOption : OptionSpec := { long := "right-assoc" }

def programOptions : List OptionSpec :=
  [{ long := "version" }, { long := "verbose", short := some 'v' }, helpOption]

def evaluateOptions : List OptionSpec :=
  [{ long := "graph", short := some 'g' }, strictOption, rightAssocOption, helpOption]

def graphOptions : List OptionSpec :=
  [{ long := "output", short := some 'o', takesValue := true }, strictOption, rightAssocOption,
    helpOption]

def tokensOptions : List OptionSpec := [strictOption, helpOption]

/-- The request of a command with these options, of which the only operand is the expression. -/
def commandRequest (specs : List OptionSpec) (verbose : Bool) (args : List String)
    (command : Arguments → String → Command) : Except UsageError Request :=
  match readArguments specs true args with
  | .error e => .error e
  | .ok a =>
    if a.has "help" then .ok .help
    else match a.operands with
      | [] => .error .missingArgument
      | [expression] => .ok (.run verbose (command a expression))
      | _ :: extra :: _ => .error (.extraArgument extra)

def namedRequest (verbose : Bool) (name : String) (args : List String) :
    Except UsageError Request :=
  if name = "eval" then
    commandRequest evaluateOptions verbose args fun a e =>
      .evaluate e (a.has "graph") (a.has "strict") (a.has "right-assoc")
  else if name = "graph" then
    commandRequest graphOptions verbose args fun a e =>
      .graph e (a.valueOf? "output") (a.has "strict") (a.has "right-assoc")
  else if name = "tokens" then
    commandRequest tokensOptions verbose args fun a e => .tokens e (a.has "strict")
  else .error (.unknownCommand name)

/-- The request of a whole command line. Asking for the version or for help goes before all else
that is not wrong by itself. -/
def readRequest (args : List String) : Except UsageError Request :=
  if args = [] then .ok .help
  else match readArguments programOptions false args with
    | .error e => .error e
    | .ok a =>
      match a.options.find? fun o => o.1 = "version" || o.1 = "help" with
      | some (name, _) => .ok (if name = "version" then .version else .help)
      | none =>
        match a.operands with
        | [] => .error .missingCommand
        | name :: rest => namedRequest (a.has "verbose") name rest

end IntExpr.CommandLine
