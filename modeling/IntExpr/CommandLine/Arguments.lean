/-!
# Arguments — options and operands of a command line

An option is long (`--output`) or short (`-o`). One that takes a value has it in the same argument
(`--output=FILE`, `-oFILE`) or in the next one, whatever that looks like; short options without
value can be written together. `--` ends the options, and a lone `-` is an operand.
-/

namespace IntExpr.CommandLine

structure OptionSpec where
  /-- The name after two dashes. -/
  long : String
  /-- The letter after one dash. -/
  short : Option Char := none
  takesValue : Bool := false
  deriving DecidableEq, Repr

inductive UsageError where
  | unknownOption (name : String)
  | missingValue (option : String)
  | unwantedValue (option : String)
  | missingArgument
  | extraArgument (text : String)
  | missingCommand
  | unknownCommand (name : String)
  deriving DecidableEq, Repr

def UsageError.message : UsageError → String
  | .unknownOption name => s!"No such option: {name}"
  | .missingValue option => s!"Option --{option} requires an argument."
  | .unwantedValue option => s!"Option --{option} does not take a value."
  | .missingArgument => "Missing argument."
  | .extraArgument text => s!"Got unexpected extra argument ({text})"
  | .missingCommand => "Missing command."
  | .unknownCommand name => s!"No such command: {name}"

/-- Options that were given, with their values, and operands, both in order. -/
structure Arguments where
  options : List (String × Option String) := []
  operands : List String := []
  deriving DecidableEq, Repr

namespace Arguments

def has (a : Arguments) (long : String) : Bool := a.options.any (·.1 = long)

def valueOf? (a : Arguments) (long : String) : Option String :=
  (a.options.reverse.lookup long).join

def withOptions (options : List (String × Option String)) (a : Arguments) : Arguments :=
  { a with options := options ++ a.options }

def withOperand (text : String) (a : Arguments) : Arguments :=
  { a with operands := text :: a.operands }

end Arguments

/-- What one argument gives: options with their values, and whether the next argument is used up. -/
abbrev Given := List (String × Option String) × Bool

/-- The option, with its value in the next argument. -/
def takeNext (spec : OptionSpec) (next : Option String) : Except UsageError Given :=
  match next with
  | some value => .ok ([(spec.long, some value)], true)
  | none => .error (.missingValue spec.long)

/-- What `--` and the characters `cs` give. -/
def readLong (specs : List OptionSpec) (cs : List Char) (next : Option String) :
    Except UsageError Given :=
  let name := String.ofList (cs.takeWhile (· ≠ '='))
  match specs.find? (·.long = name), cs.dropWhile (· ≠ '=') with
  | none, _ => .error (.unknownOption ("--" ++ name))
  | some spec, [] =>
    if spec.takesValue then takeNext spec next else .ok ([(spec.long, none)], false)
  | some spec, _ :: value =>
    if spec.takesValue then .ok ([(spec.long, some (String.ofList value))], false)
    else .error (.unwantedValue spec.long)

def readShort (specs : List OptionSpec) (next : Option String) :
    List Char → Except UsageError Given
  | [] => .ok ([], false)
  | c :: cs =>
    match specs.find? (·.short = some c) with
    | none => .error (.unknownOption ("-" ++ String.singleton c))
    | some spec =>
      if spec.takesValue then
        if cs.isEmpty then takeNext spec next
        else .ok ([(spec.long, some (String.ofList cs))], false)
      else (readShort specs next cs).map fun g => ((spec.long, none) :: g.1, g.2)

/-- What an argument gives that is neither an operand nor `--`. -/
def readOption (specs : List OptionSpec) (arg : String) (next : Option String) :
    Except UsageError Given :=
  match arg.toList with
  | '-' :: '-' :: cs => readLong specs cs next
  | cs => readShort specs next cs.tail

/-- The argument holds options: it starts with a dash and has more to it. -/
def isOption (arg : String) : Bool :=
  match arg.toList with
  | '-' :: _ :: _ => true
  | _ => false

/-- Sort arguments into options and operands. Where options are not wanted after the first operand,
all that follows it are operands. -/
def readArguments (specs : List OptionSpec) (interspersed : Bool) (args : List String) :
    Except UsageError Arguments :=
  match args with
  | [] => .ok {}
  | arg :: rest =>
    if arg = "--" then .ok { operands := rest }
    else if isOption arg then
      match readOption specs arg rest.head? with
      | .error e => .error e
      | .ok (options, usesNext) =>
        (readArguments specs interspersed (if usesNext then rest.tail else rest)).map
          (·.withOptions options)
    else if interspersed then (readArguments specs interspersed rest).map (·.withOperand arg)
    else .ok { operands := arg :: rest }
termination_by args.length
decreasing_by
  · split
    · simp only [List.length_tail, List.length_cons]; omega
    · simp
  · simp

end IntExpr.CommandLine
