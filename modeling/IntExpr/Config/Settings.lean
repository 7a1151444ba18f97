import IntExpr.Config
import IntExpr.Config.IntegerText

/-!
# Settings — a configuration from named values

Each of the three settings is judged alone (`Setting` and the three `read` functions); `validate`
collects one detail per faulty setting, in the order of the settings, and then one per unknown name.
`load` takes each setting from the overrides, or else from the environment, or else leaves it at its
default.
-/

namespace IntExpr

/-! ### Values from outside -/

/-- What a setting is given as, or what stands in a tree where a node should be, before anybody has
judged it. -/
inductive RawValue where
  | null
  | bool (b : Bool)
  | int (v : Int)
  /-- The decimal fraction `mantissa / 10 ^ places`. -/
  | decimal (mantissa : Int) (places : Nat)
  | text (s : String)
  | list
  | record
  deriving DecidableEq, Repr

namespace RawValue

def typeName : RawValue → String
  | .null => "NoneType"
  | .bool _ => "bool"
  | .int _ => "int"
  | .decimal _ _ => "float"
  | .text _ => "str"
  | .list => "list"
  | .record => "dict"

end RawValue

/-! ### Names -/

/-- The settings, in the order in which they are judged. -/
inductive Setting where
  | unknownCharacters
  | associativity
  | intBits
  deriving DecidableEq, Repr

namespace Setting

def all : List Setting := [.unknownCharacters, .associativity, .intBits]

def name : Setting → String
  | .unknownCharacters => "unknown_characters"
  | .associativity => "exponent_associativity"
  | .intBits => "int_bits"

def variableName : Setting → String
  | .unknownCharacters => "ARITHTREE_UNKNOWN_CHARACTERS"
  | .associativity => "ARITHTREE_EXPONENT_ASSOCIATIVITY"
  | .intBits => "ARITHTREE_INT_BITS"

def ofName? (s : String) : Option Setting := all.find? (·.name = s)

@[simp] theorem ofName?_name (s : Setting) : ofName? s.name = some s := by cases s <;> decide

end Setting

/-- What is wrong with one named value. -/
inductive Problem where
  /-- The value is none of two words. -/
  | notAChoice (first second : String)
  | notAnInteger
  /-- The value is a number with a fractional part, or too great for one that may have it. -/
  | fractional
  | notAnIntegerText
  | tooLongText
  | belowTwo
  | unknownName
  deriving DecidableEq, Repr

namespace Problem

def kind : Problem → String
  | .notAChoice _ _ => "literal_error"
  | .notAnInteger => "int_type"
  | .fractional => "int_from_float"
  | .notAnIntegerText => "int_parsing"
  | .tooLongText => "int_parsing_size"
  | .belowTwo => "greater_than_equal"
  | .unknownName => "extra_forbidden"

def message : Problem → String
  | .notAChoice first second => s!"Input should be '{first}' or '{second}'"
  | .notAnInteger => "Input should be a valid integer"
  | .fractional => "Input should be a valid integer, got a number with a fractional part"
  | .notAnIntegerText =>
    "Input should be a valid integer, unable to parse string as an integer"
  | .tooLongText => "Unable to parse input string as an integer, exceeded maximum size"
  | .belowTwo => "Input should be greater than or equal to 2"
  | .unknownName => "Extra inputs are not permitted"

end Problem

structure Detail where
  name : String
  problem : Problem
  deriving DecidableEq, Repr

/-! ### One setting -/

def UnknownCharacters.word : UnknownCharacters → String
  | .skip => "skip"
  | .reject => "error"

def Associativity.word : Associativity → String
  | .left => "left"
  | .right => "right"

/-- The one of two choices whose word is given. -/
def readChoice {α : Type} (word : α → String) (first second : α) (v : RawValue) :
    Except Problem α :=
  if v = .text (word first) then .ok first
  else if v = .text (word second) then .ok second
  else .error (.notAChoice (word first) (word second))

def readUnknownCharacters : RawValue → Except Problem UnknownCharacters :=
  readChoice UnknownCharacters.word .skip .reject

def readAssociativity : RawValue → Except Problem Associativity :=
  readChoice Associativity.word .left .right

/-- Decimal fractions count as integers only below this size. -/
def wholeLimit : Nat := Nat.pow 2 63

def readInteger : RawValue → Except Problem Int
  | .int v => .ok v
  | .bool b => .ok (if b then 1 else 0)
  | .decimal m places =>
    let unit : Int := Nat.pow 10 places
    if m % unit = 0 ∧ (m / unit).natAbs < wholeLimit then .ok (m / unit) else .error .fractional
  | .text s =>
    match IntegerText.read s with
    | .ok v => .ok v
    | .error .malformed => .error .notAnIntegerText
    | .error .tooLong => .error .tooLongText
  | .null | .list | .record => .error .notAnInteger

def readIntBits (v : RawValue) : Except Problem { n : Nat // 2 ≤ n } :=
  match readInteger v with
  | .error p => .error p
  | .ok n => if h : 2 ≤ n then .ok ⟨n.toNat, by omega⟩ else .error .belowTwo

/-! ### All settings -/

/-- The named values of one configuration. -/
abbrev RawSettings := List (String × RawValue)

/-- The outcome of judging one setting, which has a default. -/
def RawSettings.judge {α : Type} (vs : RawSettings) (s : Setting) (default : α)
    (read : RawValue → Except Problem α) : Except Problem α :=
  match vs.lookup s.name with
  | none => .ok default
  | some v => read v

def detailOf {α : Type} (s : Setting) : Except Problem α → List Detail
  | .ok _ => []
  | .error p => [⟨s.name, p⟩]

def RawSettings.unknownNames (vs : RawSettings) : List Detail :=
  (vs.filter fun v => (Setting.ofName? v.1).isNone).map fun v => ⟨v.1, .unknownName⟩

/-- The configuration of named values, or all that is wrong with them. -/
def RawSettings.validate (vs : RawSettings) : Except (List Detail) Config :=
  match vs.judge .unknownCharacters .skip readUnknownCharacters,
      vs.judge .associativity .left readAssociativity,
      vs.judge .intBits ⟨64, by decide⟩ readIntBits, vs.unknownNames with
  | .ok u, .ok a, .ok n, [] => .ok ⟨u, a, n.1, n.2⟩
  | u, a, n, unknown =>
    .error (detailOf .unknownCharacters u ++ detailOf .associativity a ++ detailOf .intBits n ++
      unknown)

/-! ### Overrides and environment -/

/-- The lower case of a character, as far as it is an ASCII letter: that of `A` to `Z` and of the
Kelvin sign. The lower case of any other character is in no setting that is accepted, and is not
needed to tell what is wrong with one (`verdictsBy_eq`). -/
def lowerChar (c : Char) : Char := if c = '\u212A' then 'k' else c.toLower

/-- What an environment variable gives: its text without blanks around it and in lower case, unless
nothing is left. -/
def ofVariable (text : String) : Option RawValue :=
  match Text.strip Text.isBlank text.toList with
  | [] => none
  | cs => some (.text (String.ofList (cs.map lowerChar)))

/-- The value that is in effect for a setting, if any: the override, or else what the environment
gives. An override of `null` counts for nothing. -/
def effective? (env : List (String × String)) (overrides : RawSettings) (s : Setting) :
    Option RawValue :=
  match overrides.lookup s.name with
  | none | some .null => (env.lookup s.variableName).bind ofVariable
  | some v => some v

/-- The values that are in effect: those of the settings, in order, and the overrides of other
names. -/
def gather (env : List (String × String)) (overrides : RawSettings) : RawSettings :=
  (Setting.all.filterMap fun s => (effective? env overrides s).map (s.name, ·)) ++
    overrides.filter fun v => (Setting.ofName? v.1).isNone && v.2 ≠ .null

inductive LoadError where
  | invalid (details : List Detail)
  /-- The width has too many digits to be put on record. -/
  | limit (e : Decimal.LimitError)
  deriving DecidableEq, Repr

/-- The configuration of an environment and overrides. It is put on record, and so its width has to
be one that can be written. -/
def load (env : List (String × String)) (overrides : RawSettings) : Except LoadError Config :=
  match (gather env overrides).validate with
  | .error details => .error (.invalid details)
  | .ok c =>
    match Decimal.write c.intBits with
    | .ok _ => .ok c
    | .error e => .error (.limit e)

end IntExpr
