import IntExpr.Decimal
import IntExpr.Text.Blank

/-!
# IntegerText — the texts that count as an integer setting

A plain numeral is an optional minus before digits that do not start with a needless zero. A text
that is no plain numeral is made tidy first: white space around it, a plus, zeros in front, a
fraction of zeros at the end, and single underscores are dropped.

A text whose plain digits are more than can be read is too long, whatever follows them; every other
text that cannot be read is malformed.
-/

namespace IntExpr.IntegerText

inductive Rejection where
  | malformed
  | tooLong
  deriving DecidableEq, Repr

/-! ### Plain numerals -/

/-- The number of digits that do not start with a needless zero. -/
def readDigits (cs : List Char) : Except Rejection Nat :=
  let digits := cs.takeWhile Char.isDigit
  if cs = ['0'] then .ok 0
  else if digits.isEmpty || digits.head? = some '0' then .error .malformed
  else if Decimal.digitLimit < digits.length then .error .tooLong
  else if digits.length < cs.length then .error .malformed
  else .ok (Decimal.value digits)

def readPlain : List Char → Except Rejection Int
  | '-' :: cs => (readDigits cs).map fun n => -(n : Int)
  | cs => (readDigits cs).map fun n => (n : Int)

/-! ### Tidying -/

/-- Characters that may stand between a zero in front and the first digit that counts. -/
def isPadding (c : Char) : Bool := c = '0' || c = '_'

/-- The text without the zeros in front. The last of them stays where no digit of the whole part
follows, and a minus may follow them. -/
def dropZeros : List Char → Option (List Char)
  | [] => none
  | '0' :: cs =>
    let rest := cs.dropWhile isPadding
    match rest.head? with
    | none | some '.' => some (('0' :: cs.takeWhile isPadding).getLast?.toList ++ rest)
    | some c => if c = '-' || c.isDigit then some rest else none
  | c :: cs => if c.isDigit then some (c :: cs) else none

/-- The part before a point that is followed by zeros alone, at least one of them. -/
def dropFraction (cs : List Char) : Option (List Char) :=
  match cs.dropWhile (· ≠ '.') with
  | [] => some cs
  | _ :: zeros =>
    if !zeros.isEmpty && zeros.all (· = '0') then some (cs.takeWhile (· ≠ '.')) else none

/-- Underscores stand alone, and not at the end; `afterUnderscore` says whether one, or the start of
the text, is just before. -/
def isGrouped (afterUnderscore : Bool) : List Char → Bool
  | [] => !afterUnderscore
  | c :: cs => if c = '_' then !afterUnderscore && isGrouped true cs else isGrouped false cs

/-- The text without underscores, if they stand alone and inside. -/
def dropUnderscores (cs : List Char) : Option (List Char) :=
  if isGrouped true cs then some (cs.filter (· ≠ '_')) else none

/-- The tidy form of a text without white space or sign. -/
def tidyUnsigned (cs : List Char) : Option (List Char) :=
  ((dropZeros cs).bind dropFraction).bind dropUnderscores

def tidy (cs : List Char) : Option (List Char) :=
  match Text.strip Text.isWhite cs with
  | '-' :: cs => (tidyUnsigned cs).map ('-' :: ·)
  | '+' :: cs => tidyUnsigned cs
  | cs => tidyUnsigned cs

/-! ### Texts -/

/-- The integer of a tidy form; one that cannot be read is malformed, however long. -/
def readTidy (cs : List Char) : Except Rejection Int :=
  match (tidy cs).map readPlain with
  | some (.ok v) => .ok v
  | _ => .error .malformed

def read (s : String) : Except Rejection Int :=
  match readPlain s.toList with
  | .error .malformed => readTidy s.toList
  | r => r

/-- A text that is too long as it stands is not made tidy. -/
theorem read_of_tooLong {s : String} (h : readPlain s.toList = .error .tooLong) :
    read s = .error .tooLong := by
  rw [read, h]

end IntExpr.IntegerText
