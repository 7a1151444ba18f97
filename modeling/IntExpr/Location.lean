/-!
# Location — a place in a text, and how it is shown

`Location.ofOffset` finds the line and the column of an offset; only a newline ends a line.
`Location.render` shows the place, and under the line a caret that marks the column.
-/

namespace IntExpr

/-- A place: line and column, both counted from one, and the line's text where it is known. -/
structure Location where
  line : Int
  column : Int
  snippet : Option String := none
  deriving DecidableEq, Repr

namespace Location

/-- An offset brought into `0 .. n`. -/
def clamp (n : Nat) (pos : Int) : Nat := min pos.toNat n

def lastLine (cs : List Char) : List Char := (cs.reverse.takeWhile (· ≠ '\n')).reverse

def firstLine (cs : List Char) : List Char := cs.takeWhile (· ≠ '\n')

def ofOffset (source : String) (pos : Int) : Location :=
  let cs := source.toList
  let p := clamp cs.length pos
  let before := cs.take p
  { line := before.count '\n' + 1
    column := (lastLine before).length + 1
    snippet := some (String.ofList (lastLine before ++ firstLine (cs.drop p))) }

/-- What stands to the left of a shown line: its number, right-aligned in four places, and a bar. -/
def gutter (line : Int) : List Char :=
  let digits := (toString line).toList
  List.replicate (4 - digits.length) ' ' ++ digits ++ [' ', '|', ' ']

/-- The line of the caret; a column that lies left of the text puts the caret first. -/
def marker (line column : Int) : List Char :=
  List.replicate ((gutter line).length + column - 1).toNat ' ' ++ ['^']

def render (l : Location) : String :=
  let place := s!"<expr>:{l.line}:{l.column}"
  match l.snippet with
  | none => place
  | some text => place ++ "\n" ++ String.ofList (gutter l.line) ++ text ++ "\n" ++
      String.ofList (marker l.line l.column)

/-! ### Lines -/

theorem clamp_le (n : Nat) (pos : Int) : clamp n pos ≤ n := Nat.min_le_right _ _

theorem clamp_of_le {n p : Nat} (h : p ≤ n) : clamp n p = p := by simp [clamp, h]

theorem newline_not_mem_firstLine (cs : List Char) : '\n' ∉ firstLine cs := fun h => by
  simpa using List.all_eq_true.mp (List.all_takeWhile (l := cs)) _ h

theorem newline_not_mem_lastLine (cs : List Char) : '\n' ∉ lastLine cs := fun h =>
  newline_not_mem_firstLine cs.reverse (List.mem_reverse.mp h)

end Location

end IntExpr
