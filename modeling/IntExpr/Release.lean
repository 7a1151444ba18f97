import IntExpr.Text.Blank

/-!
# Release — which version this is

A package manifest declares a version on a line of its own, as `version = "1.2.3"`. Where there is
no manifest, or none of its lines is a declaration, the version that is installed counts.
-/

namespace IntExpr.Release

def version : String := "0.1.0"

def unknownVersion : String := "0.0.0"

/-- Line ends in one form: a carriage return, with or without a newline after it, is a newline. -/
def unifyLineEnds : List Char → List Char
  | [] => []
  | '\r' :: '\n' :: cs => '\n' :: unifyLineEnds cs
  | '\r' :: cs => '\n' :: unifyLineEnds cs
  | c :: cs => c :: unifyLineEnds cs

def isQuote (c : Char) : Bool := c = '"' || c = '\''

/-- What follows a word at the front of a text. -/
def after? : List Char → List Char → Option (List Char)
  | [], cs => some cs
  | w :: ws, c :: cs => if w = c then after? ws cs else none
  | _ :: _, [] => none

/-- The text between two quotation marks, which need not be alike, at the front of a text. -/
def quoted? : List Char → Option (List Char)
  | [] => none
  | c :: cs =>
    let inner := cs.takeWhile (!isQuote ·)
    if isQuote c && !inner.isEmpty && inner.length < cs.length then some inner else none

def declared? (cs : List Char) : Option (List Char) := do
  let cs ← after? "version".toList cs
  let cs ← after? ['='] (cs.dropWhile Text.isBlank)
  quoted? (cs.dropWhile Text.isBlank)

/-- The first declaration that starts a line; `lineStart` says whether the text does. -/
def search (lineStart : Bool) : List Char → Option (List Char)
  | [] => none
  | c :: cs =>
    match (if lineStart then declared? (c :: cs) else none) with
    | some v => some v
    | none => search (c = '\n') cs

def ofManifest? (manifest : String) : Option String :=
  (search true (unifyLineEnds manifest.toList)).map String.ofList

/-- The version of a package with this manifest and this installed version, if there are such. -/
def resolve (manifest installed : Option String) : String :=
  ((manifest.bind ofManifest?).or installed).getD unknownVersion

end IntExpr.Release
