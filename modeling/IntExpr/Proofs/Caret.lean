import IntExpr.Proofs.FaithfulResult
import IntExpr.Proofs.Places

/-!
# Caret — what a report with a place looks like

The report of an error of a text is four lines: the place, the line of the text
after a margin with its number, a caret under that line, and the message (`lines_text`).  The caret has as
many blanks to its left as the margin is wide, whatever the number, and then as many as there are
characters before the column.  So it stands under the character at the offset of the error, and right
behind the line where there is none (`caret_at_errors`).

* `oneLine_message`: no message breaks its line, whatever text it quotes.
-/

namespace IntExpr

variable {limit : Nat} {c : Config} {source : String} {d : Diagnostic} {p : Nat}

/-! ### Texts of one line -/

/-- A text without a newline. -/
def OneLine (s : String) : Prop := '\n' ∉ s.toList

instance (s : String) : Decidable (OneLine s) := inferInstanceAs (Decidable (_ ∉ _))

theorem OneLine.append {s t : String} (hs : OneLine s) (ht : OneLine t) : OneLine (s ++ t) := by
  rw [OneLine, String.toList_append, List.mem_append, not_or]
  exact ⟨hs, ht⟩

theorem lines_of_oneLine {s : String} (hs : OneLine s) : lines s = [s] := by
  rw [lines, List.splitOn_eq_singleton hs, List.map_singleton, String.ofList_toList]

theorem lines_append {s : String} (hs : OneLine s) (t : String) :
    lines (s ++ ("\n" ++ t)) = s :: lines t := by
  have hlist : (s ++ ("\n" ++ t)).toList = s.toList ++ '\n' :: t.toList := by
    rw [String.toList_append, String.toList_append]
    rfl
  rw [lines, hlist, List.splitOn_append_cons_self_of_not_mem hs, List.map_cons, String.ofList_toList, lines]

/-! ### Nothing breaks a line -/

theorem oneLine_natRepr (n : Nat) : OneLine n.repr := by
  intro h
  rw [Nat.toList_repr] at h
  exact absurd ((Decimal.isNumeral_toDigits n).2 _ h) (by decide)

theorem oneLine_intRepr (v : Int) : OneLine (toString v) := by
  have hminus : OneLine "-" := by decide
  cases v with
  | ofNat n => exact oneLine_natRepr n
  | negSucc n => exact hminus.append (oneLine_natRepr (n + 1))

theorem oneLine_kindName (k : TokenKind) : OneLine k.name := by
  rcases k with (_ | _ | _) | _ | _ | _ | _ | _ <;> decide

theorem oneLine_describe (s : Symbol) : OneLine s.describe := by
  have hquoted (k : TokenKind) (lexeme : String) :
      OneLine (k.name ++ " (" ++ Text.quote lexeme ++ ")") := by
    have hopen : OneLine " (" := by decide
    have hclose : OneLine ")" := by decide
    exact (((oneLine_kindName k).append hopen).append (Text.newline_not_mem_quote lexeme)).append hclose
  cases s with
  | finish | newline => decide
  | number | op | leftParen | rightParen => exact hquoted _ _

theorem oneLine_rejection (found : Located) : OneLine found.rejection := by
  have hlead : OneLine "Unexpected character: " := by decide
  exact hlead.append (Text.newline_not_mem_quote _)

theorem oneLine_message (e : ParseError) : OneLine e.message := by
  cases e with
  | operandExpected t =>
    have hlead : OneLine "Expected a number, sign or '(', got " := by decide
    exact hlead.append (oneLine_describe t.symbol)
  | closingExpected openPos t =>
    have hlead : OneLine "Unmatched '(' at column " := by decide
    have hmiddle : OneLine ": expected ')', got " := by decide
    exact ((hlead.append (oneLine_natRepr (openPos + 1))).append hmiddle).append (oneLine_describe t.symbol)
  | endExpected t =>
    have hlead : OneLine "Unexpected token after expression: " := by decide
    exact hlead.append (Text.newline_not_mem_quote t.lexeme)
  | rejected found | escaped found => exact oneLine_rejection found
  | tooDeep t =>
    show OneLine "Expression is nested too deeply"
    decide

namespace Location

theorem oneLine_place (line column : Int) : OneLine s!"<expr>:{line}:{column}" := by
  have hlead : OneLine "<expr>:" := by decide
  have hcolon : OneLine ":" := by decide
  exact ((hlead.append (oneLine_intRepr line)).append hcolon).append (oneLine_intRepr column)

theorem newline_not_mem_blanks (n : Nat) : '\n' ∉ List.replicate n ' ' := by
  intro h
  exact absurd (List.eq_of_mem_replicate h) (by decide)

theorem oneLine_gutter (line : Int) : OneLine (String.ofList (gutter line)) := by
  rw [OneLine, String.toList_ofList, gutter, List.mem_append, List.mem_append, not_or, not_or]
  exact ⟨⟨newline_not_mem_blanks _, oneLine_intRepr line⟩, by decide⟩

theorem oneLine_marker (line column : Int) : OneLine (String.ofList (marker line column)) := by
  rw [OneLine, String.toList_ofList, marker, List.mem_append, not_or]
  exact ⟨newline_not_mem_blanks _, by decide⟩

/-- The caret has as many blanks to its left as the margin is wide, and then one for each column. -/
theorem marker_eq (line : Int) (k : Nat) :
    marker line (k + 1) = List.replicate ((gutter line).length + k) ' ' ++ ['^'] := by
  have hwidth : (((gutter line).length : Int) + (k + 1) - 1).toNat = (gutter line).length + k := by omega
  rw [marker, hwidth]

/-- A number of five digits widens the margin, and the caret moves with it. -/
example : (gutter 10000).length = 8 ∧ marker 10000 1 = List.replicate 8 ' ' ++ ['^'] := by decide

end Location

/-! ### The four lines -/

/-- The text of a report with a place: the place, the line of the text after its margin, the caret and
the message. -/
theorem lines_text {l : Location} {line : String} (hcontext : d.context = some l)
    (hline : l.snippet = some line) (hone : OneLine line) (hmessage : OneLine d.message) :
    lines d.text = [s!"<expr>:{l.line}:{l.column}", String.ofList (Location.gutter l.line) ++ line,
      String.ofList (Location.marker l.line l.column), d.message] := by
  have htext : d.text = s!"<expr>:{l.line}:{l.column}" ++ ("\n" ++
      ((String.ofList (Location.gutter l.line) ++ line) ++ ("\n" ++
        (String.ofList (Location.marker l.line l.column) ++ ("\n" ++ d.message))))) := by
    simp only [Diagnostic.text, hcontext, Location.render, hline, String.append_assoc]
  rw [htext, lines_append (Location.oneLine_place _ _), lines_append ((Location.oneLine_gutter _).append hone),
    lines_append (Location.oneLine_marker _ _), lines_of_oneLine hmessage]

theorem oneLine_snippet {pos : Int} {line : String} (h : (Location.ofOffset source pos).snippet = some line) :
    OneLine line := by
  obtain ⟨_, _, -, hline⟩ := exists_isLine source.toList (Location.clamp source.toList.length pos)
  obtain rfl := Option.some.inj h
  rw [OneLine, String.toList_ofList]
  exact hline.unbroken

/-- The report `d` shows the place `p` of `source`.  It is of four lines, and in the third of them the
caret stands under the character at `p`, or right behind the end of the second if nothing is at `p` but a
newline or the end. -/
structure CaretAt (source : String) (d : Diagnostic) (p : Nat) : Prop where
  pos : d.pos = some (p : Int)
  le_length : p ≤ source.length
  four : ∃ (l : Location) (line : String) (indent : Nat),
    l = Location.ofOffset source p ∧ l.snippet = some line ∧
    lines d.text = [s!"<expr>:{l.line}:{l.column}", String.ofList (Location.gutter l.line) ++ line,
      String.ofList (List.replicate indent ' ' ++ ['^']), d.message] ∧
    (∀ x, source.toList[p]? = some x → x ≠ '\n' →
      (Location.gutter l.line ++ line.toList)[indent]? = some x) ∧
    ((∀ x, source.toList[p]? = some x → x = '\n') →
      indent = (Location.gutter l.line ++ line.toList).length)

/-- A report with the place of an offset has the caret there. -/
theorem caretAt_of_context (hp : p ≤ source.length) (hpos : d.pos = some (p : Int))
    (hcontext : d.context = some (Location.ofOffset source p)) (hmessage : OneLine d.message) :
    CaretAt source d p := by
  obtain ⟨n, k, text, hlies, hplace⟩ := exists_liesAt source p
  rw [Location.clamp_of_le hp] at hlies
  have hsnippet : (Location.ofOffset source p).snippet = some (String.ofList text) := by rw [hplace]
  have hlines := lines_text hcontext hsnippet (oneLine_snippet hsnippet) hmessage
  rw [hplace, Location.marker_eq] at hlines
  refine ⟨hpos, hp, _, _, _, hplace.symm, rfl, hlines, fun x hx hne => ?_, fun hbare => ?_⟩
  · rw [List.getElem?_append_right (Nat.le_add_right _ _), Nat.add_sub_cancel_left, String.toList_ofList]
    exact (hlies.char x).mpr ⟨hx, hne⟩
  · -- no character is at the column, so the line ends there
    have hcolumn := hlies.column
    have hend : text.length ≤ k := by
      rw [← List.getElem?_eq_none_iff, Option.eq_none_iff_forall_ne_some]
      intro x hx
      obtain ⟨hget, hne⟩ := (hlies.char x).mp hx
      exact hne (hbare x hget)
    rw [List.length_append, String.toList_ofList]
    omega

/-! ### Errors -/

/-- **Where the caret stands.**  A character that is not let past and every error of a parse are reported in
four lines, and the caret points at the character at the offset of the error. -/
theorem caret_at_errors (limit : Nat) (c : Config) (source : String) :
    (∀ found, tokenize c.unknownCharacters source = .error found →
      CaretAt source (found.diagnostic source) found.pos) ∧
    ∀ e, parse limit c source = .error e → CaretAt source (e.diagnostic source) e.pos := by
  refine ⟨fun found hfound => ?_, fun e he => ?_⟩
  · have hlt := pos_lt_length (tokenize_eq_error_iff.mp hfound)
    exact caretAt_of_context (Nat.le_of_lt hlt) rfl rfl (oneLine_rejection found)
  · exact caretAt_of_context (pos_of_parse_error he) rfl rfl (oneLine_message e)

end IntExpr
