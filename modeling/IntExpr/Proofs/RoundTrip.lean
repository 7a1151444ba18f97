import IntExpr.Expr.Print
import IntExpr.Proofs.ParseText

/-!
# RoundTrip — the canonical text of a tree is read back as that tree

The text of a tree scans to the symbols of the tree (`lexes_written`), the grammar gives these symbols
that tree and no other, at either associativity (`derives_symbols`), and they have one level of
parentheses less than the tree has of operators (`depth_symbols`).
-/

namespace IntExpr

/-! ### Texts beside each other -/

theorem apart_of_head {cs ds : List Char} {d : Char} (hd : d.isDigit = false) : Apart cs (d :: ds) := by
  intro x y _ hy _
  obtain rfl : d = y := Option.some.inj hy
  exact hd

theorem apart_of_singleton {ds : List Char} {c : Char} (hc : c.isDigit = false) : Apart [c] ds := by
  intro x y hx _ hdigit
  obtain rfl : c = x := Option.some.inj hx
  exact absurd hdigit (Bool.eq_false_iff.mp hc)

theorem Lexes.op (o : BinOp) : Lexes [o.char] [.op o] := by
  refine .symbol ?_ ?_ ?_
  · cases o <;> rfl
  · cases o <;> rfl
  · cases o <;> rfl

namespace Expr

variable {a : Associativity}

/-! ### The symbols of a tree -/

/-- Symbols, in parentheses unless they are those of a literal. -/
def enclose (e : Expr) (ss : List Symbol) : List Symbol :=
  match e with
  | .literal _ => ss
  | _ => .leftParen :: (ss ++ [.rightParen])

/-- The symbols of the canonical text of a tree. -/
def symbols : Expr → List Symbol
  | .literal text => [.number text]
  | .binary o l r => enclose l (symbols l) ++ .op o :: enclose r (symbols r)
  | .foreign v => nomatch v

theorem lexes_wrap {e : Expr} (h : Lexes e.written.toList e.symbols) :
    Lexes (wrap e e.written).toList (enclose e e.symbols) := by
  have hopen : Lexes ['('] [.leftParen] := .symbol rfl rfl rfl
  have hclose : Lexes [')'] [.rightParen] := .symbol rfl rfl rfl
  have hparens := hopen.append (h.append hclose (apart_of_head rfl)) (apart_of_singleton rfl)
  cases e with
  | literal text => exact h
  | binary o l r =>
    show Lexes ("(" ++ written (.binary o l r) ++ ")").toList _
    rw [String.toList_append, String.toList_append, List.append_assoc]
    exact hparens
  | foreign v => exact v.elim

theorem lexes_written : ∀ e : Expr, (∀ text ∈ e.literals, Decimal.IsNumeral text.toList) →
    Lexes e.written.toList e.symbols
  | .literal text, h => .number (h text (List.mem_singleton.mpr rfl))
  | .binary o l r, h => by
    obtain ⟨hl, hr⟩ := Tree.forall_mem_literals_binary.mp h
    have hright := lexes_wrap (lexes_written r hr)
    have hspace : Lexes [' '] [] := .separator rfl
    have hafter := hspace.append hright (apart_of_singleton rfl)
    have hop := (Lexes.op o).append hafter (apart_of_head rfl)
    have hbefore := hspace.append hop (apart_of_singleton rfl)
    have htext := (lexes_wrap (lexes_written l hl)).append hbefore (apart_of_head rfl)
    simpa [written, symbols] using htext
  | .foreign v, _ => v.elim

theorem derives_enclose {e : Expr} (h : Derives a (.chain .sum) e.symbols e) :
    Derives a .factor (enclose e e.symbols) e := by
  cases e with
  | literal text => exact .number text
  | binary o l r => exact .paren h
  | foreign v => exact v.elim

theorem derives_symbols (a : Associativity) : ∀ e : Expr, Derives a (.chain .sum) e.symbols e
  | .literal text => (Derives.number text).chain_of_factor .sum
  | .binary o l r =>
    have hl := derives_enclose (derives_symbols a l)
    have hr := derives_enclose (derives_symbols a r)
    Derives.sum_of_chain o.level (hl.link_factors o hr)
  | .foreign v => v.elim

theorem depth_enclose {e : Expr} (h : depth 0 e.symbols = e.height - 1) :
    depth 0 (enclose e e.symbols) = e.height := by
  cases e with
  | literal text => rfl
  | binary o l r => exact (derives_symbols .left _).depth_paren.trans (congrArg (· + 1) h)
  | foreign v => exact v.elim

theorem depth_symbols : ∀ e : Expr, depth 0 e.symbols = e.height - 1
  | .literal text => rfl
  | .binary o l r => by
    have hl := depth_enclose (depth_symbols l)
    have hr := depth_enclose (depth_symbols r)
    rw [symbols, (derives_enclose (derives_symbols .left l)).depth_link, hl, hr]
    rfl
  | .foreign v => v.elim

/-! ### Reading back -/

theorem print_eq_written (e : Expr) : e.print = e.written := by
  rw [print, emit_eq]
  simp [allWritten, Pending.written]

/-- **The canonical text of a tree is read back as that tree**, whatever the settings, unless it is
nested too deeply. -/
theorem parse_print (limit : Nat) (c : Config) (e : Expr)
    (h : ∀ text ∈ e.literals, Decimal.IsNumeral text.toList) :
    (e.height ≤ limit + 1 → parse limit c e.print = .ok e) ∧
      (limit + 1 < e.height → ∃ t, parse limit c e.print = .error (.tooDeep t)) ∧
      ∀ t, (ParseError.tooDeep t).message = "Expression is nested too deeply" := by
  obtain ⟨hrejected, hfinish⟩ := lexes_written e h c.unknownCharacters 0
  rw [← print_eq_written] at hrejected hfinish
  have hlex := tokenize_eq_ok_iff.mpr ⟨hrejected, rfl⟩
  have hsymbols : (scan c.unknownCharacters e.print).tokens.map Token.symbol =
      e.symbols ++ List.replicate 0 .newline ++ [.finish] := by
    rw [List.replicate_zero, List.append_nil]
    exact hfinish
  have hderives := derives_symbols c.associativity e
  have hdepth : depth 0 ((scan c.unknownCharacters e.print).tokens.map Token.symbol) = e.height - 1 := by
    rw [hsymbols, hderives.depth_text, depth_symbols]
  obtain ⟨hfits, hdeep⟩ := parse_of_derivesText limit hlex ⟨e.symbols, 0, hderives, hsymbols⟩
  rw [hdepth] at hfits hdeep
  exact ⟨fun hheight => hfits (Nat.sub_le_iff_le_add.mpr hheight),
    fun hheight => hdeep (Nat.lt_sub_iff_add_lt.mpr hheight), fun _ => rfl⟩

/-- A sum times a number, and a number with one minus sign too many. -/
theorem parse_print_of_product_and_signs :
    parse 2 {} (print (.binary .mul (.binary .add (.literal "1") (.literal "20")) (.literal "3"))) =
        .ok (.binary .mul (.binary .add (.literal "1") (.literal "20")) (.literal "3")) ∧
      ∃ t, parse 2 {} (print (.negateTimes 4 (.literal "1"))) = .error (.tooDeep t) :=
  ⟨(parse_print 2 {} _ (by decide)).1 (by decide), (parse_print 2 {} _ (by decide)).2.1 (by decide)⟩

end Expr

end IntExpr
