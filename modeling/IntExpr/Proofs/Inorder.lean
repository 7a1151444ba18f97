import IntExpr.Proofs.Tokenization

/-!
# Inorder — a tree read from left to right

`Tree.inorder` lists the literals and operators of a tree from left to right; `desugar` takes parentheses,
newlines and plus signs out of a list of symbols and writes each minus sign as a subtraction from zero.
Chains may group to either side: what is left of a phrase is the reading of its tree
(`Derives.desugar_append`), and what is left of a text that of the tree found for it
(`inorder_of_parse`).
-/

namespace IntExpr

/-! ### Readings -/

def Tree.inorder : Expr → List Symbol
  | .literal text => [.number text]
  | .binary o l r => l.inorder ++ .op o :: r.inorder

/-- An operand, or a sign before one, comes after such a symbol. -/
def Symbol.opens : Symbol → Bool
  | .op _ | .leftParen => true
  | _ => false

/-- What is left of a symbol; `leads` says that it stands first, or after a symbol that opens.  Of the
operators that lead, plus is dropped and minus subtracts from zero. -/
def Symbol.desugar (leads : Bool) : Symbol → List Symbol
  | .number digits => [.number digits]
  | .op o =>
    match leads, o with
    | true, .add => []
    | true, .sub => [.number "0", .op .sub]
    | _, o => [.op o]
  | .leftParen | .rightParen | .newline | .finish => []

def desugar (leads : Bool) : List Symbol → List Symbol
  | [] => []
  | s :: ss => s.desugar leads ++ desugar s.opens ss

variable {limit : Nat} {a : Associativity} {ph : Phrase} {c : Config} {source : String} {ss : List Symbol}
  {e t : Expr}

theorem desugar_op (o : BinOp) (us : List Symbol) :
    desugar false (.op o :: us) = .op o :: desugar true us := rfl

theorem desugar_end (n : Nat) : desugar false (List.replicate n .newline ++ [.finish]) = [] := by
  induction n with
  | zero => rfl
  | succ n ih => exact ih

/-! ### Phrases -/

/-- **What is left of a phrase is the reading of its tree**, whatever follows it. -/
theorem Derives.desugar_append (h : Derives a ph ss e) (us : List Symbol) :
    desugar true (ss ++ us) = e.inorder ++ desugar false us := by
  induction h generalizing us with
  | single _ ih => exact ih us
  | linkLeft _ _ _ ihl ihr | linkRight _ _ _ ihl ihr =>
    rw [List.append_assoc, ihl, List.cons_append, desugar_op, ihr, Tree.inorder, List.append_assoc]
    rfl
  | plus _ ih => exact ih us
  | minus _ ih => exact congrArg ([.number "0", .op .sub] ++ ·) (ih us)
  | number digits => rfl
  | paren _ ih =>
    -- neither parenthesis is kept, and the closing one opens nothing
    rw [List.cons_append, List.append_assoc]
    exact ih (.rightParen :: us)

theorem DerivesText.desugar_eq (h : DerivesText a ss e) : desugar true ss = e.inorder := by
  obtain ⟨body, n, hbody, rfl⟩ := h
  rw [List.append_assoc, hbody.desugar_append, desugar_end, List.append_nil]

/-! ### Texts -/

/-- A text has a tree if it scans to its end, its symbols have the tree in the grammar and they are not
nested too deeply, and only then. -/
theorem parse_eq_ok_iff_exists : parse limit c source = .ok t ↔
    ∃ ts, tokenize c.unknownCharacters source = .ok ts ∧
      DerivesText c.associativity (ts.map Token.symbol) t ∧
      NestsWithin limit (ts.map Token.symbol) := by
  constructor
  · intro h
    cases hrejected : (scan c.unknownCharacters source).rejected with
    | none =>
      have hlex := tokenize_eq_ok_iff.mpr ⟨hrejected, rfl⟩
      exact ⟨_, hlex, derivesText_of_parseTokens hlex ((parse_eq_ok_iff hlex).mp h)⟩
    | some found =>
      rw [parse_eq] at h
      cases hparse : parseTokens limit c.associativity (scan c.unknownCharacters source).tokens with
      | error halt =>
        rw [hparse] at h
        cases h
      | ok e =>
        -- the tree was found before the end of the text, which the scan did not come to
        obtain ⟨body, n, after, -, -, hsymbols⟩ := derives_of_parseTokens hparse
        refine absurd ?_ (finish_not_mem_of_rejected hrejected)
        rw [hsymbols]
        exact List.mem_append_right _ List.mem_cons_self
  · rintro ⟨ts, hlex, htext, hfit⟩
    exact (parse_eq_ok_iff hlex).mpr (parseTokens_of_derivesText htext hfit)

/-- **A tree has the literals and operators of its text, in their order**, and for each minus sign a
subtraction from zero. -/
theorem inorder_of_parse (h : parse limit c source = .ok t) :
    ∃ ts, tokenize c.unknownCharacters source = .ok ts ∧
      t.inorder = desugar true (ts.map Token.symbol) := by
  obtain ⟨ts, hlex, htext, -⟩ := parse_eq_ok_iff_exists.mp h
  exact ⟨ts, hlex, htext.desugar_eq.symm⟩

/-- Signs before an operand and after an operator, and a difference in parentheses. -/
theorem inorder_of_parse_of_signs :
    parse 200 {} "-2^(3 -+-1)\n" = .ok (.binary .pow (.binary .sub (.literal "0") (.literal "2"))
      (.binary .sub (.literal "3") (.binary .sub (.literal "0") (.literal "1")))) ∧
    ∃ ts, tokenize .skip "-2^(3 -+-1)\n" = .ok ts ∧ desugar true (ts.map Token.symbol) =
      [.number "0", .op .sub, .number "2", .op .pow, .number "3", .op .sub, .number "0", .op .sub,
        .number "1"] := by
  have hlex : tokenize .skip "-2^(3 -+-1)\n" = .ok
      [⟨.op .sub, 0⟩, ⟨.number "2", 1⟩, ⟨.op .pow, 2⟩, ⟨.leftParen, 3⟩, ⟨.number "3", 4⟩, ⟨.op .sub, 6⟩,
        ⟨.op .add, 7⟩, ⟨.op .sub, 8⟩, ⟨.number "1", 9⟩, ⟨.rightParen, 10⟩, ⟨.newline, 11⟩,
        ⟨.finish, 12⟩] := by
    decide +kernel
  have hinner : Derives .left (.chain .sum) [.number "3", .op .sub, .op .add, .op .sub, .number "1"]
      (.binary .sub (.literal "3") (.binary .sub (.literal "0") (.literal "1"))) :=
    (Derives.number "3").link_factors .sub (Derives.number "1").minus.plus
  have hpower : Derives .left (.chain .power)
      [.op .sub, .number "2", .op .pow, .leftParen, .number "3", .op .sub, .op .add, .op .sub,
        .number "1", .rightParen]
      (.binary .pow (.binary .sub (.literal "0") (.literal "2"))
        (.binary .sub (.literal "3") (.binary .sub (.literal "0") (.literal "1")))) :=
    (Derives.number "2").minus.link_factors .pow hinner.paren
  have hparse := (parse_eq_ok_iff_exists (c := {})).mpr ⟨_, hlex,
    ⟨_, 1, Derives.sum_of_chain .power hpower, rfl⟩, show NestsWithin 200 _ from nestsWithin_iff.mpr (by decide)⟩
  obtain ⟨ts, hts, hinorder⟩ := inorder_of_parse hparse
  exact ⟨hparse, ts, hts, hinorder.symm⟩

end IntExpr
