import IntExpr.Config
import IntExpr.Expr
import IntExpr.Token

/-!
# Grammar — which symbols have which tree

`Derives a ph ss e`: the symbols `ss` are a phrase `ph`, and `e` is the tree of it.  A chain that
groups to the left is a shorter chain and one more operand, a chain that groups to the right an
operand and a shorter chain.  Nothing here says how a tree is found.

* `DerivesText`: a sum, then newlines, then the end.
* `Derives.chain_of_factor`: a factor is a chain of every level.
-/

namespace IntExpr

/-- The phrases of the grammar: the chains of each level, and the factors that powers join. -/
inductive Phrase where
  | chain (level : Level)
  | factor
  deriving DecidableEq, Repr

/-- The phrases that a chain of a level joins. -/
def Level.joined : Level → Phrase
  | .sum => .chain .product
  | .product => .chain .power
  | .power => .factor

/-- The side to which the chains of a level group; only that of powers is a matter of choice. -/
def Associativity.side (a : Associativity) : Level → Associativity
  | .sum | .product => .left
  | .power => a

/-- The symbols `ss` are a phrase whose tree is `e`. -/
inductive Derives (a : Associativity) : Phrase → List Symbol → Expr → Prop
  | single {level : Level} {ss : List Symbol} {e : Expr} :
    Derives a level.joined ss e → Derives a (.chain level) ss e
  | linkLeft {o : BinOp} {ss us : List Symbol} {l r : Expr} : a.side o.level = .left →
    Derives a (.chain o.level) ss l → Derives a o.level.joined us r →
    Derives a (.chain o.level) (ss ++ .op o :: us) (.binary o l r)
  | linkRight {o : BinOp} {ss us : List Symbol} {l r : Expr} : a.side o.level = .right →
    Derives a o.level.joined ss l → Derives a (.chain o.level) us r →
    Derives a (.chain o.level) (ss ++ .op o :: us) (.binary o l r)
  | plus {ss : List Symbol} {e : Expr} :
    Derives a .factor ss e → Derives a .factor (.op .add :: ss) e
  | minus {ss : List Symbol} {e : Expr} :
    Derives a .factor ss e → Derives a .factor (.op .sub :: ss) (.binary .sub (.literal "0") e)
  | number (digits : String) : Derives a .factor [.number digits] (.literal digits)
  | paren {ss : List Symbol} {e : Expr} :
    Derives a (.chain .sum) ss e → Derives a .factor (.leftParen :: (ss ++ [.rightParen])) e

/-- The symbols of a whole text: a sum, then newlines, then the end. -/
def DerivesText (a : Associativity) (ss : List Symbol) (e : Expr) : Prop :=
  ∃ body n, Derives a (.chain .sum) body e ∧ ss = body ++ List.replicate n .newline ++ [.finish]

/-! ### Tokens of given symbols -/

/-- Symbols as those of tokens; no offset matters to the grammar. -/
theorem map_symbol_mk (ss : List Symbol) : (ss.map (Token.mk · 0)).map Token.symbol = ss := by
  rw [List.map_map]
  exact List.map_id ss

theorem exists_of_map_symbol_eq_cons {ts : List Token} {s : Symbol} {ss : List Symbol}
    (h : ts.map Token.symbol = s :: ss) :
    ∃ pos us, ts = ⟨s, pos⟩ :: us ∧ us.map Token.symbol = ss := by
  obtain ⟨⟨_, pos⟩, us, rfl, rfl, hus⟩ := List.map_eq_cons_iff.mp h
  exact ⟨pos, us, rfl, hus⟩

theorem exists_of_map_symbol_eq_singleton {ts : List Token} {s : Symbol}
    (h : ts.map Token.symbol = [s]) : ∃ pos, ts = [⟨s, pos⟩] := by
  obtain ⟨pos, us, rfl, hus⟩ := exists_of_map_symbol_eq_cons h
  exact ⟨pos, by rw [List.map_eq_nil_iff.mp hus]⟩

namespace Derives

variable {a : Associativity}

/-! ### Phrases within phrases -/

theorem chain_of_factor {ss : List Symbol} {e : Expr} (h : Derives a .factor ss e)
    (level : Level) : Derives a (.chain level) ss e := by
  have hpower : Derives a (.chain .power) ss e := .single h
  have hproduct : Derives a (.chain .product) ss e := .single hpower
  cases level with
  | power => exact hpower
  | product => exact hproduct
  | sum => exact .single hproduct

theorem joined_of_factor {ss : List Symbol} {e : Expr} (h : Derives a .factor ss e)
    (level : Level) : Derives a level.joined ss e := by
  cases level with
  | power => exact h
  | product => exact h.chain_of_factor .power
  | sum => exact h.chain_of_factor .product

theorem sum_of_chain {ss : List Symbol} {e : Expr} :
    ∀ level : Level, Derives a (.chain level) ss e → Derives a (.chain .sum) ss e
  | .sum, h => h
  | .product, h => .single h
  | .power, h => .single (.single h)

/-- One operator between two factors groups in one way only. -/
theorem link_factors (o : BinOp) {ss us : List Symbol} {l r : Expr} (hl : Derives a .factor ss l)
    (hr : Derives a .factor us r) : Derives a (.chain o.level) (ss ++ .op o :: us) (.binary o l r) := by
  cases hs : a.side o.level with
  | left => exact .linkLeft hs (hl.chain_of_factor _) (hr.joined_of_factor _)
  | right => exact .linkRight hs (hl.joined_of_factor _) (hr.chain_of_factor _)

end Derives

end IntExpr
