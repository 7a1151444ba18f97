import IntExpr.Proofs.ParseTokens

/-!
# ParserComplete — every tree of the grammar is found

A phrase that the grammar derives is parsed in front of any tokens that do not go on with it
(`Derives.finds`).  Of a chain more has to be said, since the parser has no part of it in hand before
its end: the first operand is found, and the rest of the chain is passed link by link (`Passes`).
One parse has one result, and so a list of symbols has at most one tree (`DerivesText.unique`).
-/

namespace IntExpr

/-- A parse that comes to the tree `e` and leaves `rest`. -/
def Yields {n : Nat} (r : Except Halt (Parsed n)) (e : Expr) (rest : List Token) : Prop :=
  ∃ shorter, r = .ok ⟨e, rest, shorter⟩

/-- From `mid` on, the parser passes the links of a chain and comes to `rest`, whatever it found
before. -/
def Passes (a : Associativity) (level : Level) (room : Nat) (mid : List Token)
    (links : List (BinOp × Expr)) (rest : List Token) : Prop :=
  ∀ n first found (h : mid.length < n), ∃ h' : rest.length < n,
    chainLinks a level room first found mid h =
      chainLinks a level room first (links.reverse ++ found) rest h'

/-- The parser finds the tree of a phrase. -/
def Finds (a : Associativity) (room : Nat) (ts rest : List Token) : Phrase → Expr → Prop
  | .factor, e => Yields (factor a room (ts ++ rest)) e rest
  | .chain level, e => level.joined.EndsBefore rest → ∃ first links mid,
      Yields (operand a level room (ts ++ rest)) first mid ∧ Passes a level room mid links rest ∧
        group a level first links = e

variable {a : Associativity} {level : Level} {room limit n : Nat} {ts mid rest us : List Token} {e e' first : Expr}
  {links : List (BinOp × Expr)}

theorem Yields.unique {r : Except Halt (Parsed n)} (h : Yields r e rest) (h' : Yields r e' us) :
    e = e' := by
  obtain ⟨_, rfl⟩ := h
  obtain ⟨_, heq⟩ := h'
  exact congrArg Parsed.expr (Except.ok.inj heq)

/-! ### Chains -/

theorem chain_yields (hfind : Finds a room ts rest (.chain level) e)
    (hends : (Phrase.chain level).EndsBefore rest) : Yields (chain a level room (ts ++ rest)) e rest := by
  have hjoined : level.joined.EndsBefore rest := by
    intro o pos us hus
    have hrank := level.rank_joined
    have hlt : level.rank < o.level.rank := hends o pos us hus
    omega
  have hne : ∀ o pos us, rest = ⟨.op o, pos⟩ :: us → o.level ≠ level := by
    rintro o pos us hus rfl
    exact absurd (hends o pos us hus) (Nat.lt_irrefl _)
  obtain ⟨first, links, mid, ⟨hmid, hop⟩, hpass, rfl⟩ := hfind hjoined
  obtain ⟨hrest, hlinks⟩ := hpass _ first [] hmid
  refine ⟨hrest, ?_⟩
  rw [chain, hop]
  dsimp only
  rw [hlinks, chainLinks_end hne, List.append_nil, List.reverse_reverse]

theorem operand_yields (hfind : Finds a room ts rest level.joined e)
    (hends : level.joined.EndsBefore rest) : Yields (operand a level room (ts ++ rest)) e rest := by
  cases level with
  | sum =>
    rw [operand]
    exact chain_yields hfind hends
  | product =>
    rw [operand]
    exact chain_yields hfind hends
  | power =>
    rw [operand]
    exact hfind

/-- An operator of a chain ends the operand before it. -/
theorem joined_endsBefore_op (o : BinOp) (pos : Nat) (us : List Token) :
    o.level.joined.EndsBefore (⟨.op o, pos⟩ :: us) := by
  rintro o' pos' us' ⟨⟩
  have hrank := o.level.rank_joined
  omega

/-- One link is passed, and then the others. -/
theorem Passes.cons {o : BinOp} {pos : Nat} (hop : Yields (operand a o.level room us) e mid)
    (h : Passes a o.level room mid links rest) :
    Passes a o.level room (⟨.op o, pos⟩ :: us) ((o, e) :: links) rest := by
  intro n first found hlt
  obtain ⟨hmid, hop⟩ := hop
  have hlt' : mid.length < n := by
    rw [List.length_cons] at hlt
    omega
  obtain ⟨hrest, hlinks⟩ := h n first ((o, e) :: found) hlt'
  refine ⟨hrest, ?_⟩
  rw [chainLinks, if_pos rfl, hop]
  dsimp only
  rw [hlinks, List.reverse_cons, List.append_assoc]
  rfl

theorem Passes.nil : Passes a level room rest [] rest := fun _ _ _ h => ⟨h, rfl⟩

theorem Passes.trans {more : List (BinOp × Expr)} (h : Passes a level room mid links rest)
    (hmore : Passes a level room rest more us) : Passes a level room mid (links ++ more) us := by
  intro n first found hlt
  obtain ⟨hrest, hlinks⟩ := h n first found hlt
  obtain ⟨hus, hmore⟩ := hmore n first (links.reverse ++ found) hrest
  refine ⟨hus, ?_⟩
  rw [hlinks, hmore, List.reverse_append, List.append_assoc]

/-! ### Factors -/

theorem signs_add (m : Nat) (ts : List Token) : signs m ts = ((signs 0 ts).1 + m, (signs 0 ts).2) := by
  induction ts generalizing m with
  | nil => exact Prod.ext (Nat.zero_add m).symm rfl
  | cons t ts ih =>
    obtain ⟨symbol, pos⟩ := t
    cases symbol with
    | op o =>
      cases o with
      | add => exact ih m
      | sub =>
        show signs (m + 1) ts = ((signs 1 ts).1 + m, (signs 1 ts).2)
        rw [ih (m + 1), ih 1]
        refine Prod.ext ?_ rfl
        show (signs 0 ts).1 + (m + 1) = (signs 0 ts).1 + 1 + m
        omega
      | mul | div | mod | pow => exact Prod.ext (Nat.zero_add m).symm rfl
    | number | leftParen | rightParen | newline | finish => exact Prod.ext (Nat.zero_add m).symm rfl

/-- A factor is what its primary makes of it. -/
theorem factor_yields {m : Nat} (hsigns : signs 0 ts = (m, us))
    (h : Yields (primary a room us) e rest) : Yields (factor a room ts) (.negateTimes m e) rest := by
  obtain ⟨rfl, rfl⟩ := Prod.mk.inj hsigns
  obtain ⟨_, hp⟩ := h
  have hshort := length_signs_le 0 ts
  refine ⟨by omega, ?_⟩
  rw [factor, hp]

theorem primary_of_factor_yields (h : Yields (factor a room ts) e rest) :
    ∃ e', Yields (primary a room (signs 0 ts).2) e' rest ∧ e = .negateTimes (signs 0 ts).1 e' := by
  obtain ⟨_, hf⟩ := h
  rw [factor] at hf
  cases hp : primary a room (signs 0 ts).2 with
  | error h' =>
    rw [hp] at hf
    cases hf
  | ok p =>
    rw [hp] at hf
    obtain ⟨inner, us, hshort⟩ := p
    obtain ⟨rfl, rfl⟩ := Parsed.mk.inj (Except.ok.inj hf)
    exact ⟨inner, ⟨hshort, rfl⟩, rfl⟩

theorem factor_plus_yields {pos : Nat} (h : Yields (factor a room ts) e rest) :
    Yields (factor a room (⟨.op .add, pos⟩ :: ts)) e rest := by
  obtain ⟨inner, hp, rfl⟩ := primary_of_factor_yields h
  exact factor_yields rfl hp

theorem factor_minus_yields {pos : Nat} (h : Yields (factor a room ts) e rest) :
    Yields (factor a room (⟨.op .sub, pos⟩ :: ts)) e.negate rest := by
  obtain ⟨inner, hp, rfl⟩ := primary_of_factor_yields h
  rw [← Tree.negateTimes_succ']
  exact factor_yields (signs_add 1 ts) hp

theorem factor_number_yields (digits : String) (pos : Nat) :
    Yields (factor a room (⟨.number digits, pos⟩ :: rest)) (.literal digits) rest := by
  refine factor_yields (m := 0) rfl ⟨Nat.lt_succ_self _, ?_⟩
  rw [primary]

theorem factor_paren_yields {pos close : Nat}
    (h : Yields (chain a .sum room ts) e (⟨.rightParen, close⟩ :: rest)) :
    Yields (factor a (room + 1) (⟨.leftParen, pos⟩ :: ts)) e rest := by
  obtain ⟨hshort, hc⟩ := h
  rw [List.length_cons] at hshort
  refine factor_yields (m := 0) rfl ⟨?_, ?_⟩
  · rw [List.length_cons]
    omega
  · rw [primary, hc]
    rfl

/-! ### Phrases -/

theorem group_nil (first : Expr) : group a level first [] = first := by
  cases level with
  | sum | product => rfl
  | power => cases a <;> rfl

/-- **Every phrase is parsed with its tree**, with room for the parentheses in it. -/
theorem Derives.finds {ph : Phrase} {ss : List Symbol} (h : Derives a ph ss e) :
    ∀ room ts rest, ts.map Token.symbol = ss → depth 0 ss ≤ room → Finds a room ts rest ph e := by
  induction h with
  | single _ ih =>
    intro room ts rest hts hfit hends
    exact ⟨_, [], rest, operand_yields (ih room ts rest hts hfit) hends, .nil, group_nil _⟩
  | @linkLeft o _ _ _ r hside hl _ ihl ihr =>
    intro room ts rest hts hfit hends
    obtain ⟨ls, rs, rfl, hls, hrs⟩ := List.map_eq_append_iff.mp hts
    obtain ⟨pos, us, rfl, hus⟩ := exists_of_map_symbol_eq_cons hrs
    rw [hl.depth_link, Nat.max_le] at hfit
    have hop := operand_yields (ihr room us rest hus hfit.2) hends
    -- the shorter chain ends at the operator, and its links are passed before the last one
    obtain ⟨first, links, mid, hfirst, hpass, rfl⟩ :=
      ihl room ls (⟨.op o, pos⟩ :: (us ++ rest)) hls hfit.1 (joined_endsBefore_op o pos _)
    refine ⟨first, links ++ [(o, r)], mid, ?_, hpass.trans (.cons hop .nil), ?_⟩
    · rw [List.append_assoc]
      exact hfirst
    · rw [group_of_left hside, group_of_left hside, groupLeft, List.foldl_append]
      rfl
  | @linkRight o _ _ l _ hside hl _ ihl ihr =>
    intro room ts rest hts hfit hends
    obtain ⟨ls, rs, rfl, hls, hrs⟩ := List.map_eq_append_iff.mp hts
    obtain ⟨pos, us, rfl, hus⟩ := exists_of_map_symbol_eq_cons hrs
    rw [hl.depth_link, Nat.max_le] at hfit
    -- the first operand of the shorter chain becomes the first link of the longer one
    obtain ⟨first, links, mid, hfirst, hpass, rfl⟩ := ihr room us rest hus hfit.2 hends
    have hop := operand_yields (ihl room ls (⟨.op o, pos⟩ :: (us ++ rest)) hls hfit.1)
      (joined_endsBefore_op o pos _)
    refine ⟨l, (o, first) :: links, ⟨.op o, pos⟩ :: (us ++ rest), ?_, .cons hfirst hpass, ?_⟩
    · rw [List.append_assoc]
      exact hop
    · rw [group_of_right hside, group_of_right hside]
      rfl
  | plus _ ih =>
    intro room ts rest hts hfit
    obtain ⟨pos, us, rfl, hus⟩ := exists_of_map_symbol_eq_cons hts
    rw [depth_op] at hfit
    exact factor_plus_yields (ih room us rest hus hfit)
  | minus _ ih =>
    intro room ts rest hts hfit
    obtain ⟨pos, us, rfl, hus⟩ := exists_of_map_symbol_eq_cons hts
    rw [depth_op] at hfit
    exact factor_minus_yields (ih room us rest hus hfit)
  | number digits =>
    intro room ts rest hts _
    obtain ⟨pos, rfl⟩ := exists_of_map_symbol_eq_singleton hts
    exact factor_number_yields digits pos
  | paren hin ih =>
    intro room ts rest hts hfit
    obtain ⟨pos, us, rfl, hus⟩ := exists_of_map_symbol_eq_cons hts
    obtain ⟨inner, vs, rfl, hinner, hvs⟩ := List.map_eq_append_iff.mp hus
    obtain ⟨close, rfl⟩ := exists_of_map_symbol_eq_singleton hvs
    rw [hin.depth_paren] at hfit
    obtain ⟨room, rfl⟩ : ∃ k, room = k + 1 := ⟨room - 1, by omega⟩
    have hc := chain_yields (ih room inner (⟨.rightParen, close⟩ :: rest) hinner (by omega))
      (Phrase.endsBefore_rightParen _ close rest)
    have hinput : inner ++ [⟨.rightParen, close⟩] ++ rest = inner ++ ⟨.rightParen, close⟩ :: rest :=
      List.append_assoc ..
    rw [← hinput] at hc
    exact factor_paren_yields hc

/-! ### Texts -/

/-- What follows the sum of a text: newlines and the end. -/
theorem endOf_newlines {k : Nat} (h : ts.map Token.symbol = List.replicate k .newline ++ [.finish]) :
    (Phrase.chain .sum).EndsBefore ts ∧ endOf (ts.dropWhile (·.symbol = .newline)) = .ok () := by
  induction k generalizing ts with
  | zero =>
    obtain ⟨pos, rfl⟩ := exists_of_map_symbol_eq_singleton h
    exact ⟨nofun, rfl⟩
  | succ k ih =>
    obtain ⟨pos, us, rfl, hus⟩ := exists_of_map_symbol_eq_cons h
    exact ⟨nofun, (ih hus).2⟩

/-- The sum of a text is found, with room for its parentheses. -/
theorem chain_of_derivesText (h : DerivesText a (ts.map Token.symbol) e)
    (hfit : depth 0 (ts.map Token.symbol) ≤ room) :
    ∃ rest, Yields (chain a .sum room ts) e rest ∧
      endOf (rest.dropWhile (·.symbol = .newline)) = .ok () := by
  obtain ⟨body, k, hbody, hts⟩ := h
  rw [List.append_assoc] at hts
  obtain ⟨bs, rest, rfl, hbs, hrest⟩ := List.map_eq_append_iff.mp hts
  obtain ⟨hends, hend⟩ := endOf_newlines hrest
  rw [List.map_append, hbs, depth_append, Nat.max_le] at hfit
  exact ⟨rest, chain_yields (hbody.finds room bs rest hbs hfit.1) hends, hend⟩

theorem parseTokens_of_derivesText (h : DerivesText a (ts.map Token.symbol) e)
    (hfit : NestsWithin limit (ts.map Token.symbol)) : parseTokens limit a ts = .ok e := by
  obtain ⟨rest, ⟨hshort, hc⟩, hend⟩ := chain_of_derivesText h (nestsWithin_iff.mp hfit)
  rw [parseTokens_of_chain hc]
  dsimp only
  rw [hend]
  rfl

/-- No two trees are written with the same symbols. -/
theorem DerivesText.unique {ss : List Symbol} (h : DerivesText a ss e) (h' : DerivesText a ss e') :
    e = e' := by
  rw [← map_symbol_mk ss] at h h'
  obtain ⟨rest, hy, -⟩ := chain_of_derivesText h (Nat.le_refl _)
  obtain ⟨rest', hy', -⟩ := chain_of_derivesText h' (Nat.le_refl _)
  exact hy.unique hy'

end IntExpr
