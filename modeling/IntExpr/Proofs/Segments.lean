import IntExpr.Proofs.Descent
import IntExpr.Proofs.NestingLimit

/-!
# Segments — what the procedures of the parser take

A procedure that finds a tree has taken the tokens from where it started up to where it stopped: at least one of
them, all before the end of the text, none a newline, and with every parenthesis closed in its place
(`Balanced`).  Their symbols and the side to which powers group settle the tree (`Derives.unique`).

* `exists_drop`: the tokens that are taken are a phrase, and the tree is the phrase's.
* `read_eq_ok_iff`: it is so where they draw their tokens from a cursor.
* `lt_length_of_tooDeep`: only more parentheses than there is room for can halt a procedure for its nesting.
-/

namespace IntExpr

variable {a : Associativity} {p : Procedure} {ph : Phrase} {room n : Nat} {ss us : List Symbol}
  {ts rest : List Token} {e e' : Expr}

/-! ### Balanced symbols -/

/-- Each closing parenthesis closes one that is open, and none is left open. -/
structure Balanced (ss : List Symbol) : Prop where
  closed : ss.count .rightParen = ss.count .leftParen
  within : ∀ pre, pre <+: ss → pre.count .rightParen ≤ pre.count .leftParen

theorem prefix_of_append {pre : List Symbol} (h : pre <+: ss ++ us) :
    pre <+: ss ∨ ∃ more, more <+: us ∧ pre = ss ++ more := by
  obtain ⟨post, hpost⟩ := h
  rcases List.append_eq_append_iff.mp hpost with ⟨more, hss, -⟩ | ⟨more, hpre, hus⟩
  · exact .inl ⟨more, hss.symm⟩
  · exact .inr ⟨more, ⟨post, hus.symm⟩, hpre⟩

theorem Balanced.append (hss : Balanced ss) (hus : Balanced us) : Balanced (ss ++ us) := by
  constructor
  · rw [List.count_append, List.count_append, hss.closed, hus.closed]
  · intro pre hpre
    rcases prefix_of_append hpre with hpre | ⟨more, hmore, rfl⟩
    · exact hss.within pre hpre
    · rw [List.count_append, List.count_append, hss.closed]
      exact Nat.add_le_add_left (hus.within more hmore) _

theorem balanced_singleton {s : Symbol} (h : s.isParen = false) : Balanced [s] := by
  have hcount {pre : List Symbol} (hpre : pre <+: [s]) {x : Symbol} (hx : x.isParen = true) :
      pre.count x = 0 := by
    refine List.count_eq_zero.mpr fun hmem => ?_
    obtain rfl := List.mem_singleton.mp (hpre.mem hmem)
    rw [h] at hx
    cases hx
  refine ⟨?_, fun pre hpre => ?_⟩
  · rw [hcount (List.prefix_refl _) rfl, hcount (List.prefix_refl _) rfl]
  · rw [hcount hpre rfl]
    exact Nat.zero_le _

theorem Balanced.paren (h : Balanced ss) : Balanced (.leftParen :: (ss ++ [.rightParen])) := by
  refine ⟨by simp [h.closed], fun pre hpre => ?_⟩
  rcases List.prefix_cons_iff.mp hpre with rfl | ⟨inner, rfl, hinner⟩
  · exact Nat.le_refl 0
  rw [List.count_cons_of_ne (by decide), List.count_cons_self]
  rcases prefix_of_append hinner with hinner | ⟨more, hmore, rfl⟩
  · exact Nat.le_succ_of_le (h.within inner hinner)
  · have hlast : more.count .rightParen ≤ 1 := hmore.sublist.count_le _
    rw [List.count_append, List.count_append, h.closed]
    omega

theorem Derives.balanced (h : Derives a ph ss e) : Balanced ss := by
  induction h with
  | single _ ih => exact ih
  | linkLeft _ _ _ ihl ihr | linkRight _ _ _ ihl ihr =>
    exact ihl.append ((balanced_singleton rfl).append ihr)
  | plus _ ih | minus _ ih => exact (balanced_singleton rfl).append ih
  | number digits => exact balanced_singleton rfl
  | paren _ ih => exact ih.paren

/-! ### The phrase that a procedure reads -/

theorem Derives.sum (h : Derives a ph ss e) : Derives a (.chain .sum) ss e := by
  cases ph with
  | chain level => exact sum_of_chain level h
  | factor => exact h.chain_of_factor .sum

/-- Whatever phrase they are, the same symbols have the same tree. -/
theorem Derives.unique {ph' : Phrase} (h : Derives a ph ss e) (h' : Derives a ph' ss e') : e = e' :=
  DerivesText.unique ⟨ss, 0, h.sum, rfl⟩ ⟨ss, 0, h'.sum, rfl⟩

/-- The phrase that a procedure reads; a primary is a factor without signs. -/
def Procedure.target : Procedure → Phrase
  | .phrase ph => ph
  | .primary => .factor

theorem primary_does (hsign : ∀ o pos us, ts = ⟨.op o, pos⟩ :: us → o.level ≠ .sum) :
    Does a .factor room [] ts (primary a room ts) := by
  by_cases hnumber : ∃ digits pos us, ts = ⟨.number digits, pos⟩ :: us
  · obtain ⟨digits, pos, us, rfl⟩ := hnumber
    exact primary_number_does digits pos
  by_cases hopen : ∃ pos us, ts = ⟨.leftParen, pos⟩ :: us
  · obtain ⟨pos, us, rfl⟩ := hopen
    cases room with
    | zero => exact primary_tooDeep_does pos
    | succ room =>
      have hdoes := chain_does a .sum room us
      cases hc : chain a .sum room us with
      | error h => exact primary_inner_does hc hdoes
      | ok q => exact primary_paren_does hc hdoes
  · exact primary_refused_does hsign (fun d pos us h => hnumber ⟨d, pos, us, h⟩)
      fun pos us h => hopen ⟨pos, us, h⟩

/-- A procedure does what its phrase asks for, but a primary takes no sign. -/
theorem parsed_does (a : Associativity) (room : Nat) (ts : List Token) (p : Procedure) :
    Does a p.target room [] ts (p.parsed a room ts) ∨
      p.parsed a room ts = .error ⟨.operandExpected, ts⟩ := by
  cases p with
  | phrase ph =>
    cases ph with
    | chain level => exact .inl (chain_does a level room ts)
    | factor => exact .inl (factor_does (primary_does (signs_stop ts)))
  | primary =>
    rcases starts_or .sum ts with ⟨o, pos, us, rfl, -⟩ | hne
    · exact .inr (primary_refused (by simp) (by simp) a room)
    · exact .inl (primary_does hne)

theorem Does.of_ok {r : Except Halt (Parsed n)} (h : Does a ph room [] ts r)
    (hr : r.map Parsed.toPair = .ok (e, rest)) :
    ∃ read, ts = read ++ rest ∧ Derives a ph (read.map Token.symbol) e := by
  cases r with
  | error halt => cases hr
  | ok q =>
    obtain ⟨rfl, rfl⟩ := Prod.mk.inj (Except.ok.inj hr)
    obtain ⟨read, hread, hin⟩ := h
    exact ⟨read, hread, hin.derives⟩

/-- What a procedure takes is a phrase, and its tree is the phrase's. -/
theorem exists_drop (h : p.parse a room ts = .ok (e, rest)) :
    ∃ m, rest = ts.drop m ∧ m + rest.length = ts.length ∧
      Derives a p.target ((ts.take m).map Token.symbol) e := by
  rw [Procedure.parse] at h
  rcases parsed_does a room ts p with hdoes | hrefused
  · obtain ⟨read, rfl, hderives⟩ := hdoes.of_ok h
    refine ⟨read.length, List.drop_left.symm, List.length_append.symm, ?_⟩
    rw [List.take_left]
    exact hderives
  · rw [hrefused] at h
    cases h

theorem foldl_openAfter_le (n : Nat) (ss : List Symbol) : ss.foldl openAfter n ≤ n + ss.length := by
  induction ss generalizing n with
  | nil => exact Nat.le_refl n
  | cons s ss ih =>
    have hone : openAfter n s ≤ n + 1 := by
      cases s with
      | rightParen => exact (Nat.sub_le n 1).trans (Nat.le_succ n)
      | leftParen => exact Nat.le_refl _
      | number | op | newline | finish => exact Nat.le_succ n
    have hrest := ih (openAfter n s)
    rw [List.foldl_cons, List.length_cons]
    omega

theorem Does.of_tooDeep {r : Except Halt (Parsed n)} (h : Does a ph room [] ts r)
    (hr : r.map Parsed.toPair = .error ⟨.tooDeep, rest⟩) : room < ts.length := by
  cases r with
  | ok q => cases hr
  | error halt =>
    have hhalt : halt = ⟨.tooDeep, rest⟩ := Except.error.inj hr
    obtain ⟨read, rfl, -, hs⟩ := h
    obtain ⟨s, hreach, hin⟩ := hs []
    cases hin with
    | refused _ => exact absurd (congrArg Halt.reason hhalt) s.wanted_ne_tooDeep
    | tooDeep hmode hlength =>
      -- as many parentheses are open as there is room for, and each of them is a token
      have hopen : (read.map Token.symbol).foldl openAfter 0 = s.opened.length :=
        Pushdown.length_opened_of_reach hreach
      have hle := foldl_openAfter_le 0 (read.map Token.symbol)
      have hroom : s.opened.length = room := hlength
      rw [List.length_map] at hle
      rw [List.length_append, List.length_cons]
      omega

/-- Only more parentheses than there is room for halt a procedure for its nesting. -/
theorem lt_length_of_tooDeep (h : p.parse a room ts = .error ⟨.tooDeep, rest⟩) : room < ts.length := by
  rw [Procedure.parse] at h
  rcases parsed_does a room ts p with hdoes | hrefused
  · exact hdoes.of_tooDeep h
  · rw [hrefused] at h
    cases h

/-! ### Segments -/

/-- The symbols of `m` tokens from the `k`-th on. -/
def segment (all : List Token) (k m : Nat) : List Symbol := ((all.drop k).take m).map Token.symbol

/-- From the `k`-th token on, `m` of them stand on one line before the end of the text, and all their parentheses
are closed among them. -/
structure IsSegment (all : List Token) (k m : Nat) : Prop where
  pos : 0 < m
  /-- There is a token after them. -/
  lt_length : k + m < all.length
  balanced : Balanced (segment all k m)
  no_newline : .newline ∉ segment all k m
  no_finish : .finish ∉ segment all k m

variable {all all' : List Token} {p' : Procedure} {room' k m k' m' : Nat}

/-- Tokens up to the last one have its symbol among theirs. -/
theorem symbol_mem_segment {t : Token} (hlast : all.getLast? = some t) (hk : k < all.length)
    (hm : all.length ≤ k + m) : t.symbol ∈ segment all k m := by
  have hdrop : (all.drop k).getLast? = some t := by
    rw [List.getLast?_drop, if_neg (Nat.not_le.mpr hk), hlast]
  rw [segment, List.take_of_length_le (by rw [List.length_drop]; omega)]
  exact List.mem_map_of_mem (List.mem_of_getLast? hdrop)

theorem exists_segment {pos : Nat} (hend : all.getLast? = some ⟨.finish, pos⟩) (hk : k < all.length)
    (h : p.parse a room (all.drop k) = .ok (e, rest)) :
    ∃ m, rest = all.drop (k + m) ∧ IsSegment all k m := by
  obtain ⟨m, hrest, hlength, hderives⟩ := exists_drop h
  have hlt := Parsed.rest_lt h
  have hreach := Pushdown.reach_of_derives hderives ((all.drop k).take m) [] rfl
  have hfinish : .finish ∉ segment all k m := Pushdown.finish_not_mem_of_reach hreach
  refine ⟨m, ?_, by omega, ?_, hderives.balanced, Pushdown.not_newline_of_reach hreach nofun, hfinish⟩
  · rw [hrest, List.drop_drop]
  · exact Nat.lt_of_not_le fun hm => hfinish (symbol_mem_segment hend hk hm)

theorem derives_segment (h : p.parse a room (all.drop k) = .ok (e, all.drop (k + m))) :
    Derives a p.target (segment all k m) e := by
  rw [← List.drop_drop] at h
  obtain ⟨n, hdrop, -, hderives⟩ := exists_drop h
  have htake : (all.drop k).take m = (all.drop k).take n := by
    refine (List.append_left_inj ((all.drop k).drop m)).mp ?_
    rw [List.take_append_drop, hdrop, List.take_append_drop]
  rw [segment, htake]
  exact hderives

/-- What is taken settles the tree: neither the procedure nor the room for parentheses has a part in it, and
nothing that stands before or after. -/
theorem tree_eq_of_segment (h : p.parse a room (all.drop k) = .ok (e, all.drop (k + m)))
    (h' : p'.parse a room' (all'.drop k') = .ok (e', all'.drop (k' + m')))
    (hsegment : segment all' k' m' = segment all k m) : e' = e := by
  have hderives' := derives_segment h'
  rw [hsegment] at hderives'
  exact hderives'.unique (derives_segment h)

/-! ### Procedures that draw their tokens -/

/-- The outcome of a procedure that draws its tokens from a cursor. -/
def Procedure.read (a : Associativity) (room : Nat) (s : TokenStream) :
    Procedure → Except (Stop × TokenStream) (Expr × TokenStream)
  | .phrase (.chain level) => (readChain a level room s).map Read.toPair
  | .phrase .factor => (readFactor a room s).map Read.toPair
  | .primary => (readPrimary a room s).map Read.toPair

theorem Procedure.read_mirrors (a : Associativity) (room : Nat) (s : TokenStream) (p : Procedure) :
    Mirrors s (p.parse a room s.ahead.tokens) (p.read a room s) := by
  obtain ⟨hchain, -, -, hfactor, hprimary⟩ := grammar_mirrors a
  cases p with
  | phrase ph =>
    cases ph with
    | chain level => exact hchain level room s
    | factor => exact hfactor room s
  | primary => exact hprimary room s

/-- In a text that goes on to its end a procedure finds the same tree in the cursor as in the tokens ahead of it,
and leaves the cursor in front of the tokens that are left. -/
theorem read_eq_ok_iff {s : TokenStream} {pos : Nat} (hend : all.getLast? = some ⟨.finish, pos⟩)
    (hk : k < all.length) (hahead : s.ahead.tokens = all.drop k) :
    (∃ s', p.read a room s = .ok (e, s') ∧ s'.ahead.tokens = rest) ↔
      p.parse a room (all.drop k) = .ok (e, rest) := by
  have hmirrors := Procedure.read_mirrors a room s p
  rw [hahead] at hmirrors
  constructor
  · rintro ⟨s', hread, rfl⟩
    rw [hread] at hmirrors
    obtain ⟨_, _, hparse, -, rfl⟩ := hmirrors.of_ok
    exact hparse
  · intro hparse
    obtain ⟨m, hrest, hsegment⟩ := exists_segment hend hk hparse
    rw [hparse] at hmirrors
    generalize p.read a room s = found at hmirrors ⊢
    cases hmirrors with
    | found _ htokens => exact ⟨_, rfl, htokens⟩
    | cutShort =>
      -- the end of the text is still ahead
      have hlt := hsegment.lt_length
      have hlength := congrArg List.length hrest
      rw [List.length_nil, List.length_drop] at hlength
      omega

/-- **Every procedure, started at any token of a text, ends.**  If it finds a tree, it has taken a segment of the
text and stands at the token after it, and whoever takes the same symbols finds the same tree; a cursor in front
of these tokens is left in front of the token after the segment.  Room for as many parentheses as there are tokens
is not used up.  No procedure is called again, and no loop over the tokens takes another turn, before a token was
taken; so no call calls on forever, and the parser has its answer for the whole text. -/
theorem procedures_take_segments (limit : Nat) (a : Associativity) (p : Procedure) (room : Nat) {pos : Nat}
    (hend : all.getLast? = some ⟨.finish, pos⟩) (hk : k < all.length) :
    (∀ r, Ends a (.procedure p room (all.drop k)) r ↔ p.parse a room (all.drop k) = r) ∧
    (∀ e rest, p.parse a room (all.drop k) = .ok (e, rest) →
      ∃ m, rest = all.drop (k + m) ∧ IsSegment all k m ∧
        ∀ (p' : Procedure) (room' : Nat) (all' : List Token) (k' m' : Nat) (e' : Expr),
          p'.parse a room' (all'.drop k') = .ok (e', all'.drop (k' + m')) →
          segment all' k' m' = segment all k m → e' = e) ∧
    (∀ s : TokenStream, s.ahead.tokens = all.drop k → ∀ e rest,
      (∃ s', p.read a room s = .ok (e, s') ∧ s'.ahead.tokens = rest) ↔
        p.parse a room (all.drop k) = .ok (e, rest)) ∧
    (∀ rest, p.parse a room (all.drop k) = .error ⟨.tooDeep, rest⟩ → room < (all.drop k).length) ∧
    (∀ c d, Relation.TransGen (Calls a) c d → c.kind = d.kind → d.tokens.length < c.tokens.length) ∧
    (WellFounded fun d c => Calls a c d) ∧
    ∃ r, Ends a (.text limit all) r ∧ r.map Prod.fst = parseTokens limit a all := by
  refine ⟨fun r => ends_iff, ?_, fun s hahead e rest => read_eq_ok_iff hend hk hahead,
    fun rest => lt_length_of_tooDeep, fun c d => length_lt_of_transGen_calls, wellFounded_calls a,
    ends_text limit a all⟩
  intro e rest h
  obtain ⟨m, rfl, hsegment⟩ := exists_segment hend hk h
  exact ⟨m, rfl, hsegment, fun p' room' all' k' m' e' => tree_eq_of_segment h⟩

/-- The factor after the sign of `-(2+3)` is the five tokens up to the end. -/
theorem procedures_take_segments_of_parens :
    let all : List Token := [⟨.op .sub, 0⟩, ⟨.leftParen, 1⟩, ⟨.number "2", 2⟩, ⟨.op .add, 3⟩,
      ⟨.number "3", 4⟩, ⟨.rightParen, 5⟩, ⟨.finish, 6⟩]
    all.getLast? = some ⟨.finish, 6⟩ ∧ 1 < all.length ∧
      (Procedure.phrase .factor).parse .left 1 (all.drop 1) =
        .ok (.binary .add (.literal "2") (.literal "3"), all.drop 6) ∧ IsSegment all 1 5 := by
  intro all
  have hsum : Derives .left (.chain .sum) [.number "2", .op .add, .number "3"] _ :=
    Derives.link_factors .add (.number "2") (.number "3")
  have hparse : (Procedure.phrase .factor).parse .left 1 (all.drop 1) =
      .ok (.binary .add (.literal "2") (.literal "3"), all.drop 6) := by
    obtain ⟨_, hfactor⟩ := hsum.paren.finds 1 [⟨.leftParen, 1⟩, ⟨.number "2", 2⟩, ⟨.op .add, 3⟩,
      ⟨.number "3", 4⟩, ⟨.rightParen, 5⟩] [⟨.finish, 6⟩] rfl (by decide)
    exact congrArg (Except.map Parsed.toPair) hfactor
  have hend : all.getLast? = some ⟨.finish, 6⟩ := rfl
  have hk : 1 < all.length := by decide
  obtain ⟨m, hrest, hsegment, -⟩ :=
    (procedures_take_segments 1 .left (.phrase .factor) 1 hend hk).2.1 _ _ hparse
  have hm : m = 5 := by
    have hlength : (all.drop 6).length = (all.drop (1 + m)).length := congrArg List.length hrest
    have hlt : 1 + m < 7 := hsegment.lt_length
    have hall : all.length = 7 := rfl
    rw [List.length_drop, List.length_drop, hall] at hlength
    omega
  exact ⟨hend, hk, hparse, hm ▸ hsegment⟩

end IntExpr
