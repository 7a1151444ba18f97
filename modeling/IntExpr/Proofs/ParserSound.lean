import IntExpr.Proofs.TokenParser
import IntExpr.Proofs.Pushdown

/-!
# ParserSound — what the parser reads, and where it stops

Every procedure of the parser does the same (`Does`): it reads a phrase with its tree and stops where
the phrase cannot go on, or it halts where the pushdown machine refuses a token or finds one
parenthesis too many.  There is one lemma for each branch of a procedure; `chain_does` joins them by
the recursion of the procedures.

The links of a chain are found from the left (`Links`), the grammar may group them from the right;
`Links.derives` is where the two meet.
-/

namespace IntExpr

open Pushdown (State Goes reach step)

/-- The highest place of the operators within a phrase. -/
def Phrase.rank : Phrase → Nat
  | .chain level => level.rank
  | .factor => 0

/-- A phrase in front of `rest` does not go on with it. -/
def Phrase.EndsBefore (ph : Phrase) (rest : List Token) : Prop :=
  ∀ o pos us, rest = ⟨.op o, pos⟩ :: us → ph.rank < o.level.rank

/-- What the machine wants, as a reason to stop. -/
def Pushdown.State.wanted (s : State) : Reason :=
  match s.mode, s.opened with
  | .operand, _ => .operandExpected
  | .operator, p :: _ => .closingExpected p
  | .operator, [] => .endExpected
  | .tail, _ => .endExpected

theorem Pushdown.State.wanted_ne_tooDeep (s : State) : s.wanted ≠ .tooDeep := by
  obtain ⟨mode, opened⟩ := s
  cases mode with
  | operand | tail => nofun
  | operator => cases opened <;> nofun

/-- A parse that halted at `h` left the machine in `s`: no token is left or the next one is refused,
or else it is a parenthesis with `limit` of them open. -/
inductive HaltsIn (limit : Nat) (s : State) : Halt → Prop
  | refused {rest : List Token} :
    (∀ t us, rest = t :: us → step s t = .refuse) → HaltsIn limit s ⟨s.wanted, rest⟩
  | tooDeep {pos : Nat} {us : List Token} :
    s.mode = .operand → s.opened.length = limit → HaltsIn limit s ⟨.tooDeep, ⟨.leftParen, pos⟩ :: us⟩

/-- The tokens `read` are a phrase with the tree `e`, and `rest` does not go on with it. -/
structure Reads (a : Associativity) (ph : Phrase) (room : Nat) (read rest : List Token) (e : Expr) :
    Prop where
  derives : Derives a ph (read.map Token.symbol) e
  fits : depth 0 (read.map Token.symbol) ≤ room
  ends : ph.EndsBefore rest

/-- What a parse of a phrase does with the tokens `ts`, when `before` was read before them. -/
def Does (a : Associativity) (ph : Phrase) (room : Nat) (before ts : List Token) {n : Nat} :
    Except Halt (Parsed n) → Prop
  | .ok p => ∃ read, ts = read ++ p.rest ∧ Reads a ph room (before ++ read) p.rest p.expr
  | .error h => ∃ read, ts = read ++ h.rest ∧ depth 0 ((before ++ read).map Token.symbol) ≤ room ∧
      ∀ opened, ∃ s, reach ⟨.operand, opened⟩ (before ++ read) = some s ∧
        HaltsIn (room + opened.length) s h

variable {a : Associativity} {ph : Phrase} {level : Level} {room n : Nat} {before read rest : List Token}
  {ts : List Token} {r : Except Halt (Parsed n)} {first e : Expr}

theorem Phrase.endsBefore_rightParen (ph : Phrase) (pos : Nat) (rest : List Token) :
    ph.EndsBefore (⟨.rightParen, pos⟩ :: rest) := nofun

theorem Phrase.endsBefore_factor (rest : List Token) : Phrase.factor.EndsBefore rest :=
  fun o _ _ _ => by cases o <;> decide

/-- What is done after some tokens is done with them in front. -/
theorem Does.append (hts : ts = read ++ rest) (h : Does a ph room (before ++ read) rest r) :
    Does a ph room before ts r := by
  subst hts
  cases r with
  | ok p =>
    obtain ⟨us, rfl, hus⟩ := h
    exact ⟨read ++ us, by rw [List.append_assoc], by rw [← List.append_assoc]; exact hus⟩
  | error h' =>
    obtain ⟨us, rfl, hus⟩ := h
    refine ⟨read ++ us, by rw [List.append_assoc], ?_⟩
    rw [← List.append_assoc]
    exact hus

/-! ### Numbers, parentheses and signs -/

theorem primary_number_does (digits : String) (pos : Nat) :
    Does a .factor room [] (⟨.number digits, pos⟩ :: rest)
      (primary a room (⟨.number digits, pos⟩ :: rest)) := by
  rw [primary]
  exact ⟨[⟨.number digits, pos⟩], rfl, .number digits, Nat.zero_le _, Phrase.endsBefore_factor rest⟩

theorem primary_tooDeep_does (pos : Nat) :
    Does a .factor 0 [] (⟨.leftParen, pos⟩ :: rest) (primary a 0 (⟨.leftParen, pos⟩ :: rest)) := by
  rw [primary]
  exact ⟨[], rfl, Nat.le_refl 0, fun opened => ⟨_, rfl, .tooDeep rfl (Nat.zero_add _).symm⟩⟩

/-- An opening parenthesis leaves room for one parenthesis less. -/
theorem depth_leftParen_le (pos : Nat) (h : depth 0 (read.map Token.symbol) ≤ room) :
    depth 0 ((⟨.leftParen, pos⟩ :: read).map Token.symbol) ≤ room + 1 := by
  have hsucc := depth_succ_le 0 (read.map Token.symbol)
  rw [List.map_cons, depth, openAfter]
  omega

/-- A halt within parentheses is a halt of the whole, with one more parenthesis open. -/
theorem primary_inner_does {pos : Nat} {h : Halt} (hc : chain a .sum room rest = .error h)
    (hdoes : Does a (.chain .sum) room [] rest (chain a .sum room rest)) :
    Does a .factor (room + 1) [] (⟨.leftParen, pos⟩ :: rest)
      (primary a (room + 1) (⟨.leftParen, pos⟩ :: rest)) := by
  rw [primary, hc]
  rw [hc] at hdoes
  obtain ⟨read, hread, hfits, hs⟩ := hdoes
  refine ⟨⟨.leftParen, pos⟩ :: read, by rw [hread]; rfl, depth_leftParen_le pos hfits,
    fun opened => ?_⟩
  obtain ⟨s, hreach, hhalt⟩ := hs (pos :: opened)
  refine ⟨s, (Pushdown.reach_cons .push _).trans hreach, ?_⟩
  have hlimit : room + (pos :: opened).length = room + 1 + opened.length := by
    rw [List.length_cons]; omega
  exact hlimit ▸ hhalt

theorem not_op_of_endsBefore_sum (h : (Phrase.chain .sum).EndsBefore rest) (o : BinOp) (pos : Nat)
    (us : List Token) : rest ≠ ⟨.op o, pos⟩ :: us := by
  intro hrest
  have hlt : Level.sum.rank < o.level.rank := h o pos us hrest
  cases o <;> exact absurd hlt (by decide)

/-- Without a closing parenthesis or an operator, the machine stops within parentheses. -/
theorem refuses_within {p : Nat} {opened : List Nat} {t : Token}
    (hop : ∀ o, t.symbol ≠ .op o) (hclose : t.symbol ≠ .rightParen) :
    step ⟨.operator, p :: opened⟩ t = .refuse := by
  obtain ⟨symbol, pos⟩ := t
  cases symbol with
  | op o => exact absurd rfl (hop o)
  | rightParen => exact absurd rfl hclose
  | number | leftParen | newline | finish => rfl

/-- After a sum in parentheses, the closing one is taken, or nothing else can be. -/
theorem closeParen_does (pos : Nat) {us : List Token} (hin : Reads a (.chain .sum) room read us e)
    (shorter : us.length < n) :
    Does a .factor (room + 1) [] (⟨.leftParen, pos⟩ :: (read ++ us)) (closeParen pos e us shorter) := by
  have hop := not_op_of_endsBefore_sum hin.ends
  have hstuck (hne : ∀ q vs, us ≠ ⟨.rightParen, q⟩ :: vs) :
      Does (n := n + 1) a .factor (room + 1) [] (⟨.leftParen, pos⟩ :: (read ++ us))
        (.error ⟨.closingExpected pos, us⟩) := by
    refine ⟨⟨.leftParen, pos⟩ :: read, rfl, depth_leftParen_le pos hin.fits, fun opened => ?_⟩
    refine ⟨⟨.operator, pos :: opened⟩, ?_, .refused ?_⟩
    · exact (Pushdown.reach_cons .push _).trans (Pushdown.reach_of_derives hin.derives _ _ rfl)
    · rintro ⟨symbol, q⟩ vs rfl
      refine refuses_within (fun o ho => ?_) fun hc => ?_
      · exact hop o q vs (by rw [← ho])
      · exact hne q vs (by rw [← hc])
  cases us with
  | nil => exact hstuck nofun
  | cons t us =>
    obtain ⟨symbol, q⟩ := t
    cases symbol with
    | rightParen =>
      have hdepth := hin.derives.depth_paren
      refine ⟨⟨.leftParen, pos⟩ :: (read ++ [⟨.rightParen, q⟩]), by simp, ?_, ?_, ?_⟩
      · simpa using hin.derives.paren
      · have hfits := hin.fits
        simp only [List.nil_append, List.map_cons, List.map_append, List.map_nil]
        omega
      · exact Phrase.endsBefore_factor us
    | number | op | leftParen | newline | finish => exact hstuck nofun

theorem primary_paren_does {pos : Nat} {p : Parsed rest.length}
    (hc : chain a .sum room rest = .ok p)
    (hdoes : Does a (.chain .sum) room [] rest (chain a .sum room rest)) :
    Does a .factor (room + 1) [] (⟨.leftParen, pos⟩ :: rest)
      (primary a (room + 1) (⟨.leftParen, pos⟩ :: rest)) := by
  rw [primary, hc]
  rw [hc] at hdoes
  obtain ⟨read, hread, hin⟩ := hdoes
  have h := closeParen_does pos hin p.shorter
  rw [List.nil_append, ← hread] at h
  exact h

theorem primary_refused_does {ts : List Token} (hsign : ∀ o pos us, ts = ⟨.op o, pos⟩ :: us → o.level ≠ .sum)
    (hnumber : ∀ d pos us, ts ≠ ⟨.number d, pos⟩ :: us)
    (hopen : ∀ pos us, ts ≠ ⟨.leftParen, pos⟩ :: us) :
    Does a .factor room [] ts (primary a room ts) := by
  have hstuck : Does (n := ts.length) a .factor room [] ts (.error ⟨.operandExpected, ts⟩) := by
    refine ⟨[], rfl, Nat.zero_le _, fun opened => ⟨⟨.operand, opened⟩, rfl, .refused ?_⟩⟩
    rintro ⟨symbol, pos⟩ us rfl
    cases symbol with
    | op o => simp [step, hsign o pos us rfl]
    | number d => exact absurd rfl (hnumber d pos us)
    | leftParen => exact absurd rfl (hopen pos us)
    | rightParen | newline | finish => rfl
  rw [primary.eq_def]
  split
  · exact absurd rfl (hnumber _ _ _)
  · exact absurd rfl (hopen _ _)
  · exact hstuck

/-! ### Signs -/

/-- A run of signs, so many of them minus. -/
inductive SignRun : Nat → List Token → Prop
  | nil : SignRun 0 []
  | plus {n pos : Nat} {ts : List Token} : SignRun n ts → SignRun n (⟨.op .add, pos⟩ :: ts)
  | minus {n pos : Nat} {ts : List Token} : SignRun n ts → SignRun (n + 1) (⟨.op .sub, pos⟩ :: ts)

/-- `signs` takes all the signs there are. -/
theorem exists_signRun (m : Nat) (ts : List Token) : ∃ n run, SignRun n run ∧
    signs m ts = (m + n, (signs m ts).2) ∧ ts = run ++ (signs m ts).2 ∧
    ∀ o pos us, (signs m ts).2 = ⟨.op o, pos⟩ :: us → o.level ≠ .sum := by
  fun_induction signs m ts with
  | case1 m pos rest ih =>
    obtain ⟨n, run, hrun, hsigns, hrest, hstop⟩ := ih
    refine ⟨n + 1, ⟨.op .sub, pos⟩ :: run, hrun.minus, ?_, congrArg _ hrest, hstop⟩
    rw [hsigns]
    congr 1
    omega
  | case2 m pos rest ih =>
    obtain ⟨n, run, hrun, hsigns, hrest, hstop⟩ := ih
    exact ⟨n, ⟨.op .add, pos⟩ :: run, hrun.plus, hsigns, congrArg _ hrest, hstop⟩
  | case3 m ts hminus hplus =>
    refine ⟨0, [], .nil, rfl, rfl, ?_⟩
    rintro o pos us rfl
    cases o with
    | add => exact absurd rfl (hplus pos us)
    | sub => exact absurd rfl (hminus pos us)
    | mul | div | mod | pow => decide

namespace SignRun

variable {run : List Token}

theorem derives (h : SignRun n run) {ss : List Symbol} (hss : Derives a .factor ss e) :
    Derives a .factor (run.map Token.symbol ++ ss) (.negateTimes n e) := by
  induction h with
  | nil => exact hss
  | plus _ ih => exact ih.plus
  | minus _ ih =>
    rw [Tree.negateTimes_succ']
    exact ih.minus

theorem depth_append (h : SignRun n run) (ss : List Symbol) :
    depth 0 (run.map Token.symbol ++ ss) = depth 0 ss := by
  induction h with
  | nil => rfl
  | plus _ ih | minus _ ih => exact (depth_op 0 _ _).trans ih

theorem reach (h : SignRun n run) (opened : List Nat) (us : List Token) :
    reach ⟨.operand, opened⟩ (run ++ us) = Pushdown.reach ⟨.operand, opened⟩ us := by
  induction h with
  | nil => rfl
  | plus _ ih | minus _ ih => exact (Pushdown.reach_cons (.sign rfl) _).trans ih

end SignRun

theorem factor_does
    (hdoes : Does a .factor room [] (signs 0 ts).2 (primary a room (signs 0 ts).2)) :
    Does a .factor room [] ts (factor a room ts) := by
  obtain ⟨m, run, hrun, hsigns, hts, -⟩ := exists_signRun 0 ts
  rw [factor]
  cases hp : primary a room (signs 0 ts).2 with
  | error h =>
    rw [hp] at hdoes
    obtain ⟨read, hread, hfits, hs⟩ := hdoes
    refine ⟨run ++ read, by rw [hts, hread, List.append_assoc], ?_, fun opened => ?_⟩
    · rw [List.nil_append, List.map_append, hrun.depth_append]
      exact hfits
    obtain ⟨s, hreach, hhalt⟩ := hs opened
    exact ⟨s, (hrun.reach opened read).trans hreach, hhalt⟩
  | ok p =>
    rw [hp] at hdoes
    obtain ⟨read, hread, hin⟩ := hdoes
    have hm : (signs 0 ts).1 = m := by rw [hsigns]; exact Nat.zero_add m
    have hrest : run ++ (signs 0 ts).2 = run ++ read ++ p.rest := by
      rw [List.append_assoc]
      exact congrArg (run ++ ·) hread
    refine ⟨run ++ read, hts.trans hrest, ?_, ?_, hin.ends⟩
    · rw [List.nil_append, List.map_append, hm]
      exact hrun.derives hin.derives
    · rw [List.nil_append, List.map_append, hrun.depth_append]
      exact hin.fits

/-! ### Chains -/

theorem group_of_left (hside : a.side level = .left) (first : Expr) (links : List (BinOp × Expr)) :
    group a level first links = groupLeft first links := by
  cases level with
  | sum | product => rfl
  | power =>
    obtain rfl : a = .left := hside
    rfl

theorem group_of_right (hside : a.side level = .right) (first : Expr) (links : List (BinOp × Expr)) :
    group a level first links = groupRight first links := by
  cases level with
  | sum | product => nomatch hside
  | power =>
    obtain rfl : a = .right := hside
    rfl

/-- The first operand of a chain and, in reverse, some links after it, as they are read. -/
inductive Links (a : Associativity) (level : Level) :
    List Symbol → Expr → List (BinOp × Expr) → Prop
  | first {ss : List Symbol} {e : Expr} : Derives a level.joined ss e → Links a level ss e []
  | snoc {ss us : List Symbol} {o : BinOp} {first e : Expr} {found : List (BinOp × Expr)} :
    Links a level ss first found → o.level = level → Derives a level.joined us e →
    Links a level (ss ++ .op o :: us) first ((o, e) :: found)

namespace Links

variable {ss us : List Symbol} {found links : List (BinOp × Expr)} {o : BinOp}

theorem derives_left (hside : a.side level = .left) (h : Links a level ss first found) :
    Derives a (.chain level) ss (groupLeft first found.reverse) := by
  induction h with
  | first hss => exact .single hss
  | snoc _ ho hus ih =>
    subst ho
    rw [List.reverse_cons, groupLeft, List.foldl_append]
    exact .linkLeft hside ih hus

/-- Links that are found from the left are grouped from the right: what was found last groups with
all that is still to come. -/
theorem derives_right_append (hside : a.side level = .right) (h : Links a level ss first found)
    (ho : o.level = level) (hus : Derives a (.chain level) us (groupRight e links)) :
    Derives a (.chain level) (ss ++ .op o :: us)
      (groupRight first (found.reverse ++ (o, e) :: links)) := by
  induction h generalizing us o e links with
  | first hss =>
    subst ho
    exact .linkRight hside hss hus
  | snoc _ ho' hvs ih =>
    rw [List.append_assoc, List.reverse_cons, List.append_assoc]
    refine ih ho' ?_
    subst ho
    exact .linkRight hside hvs hus

theorem derives_right (hside : a.side level = .right) (h : Links a level ss first found) :
    Derives a (.chain level) ss (groupRight first found.reverse) := by
  cases h with
  | first hss => exact .single hss
  | snoc hss ho hus =>
    rw [List.reverse_cons]
    exact hss.derives_right_append hside ho (.single hus)

theorem derives (h : Links a level ss first found) :
    Derives a (.chain level) ss (group a level first found.reverse) := by
  cases hside : a.side level with
  | left => exact group_of_left hside first _ ▸ h.derives_left hside
  | right => exact group_of_right hside first _ ▸ h.derives_right hside

end Links

theorem Level.rank_joined (level : Level) : level.joined.rank + 1 = level.rank := by
  cases level <;> rfl

theorem rank_injective {l m : Level} (h : l.rank = m.rank) : l = m := by
  cases l <;> cases m <;> first | rfl | nomatch h

/-- A chain ends where its operands do and no operator of its level follows. -/
theorem endsBefore_chain {us : List Token} (h : level.joined.EndsBefore us)
    (hne : ∀ o pos vs, us = ⟨.op o, pos⟩ :: vs → o.level ≠ level) :
    (Phrase.chain level).EndsBefore us := by
  intro o pos vs hus
  have hlt : level.joined.rank < o.level.rank := h o pos vs hus
  have hrank := level.rank_joined
  have hne' : o.level.rank ≠ level.rank := fun heq => hne o pos vs hus (rank_injective heq)
  show level.rank < o.level.rank
  omega

/-- Where no operator of the level follows, a chain is what was found of it. -/
theorem links_end_does {us : List Token} {found : List (BinOp × Expr)}
    (hlinks : Links a level (before.map Token.symbol) first found)
    (hfits : depth 0 (before.map Token.symbol) ≤ room) (hends : level.joined.EndsBefore us)
    (hne : ∀ o pos vs, us = ⟨.op o, pos⟩ :: vs → o.level ≠ level) (shorter : us.length < n) :
    Does (n := n) a (.chain level) room before us
      (.ok ⟨group a level first found.reverse, us, shorter⟩) := by
  refine ⟨[], rfl, ?_, ?_, endsBefore_chain hends hne⟩
  · rw [List.append_nil]
    exact hlinks.derives
  · rw [List.append_nil]
    exact hfits

/-- A halt in an operand halts the chain: the machine has read the links before it. -/
theorem links_halt_does {o : BinOp} {pos : Nat} {h : Halt} {found : List (BinOp × Expr)} {m : Nat}
    (hlinks : Links a o.level (before.map Token.symbol) first found)
    (hfits : depth 0 (before.map Token.symbol) ≤ room)
    (hdoes : Does (n := m) a o.level.joined room [] rest (.error h)) :
    Does (n := n) a (.chain o.level) room before (⟨.op o, pos⟩ :: rest) (.error h) := by
  obtain ⟨read, hread, hfits', hs⟩ := hdoes
  refine ⟨⟨.op o, pos⟩ :: read, by rw [hread]; rfl, ?_, fun opened => ?_⟩
  · rw [List.map_append, List.map_cons, hlinks.derives.depth_link]
    exact Nat.max_le.mpr ⟨hfits, hfits'⟩
  obtain ⟨s, hreach, hhalt⟩ := hs opened
  refine ⟨s, ?_, hhalt⟩
  rw [Pushdown.reach_append (Pushdown.reach_of_derives hlinks.derives before opened rfl),
    Pushdown.reach_cons .op]
  exact hreach

theorem links_snoc {o : BinOp} (pos : Nat) {us : List Token} {found : List (BinOp × Expr)}
    (hlinks : Links a o.level (before.map Token.symbol) first found)
    (hfits : depth 0 (before.map Token.symbol) ≤ room)
    (hin : Reads a o.level.joined room read us e) :
    Links a o.level ((before ++ ⟨.op o, pos⟩ :: read).map Token.symbol) first ((o, e) :: found) ∧
      depth 0 ((before ++ ⟨.op o, pos⟩ :: read).map Token.symbol) ≤ room := by
  rw [List.map_append, List.map_cons]
  refine ⟨hlinks.snoc rfl hin.derives, ?_⟩
  rw [hlinks.derives.depth_link]
  exact Nat.max_le.mpr ⟨hfits, hin.fits⟩

/-! ### All procedures together -/

theorem signs_stop (ts : List Token) (o : BinOp) (pos : Nat) (us : List Token)
    (h : (signs 0 ts).2 = ⟨.op o, pos⟩ :: us) : o.level ≠ .sum := by
  obtain ⟨n, run, -, -, -, hstop⟩ := exists_signRun 0 ts
  exact hstop o pos us h

/-- **A chain is parsed as the grammar has it**, or the parse halts where the machine does.  The
induction is the recursion of the procedures; a chain of which some links are found carries them. -/
theorem chain_does (a : Associativity) (level : Level) (room : Nat) (ts : List Token) :
    Does a (.chain level) room [] ts (chain a level room ts) := by
  -- only `chainLinks` starts in the middle of a phrase, after `before`
  refine chain.induct a
    (fun level room ts => Does a (.chain level) room [] ts (chain a level room ts))
    (fun n level room first found ts shorter => ∀ before,
      Links a level (before.map Token.symbol) first found →
      depth 0 (before.map Token.symbol) ≤ room → level.joined.EndsBefore ts →
      Does a (.chain level) room before ts (chainLinks a level room first found ts shorter))
    (fun level room ts => Does a level.joined room [] ts (operand a level room ts))
    (fun room ts => Does a .factor room [] ts (factor a room ts))
    (fun room ts => (∀ o pos us, ts = ⟨.op o, pos⟩ :: us → o.level ≠ .sum) →
      Does a .factor room [] ts (primary a room ts))
    ?first_halts ?first ?link_halts ?link ?link_other ?link_none ?sum ?product ?power ?factor_halts
    ?factor ?number ?tooDeep ?inner_halts ?paren ?refused level room ts
  case first_halts =>
    intro level room ts h hop hdoes
    rw [hop] at hdoes
    rw [chain, hop]
    exact hdoes
  case first =>
    intro level room ts p hop hdoes hlinks
    rw [hop] at hdoes
    obtain ⟨read, hread, hin⟩ := hdoes
    rw [chain, hop]
    exact Does.append hread (hlinks ([] ++ read) (.first hin.derives) hin.fits hin.ends)
  case link_halts =>
    intro n room first found o pos rest shorter h hop _ hdoes before hlinks hfits hends
    rw [hop] at hdoes
    rw [chainLinks, if_pos rfl, hop]
    exact links_halt_does hlinks hfits hdoes
  case link =>
    intro n room first found o pos rest shorter p hop _ hdoes hafter before hlinks hfits hends
    rw [hop] at hdoes
    obtain ⟨read, hread, hin⟩ := hdoes
    obtain ⟨hlinks', hfits'⟩ := links_snoc pos hlinks hfits hin
    rw [chainLinks, if_pos rfl, hop]
    exact Does.append (congrArg (⟨.op o, pos⟩ :: ·) hread) (hafter _ hlinks' hfits' hin.ends)
  case link_other =>
    intro n level room first found o pos rest shorter ho _ before hlinks hfits hends
    rw [chainLinks, if_neg ho]
    refine links_end_does hlinks hfits hends ?_ shorter
    rintro o' pos' us ⟨⟩
    exact ho
  case link_none =>
    intro n level room first found ts shorter hop _ before hlinks hfits hends
    -- `shorter` speaks of the tokens, so that the case `hop` excludes is one up to their equality
    rw [chainLinks.eq_def]
    split
    · exact (hop _ _ _ _ rfl HEq.rfl).elim
    · refine links_end_does hlinks hfits hends ?_ _
      rintro o pos us rfl
      exact (hop o pos us _ rfl HEq.rfl).elim
  case sum =>
    intro room ts hdoes
    rw [operand]
    exact hdoes
  case product =>
    intro room ts hdoes
    rw [operand]
    exact hdoes
  case power =>
    intro room ts hdoes
    rw [operand]
    exact hdoes
  case factor_halts =>
    intro room ts h _ hdoes
    exact factor_does (hdoes (signs_stop ts))
  case factor =>
    intro room ts p _ hdoes
    exact factor_does (hdoes (signs_stop ts))
  case number =>
    intro room digits pos rest _
    exact primary_number_does digits pos
  case tooDeep =>
    intro pos rest _
    exact primary_tooDeep_does pos
  case inner_halts =>
    intro pos rest room h hc hdoes _
    exact primary_inner_does hc hdoes
  case paren =>
    intro pos rest room p hc hdoes _
    exact primary_paren_does hc hdoes
  case refused =>
    intro room ts hnumber hopen hsign
    exact primary_refused_does hsign (fun d pos us h => hnumber d pos us h) fun pos us h => hopen pos us h

end IntExpr
