import IntExpr.Proofs.Lookahead
import IntExpr.Proofs.TokenParser

/-!
# Pulling — the parser draws its tokens from a cursor

Each procedure does with a cursor what it does with the list of the tokens ahead of it (`Mirrors`).
Where these tokens run out, a character is in the way that is not let past; the list alone does not
show it, and goes on to the place where the next token would be looked at.  There is one lemma for each
branch of a procedure, and `grammar_mirrors` joins them by the recursion of the procedures.

* `parse_eq`: so the outcome of a parse is settled by the scan of the text.
* `parseSkips_eq`: and so are the characters that it passes over.
-/

namespace IntExpr

open TokenStream (Between)

variable {a : Associativity} {level : Level} {room n m : Nat} {first e : Expr}
  {found : List (BinOp × Expr)} {s s' s₁ : TokenStream} {o : BinOp} {pos : Nat} {t : Token} {c : Located}
  {taken rest ts : List Token} {stop : Stop × TokenStream}

/-- A tree and the cursor after it. -/
def Read.toPair (p : Read n) : Expr × TokenStream := (p.expr, p.stream)

/-- What comes of the list of the tokens ahead, and what comes of the cursor. -/
inductive Mirrors (s : TokenStream) : Except Halt (Expr × List Token) →
    Except (Stop × TokenStream) (Expr × TokenStream) → Prop
  | found {e : Expr} {taken rest : List Token} {s' : TokenStream} : Between taken s s' →
    s'.ahead.tokens = rest → Mirrors s (.ok (e, rest)) (.ok (e, s'))
  /-- The tree comes to the end of the tokens; whether it goes on is not known to the cursor. -/
  | cutShort {e : Expr} {taken : List Token} {s₁ s' : TokenStream} {c : Located} : Between taken s s₁ →
    s₁.Reports c s' → Mirrors s (.ok (e, [])) (.error (.rejected c, s'))
  | refused {reason : Reason} {t : Token} {taken ts : List Token} {s' : TokenStream} :
    reason ≠ .tooDeep → Between taken s s' → s'.current = some t → s'.ahead.tokens = t :: ts →
    Mirrors s (.error ⟨reason, t :: ts⟩) (.error (.error (reason.error t), s'))
  | rejected {reason : Reason} {taken : List Token} {s₁ s' : TokenStream} {c : Located} :
    reason ≠ .tooDeep → Between taken s s₁ → s₁.Reports c s' →
    Mirrors s (.error ⟨reason, []⟩) (.error (.rejected c, s'))
  | noRoom {t : Token} {taken rest : List Token} {s' : TokenStream} : Between taken s s' →
    s'.ahead.tokens = rest → Mirrors s (.error ⟨.tooDeep, t :: rest⟩) (.error (.noRoom, s'))

namespace Mirrors

variable {r : Except Halt (Expr × List Token)} {r' : Except (Stop × TokenStream) (Expr × TokenStream)}

theorem after (h : Between taken s s₁) (hm : Mirrors s₁ r r') : Mirrors s r r' := by
  cases hm with
  | found hb hrest => exact .found (h.trans hb) hrest
  | cutShort hb hreports => exact .cutShort (h.trans hb) hreports
  | refused hne hb hcurrent hrest => exact .refused hne (h.trans hb) hcurrent hrest
  | rejected hne hb hreports => exact .rejected hne (h.trans hb) hreports
  | noRoom hb hrest => exact .noRoom (h.trans hb) hrest

theorem of_ok (hm : Mirrors s r (.ok (e, s'))) :
    ∃ taken rest, r = .ok (e, rest) ∧ Between taken s s' ∧ s'.ahead.tokens = rest := by
  cases hm with
  | found hb hrest => exact ⟨_, _, rfl, hb, hrest⟩

theorem map (f : Expr → Expr) (hm : Mirrors s r r') :
    Mirrors s (r.map fun p => (f p.1, p.2)) (r'.map fun p => (f p.1, p.2)) := by
  cases hm with
  | found hb hrest => exact .found hb hrest
  | cutShort hb hreports => exact .cutShort hb hreports
  | refused hne hb hcurrent hrest => exact .refused hne hb hcurrent hrest
  | rejected hne hb hreports => exact .rejected hne hb hreports
  | noRoom hb hrest => exact .noRoom hb hrest

/-- Where the cursor has met a rejected character, it is not for what the list makes of the end. -/
theorem of_cutShort (hm : Mirrors s (.ok (e, rest)) (.error stop)) :
    rest = [] ∧ (∀ e', Mirrors s (.ok (e', [])) (.error stop)) ∧
      ∀ reason, reason ≠ .tooDeep → Mirrors s (.error ⟨reason, []⟩) (.error stop) := by
  cases hm with
  | cutShort hb hreports =>
    exact ⟨rfl, fun _ => .cutShort hb hreports, fun _ hne => .rejected hne hb hreports⟩

end Mirrors

/-! ### The procedures, by the token in view -/

theorem readLinks_error (h : s.peek = (.error c, s')) (shorter : s.left < n) :
    readLinks a level room first found s shorter = .error (.rejected c, s') := by
  rw [readLinks.eq_def]
  split
  · next h' =>
    cases h.symm.trans h'
    rfl
  · next h' => cases h.symm.trans h'
  · next h' => cases h.symm.trans h'

theorem readLinks_op (h : s.peek = (.ok ⟨.op o, pos⟩, s')) (shorter : s.left < n) :
    readLinks a o.level room first found s shorter =
      match readOperand a o.level room s'.advance.2 with
      | .error stop => .error stop
      | .ok p => readLinks a o.level room first ((o, p.expr) :: found) p.stream
          (Nat.lt_trans p.shorter (Nat.lt_trans (TokenStream.left_taken_lt h nofun) shorter)) := by
  rw [readLinks.eq_def]
  split
  · next h' => cases h.symm.trans h'
  · next h' =>
    cases h.symm.trans h'
    exact if_pos rfl
  · next hne h' =>
    cases h.symm.trans h'
    exact absurd rfl (hne _ _)

theorem readLinks_end (h : s.peek = (.ok t, s')) (hne : ∀ o, t.symbol = .op o → o.level ≠ level)
    (shorter : s.left < n) : readLinks a level room first found s shorter =
      .ok ⟨group a level first found.reverse, s',
        Nat.lt_of_le_of_lt (TokenStream.left_of_peek_le h) shorter⟩ := by
  rw [readLinks.eq_def]
  split
  · next h' => cases h.symm.trans h'
  · next h' =>
    cases h.symm.trans h'
    exact if_neg (hne _ rfl)
  · next h' =>
    cases h.symm.trans h'
    rfl

theorem readPrimary_error (h : s.peek = (.error c, s')) :
    readPrimary a room s = .error (.rejected c, s') := by
  rw [readPrimary.eq_def]
  split
  · next h' =>
    cases h.symm.trans h'
    rfl
  · next h' => cases h.symm.trans h'
  · next h' => cases h.symm.trans h'
  · next h' => cases h.symm.trans h'

theorem readPrimary_number {digits : String} (h : s.peek = (.ok ⟨.number digits, pos⟩, s')) :
    readPrimary a room s = .ok ⟨.literal digits, s'.advance.2, TokenStream.left_taken_lt h nofun⟩ := by
  rw [readPrimary.eq_def]
  split
  · next h' => cases h.symm.trans h'
  · next h' =>
    cases h.symm.trans h'
    rfl
  · next h' => cases h.symm.trans h'
  · next hne _ h' =>
    cases h.symm.trans h'
    exact absurd rfl (hne _ _)

theorem readPrimary_noRoom (h : s.peek = (.ok ⟨.leftParen, pos⟩, s')) :
    readPrimary a 0 s = .error (.noRoom, s'.advance.2) := by
  rw [readPrimary.eq_def]
  split
  · next h' => cases h.symm.trans h'
  · next h' => cases h.symm.trans h'
  · next h' =>
    cases h.symm.trans h'
    rfl
  · next _ hne h' =>
    cases h.symm.trans h'
    exact absurd rfl (hne _)

theorem readPrimary_open (h : s.peek = (.ok ⟨.leftParen, pos⟩, s')) :
    readPrimary a (room + 1) s =
      match readChain a .sum room s'.advance.2 with
      | .error stop => .error stop
      | .ok p => readClosing pos p.expr p.stream
          (Nat.lt_trans p.shorter (TokenStream.left_taken_lt h nofun)) := by
  rw [readPrimary.eq_def]
  split
  · next h' => cases h.symm.trans h'
  · next h' => cases h.symm.trans h'
  · next h' =>
    cases h.symm.trans h'
    rfl
  · next _ hne h' =>
    cases h.symm.trans h'
    exact absurd rfl (hne _)

theorem readPrimary_refused (h : s.peek = (.ok t, s')) (hnumber : ∀ digits pos, t ≠ ⟨.number digits, pos⟩)
    (hopen : ∀ pos, t ≠ ⟨.leftParen, pos⟩) :
    readPrimary a room s = .error (.error (.operandExpected t), s') := by
  rw [readPrimary.eq_def]
  split
  · next h' => cases h.symm.trans h'
  · next h' =>
    cases h.symm.trans h'
    exact absurd rfl (hnumber _ _)
  · next h' =>
    cases h.symm.trans h'
    exact absurd rfl (hopen _)
  · next h' =>
    cases h.symm.trans h'
    rfl

/-! ### Signs -/

/-- A count of minus signs and the cursor behind them. -/
def Signs.toPair (q : Signs n) : Nat × TokenStream := (q.minuses, q.stream)

/-- What comes of the signs ahead, and what comes of the cursor. -/
inductive TakesSigns (s : TokenStream) : Nat × List Token →
    Except (Stop × TokenStream) (Nat × TokenStream) → Prop
  | found {k : Nat} {taken rest : List Token} {s' : TokenStream} : Between taken s s' →
    s'.ahead.tokens = rest → TakesSigns s (k, rest) (.ok (k, s'))
  | cutShort {k : Nat} {taken : List Token} {s₁ s' : TokenStream} {c : Located} : Between taken s s₁ →
    s₁.Reports c s' → TakesSigns s (k, []) (.error (.rejected c, s'))

theorem TakesSigns.after {r : Nat × List Token} {r' : Except (Stop × TokenStream) (Nat × TokenStream)}
    (h : Between taken s s₁) (ht : TakesSigns s₁ r r') : TakesSigns s r r' := by
  cases ht with
  | found hb hrest => exact .found (h.trans hb) hrest
  | cutShort hb hreports => exact .cutShort (h.trans hb) hreports

theorem readSigns_takes (minuses : Nat) (s : TokenStream) :
    TakesSigns s (signs minuses s.ahead.tokens) ((readSigns minuses s).map Signs.toPair) := by
  fun_induction readSigns minuses s with
  | case1 minuses s c s' h =>
    have hreports := TokenStream.reports_of_peek h
    rw [hreports.tokens]
    exact .cutShort (.refl s) hreports
  | case2 minuses s pos s' h stop hstop ih | case4 minuses s pos s' h stop hstop ih =>
    have hbetween := TokenStream.between_of_peek_advance h (by simp)
    rw [hstop] at ih
    rw [hbetween.tokens]
    exact ih.after hbetween
  | case3 minuses s pos s' h p hp ih | case5 minuses s pos s' h p hp ih =>
    have hbetween := TokenStream.between_of_peek_advance h (by simp)
    rw [hp] at ih
    rw [hbetween.tokens]
    exact ih.after hbetween
  | case6 minuses s t s' hsub hadd h =>
    have hbetween := TokenStream.between_of_peek h
    obtain ⟨ts, hts⟩ := TokenStream.tokens_of_peek h
    have hend : ∀ o pos us, t :: ts = ⟨.op o, pos⟩ :: us → o.level ≠ .sum := by
      intro o pos us heq ho
      obtain rfl := (List.cons.inj heq).1
      cases o with
      | add => exact hadd pos rfl
      | sub => exact hsub pos rfl
      | mul | div | mod | pow => cases ho
    rw [hts, signs_end hend]
    exact .found hbetween (hbetween.tokens.symm.trans hts)

/-! ### Procedures, one branch after the other -/

/-- Where no more of the chain is in view, it is what was found of it. -/
theorem links_end_mirrors (h : s.peek = (.ok t, s')) (hne : ∀ o, t.symbol = .op o → o.level ≠ level)
    (hn : s.ahead.tokens.length < n) : Mirrors s
      ((chainLinks a level room first found s.ahead.tokens hn).map Parsed.toPair)
      (.ok (group a level first found.reverse, s')) := by
  have hbetween := TokenStream.between_of_peek h
  obtain ⟨ts, hts⟩ := TokenStream.tokens_of_peek h
  have hend : ∀ o pos us, s.ahead.tokens = ⟨.op o, pos⟩ :: us → o.level ≠ level := by
    intro o pos us heq
    obtain rfl := (List.cons.inj (hts.symm.trans heq)).1
    exact hne o rfl
  rw [chainLinks_end hend]
  exact .found hbetween hbetween.tokens.symm

/-- Where a character is in the way that is not let past, the tokens have come to their end. -/
theorem links_cutShort_mirrors (h : s.peek = (.error c, s')) (hn : s.ahead.tokens.length < n) : Mirrors s
      ((chainLinks a level room first found s.ahead.tokens hn).map Parsed.toPair)
      (.error (.rejected c, s')) := by
  have hreports := TokenStream.reports_of_peek h
  have hend : ∀ o pos us, s.ahead.tokens = ⟨.op o, pos⟩ :: us → o.level ≠ level := by
    rw [hreports.tokens]
    exact nofun
  rw [chainLinks_end hend]
  show Mirrors s (.ok (group a level first found.reverse, s.ahead.tokens)) _
  rw [hreports.tokens]
  exact .cutShort (.refl s) hreports

theorem closing_mirrors (pos : Nat) (e : Expr) (s : TokenStream) (hn : s.ahead.tokens.length < n)
    (hm : s.left < m) : Mirrors s ((closeParen pos e s.ahead.tokens hn).map Parsed.toPair)
      ((readClosing pos e s hm).map Read.toPair) := by
  unfold readClosing
  split
  · next c s' h =>
    have hreports := TokenStream.reports_of_peek h
    rw [closeParen_refused (by simp [hreports.tokens]), hreports.tokens]
    exact .rejected (by simp) (.refl s) hreports
  · next close s' h =>
    have hbetween := TokenStream.between_of_peek_advance h (by simp)
    revert hn
    rw [hbetween.tokens]
    exact fun _ => .found hbetween rfl
  · next t s' hne h =>
    have hbetween := TokenStream.between_of_peek h
    obtain ⟨ts, hts⟩ := TokenStream.tokens_of_peek h
    have hclose : ∀ close us, s.ahead.tokens ≠ ⟨.rightParen, close⟩ :: us := by
      intro close us heq
      exact hne close (List.cons.inj (hts.symm.trans heq)).1
    rw [closeParen_refused hclose, hts]
    exact .refused (by simp) hbetween (TokenStream.current_of_peek h) (hbetween.tokens.symm.trans hts)

theorem primary_cutShort_mirrors (h : s.peek = (.error c, s')) (room : Nat) : Mirrors s
    ((primary a room s.ahead.tokens).map Parsed.toPair) (.error (.rejected c, s')) := by
  have hreports := TokenStream.reports_of_peek h
  rw [hreports.tokens, primary_refused (by simp) (by simp)]
  exact .rejected nofun (.refl s) hreports

theorem primary_refused_mirrors (h : s.peek = (.ok t, s'))
    (hnumber : ∀ digits pos, t ≠ ⟨.number digits, pos⟩) (hopen : ∀ pos, t ≠ ⟨.leftParen, pos⟩)
    (room : Nat) : Mirrors s ((primary a room s.ahead.tokens).map Parsed.toPair)
      (.error (.error (.operandExpected t), s')) := by
  have hbetween := TokenStream.between_of_peek h
  obtain ⟨ts, hts⟩ := TokenStream.tokens_of_peek h
  rw [hts, primary_refused (fun _ _ _ heq => hnumber _ _ (List.cons.inj heq).1)
    fun _ _ heq => hopen _ (List.cons.inj heq).1]
  exact .refused nofun hbetween (TokenStream.current_of_peek h) (hbetween.tokens.symm.trans hts)

theorem primary_number_mirrors {digits : String} (h : s.peek = (.ok ⟨.number digits, pos⟩, s'))
    (room : Nat) : Mirrors s ((primary a room s.ahead.tokens).map Parsed.toPair)
      (.ok (.literal digits, s'.advance.2)) := by
  have hbetween := TokenStream.between_of_peek_advance h nofun
  rw [hbetween.tokens, List.singleton_append, primary]
  exact .found hbetween rfl

theorem primary_noRoom_mirrors (h : s.peek = (.ok ⟨.leftParen, pos⟩, s')) : Mirrors s
    ((primary a 0 s.ahead.tokens).map Parsed.toPair) (.error (.noRoom, s'.advance.2)) := by
  have hbetween := TokenStream.between_of_peek_advance h nofun
  rw [hbetween.tokens, List.singleton_append, primary]
  exact .noRoom hbetween rfl

/-- A halt between parentheses is one of the primary. -/
theorem primary_inner_mirrors (h : s.peek = (.ok ⟨.leftParen, pos⟩, s'))
    (hm : Mirrors s'.advance.2 ((chain a .sum room s'.advance.2.ahead.tokens).map Parsed.toPair)
      (.error stop)) :
    Mirrors s ((primary a (room + 1) s.ahead.tokens).map Parsed.toPair) (.error stop) := by
  have hbetween := TokenStream.between_of_peek_advance h (by simp)
  rw [hbetween.tokens, List.singleton_append, primary]
  cases hc : chain a .sum room s'.advance.2.ahead.tokens with
  | error halt =>
    rw [hc] at hm
    exact hm.after hbetween
  | ok p =>
    rw [hc] at hm
    obtain ⟨hrest, -, hrejected⟩ := hm.of_cutShort
    dsimp only
    rw [closeParen_refused (by simp [hrest]), hrest]
    exact (hrejected (.closingExpected pos) (by simp)).after hbetween

theorem primary_paren_mirrors (h : s.peek = (.ok ⟨.leftParen, pos⟩, s'))
    {p : Read s'.advance.2.left} (shorter : p.stream.left < m)
    (hm : Mirrors s'.advance.2 ((chain a .sum room s'.advance.2.ahead.tokens).map Parsed.toPair)
      (.ok p.toPair)) :
    Mirrors s ((primary a (room + 1) s.ahead.tokens).map Parsed.toPair)
      ((readClosing pos p.expr p.stream shorter).map Read.toPair) := by
  have hbetween := TokenStream.between_of_peek_advance h nofun
  rw [hbetween.tokens, List.singleton_append, primary]
  obtain ⟨taken, rest, hc, hinner, hrest⟩ := hm.of_ok
  cases hq : chain a .sum room s'.advance.2.ahead.tokens with
  | error halt =>
    rw [hq] at hc
    cases hc
  | ok q =>
    rw [hq] at hc
    obtain ⟨e, us, hshort⟩ := q
    obtain ⟨rfl, rfl⟩ := Prod.mk.inj (Except.ok.inj hc)
    subst hrest
    exact ((closing_mirrors pos p.expr p.stream hshort shorter).after hinner).after hbetween

/-- Signs in front of a primary make it a factor. -/
theorem factor_mirrors {q : Signs s.left} (hq : readSigns 0 s = .ok q)
    (hm : Mirrors q.stream ((primary a room q.stream.ahead.tokens).map Parsed.toPair)
      ((readPrimary a room q.stream).map Read.toPair)) :
    Mirrors s ((factor a room s.ahead.tokens).map Parsed.toPair)
      (((readPrimary a room q.stream).map Read.toPair).map fun p => (.negateTimes q.minuses p.1, p.2)) := by
  have hsigns := readSigns_takes 0 s
  rw [hq] at hsigns
  rw [factor_toPair]
  generalize signs 0 s.ahead.tokens = k at hsigns ⊢
  cases hsigns with
  | found hbetween hrest =>
    subst hrest
    exact (hm.map (.negateTimes q.minuses)).after hbetween

/-- Behind signs that a character ends there is no primary. -/
theorem factor_cutShort_mirrors (hstop : readSigns 0 s = .error stop) (room : Nat) :
    Mirrors s ((factor a room s.ahead.tokens).map Parsed.toPair) (.error stop) := by
  have hsigns := readSigns_takes 0 s
  rw [hstop] at hsigns
  rw [factor_toPair]
  generalize signs 0 s.ahead.tokens = k at hsigns ⊢
  cases hsigns with
  | cutShort hbetween hreports =>
    dsimp only
    rw [primary_refused (by simp) (by simp)]
    exact .rejected nofun hbetween hreports

/-- A chain ends where the operand that it wants is not found. -/
theorem operand_halt_mirrors (first : Expr → Expr) (found : Expr → List (BinOp × Expr))
    (shorter : ∀ p : Parsed s.ahead.tokens.length, p.rest.length < n)
    (hm : Mirrors s ((operand a level room s.ahead.tokens).map Parsed.toPair) (.error stop)) :
    Mirrors s (((operand a level room s.ahead.tokens).bind fun p =>
      chainLinks a level room (first p.expr) (found p.expr) p.rest (shorter p)).map Parsed.toPair)
      (.error stop) := by
  cases hop : operand a level room s.ahead.tokens with
  | error halt =>
    rw [hop] at hm
    exact hm
  | ok p =>
    rw [hop] at hm
    obtain ⟨hrest, hfound, -⟩ := hm.of_cutShort
    show Mirrors s ((chainLinks a level room (first p.expr) (found p.expr) p.rest _).map Parsed.toPair) _
    rw [chainLinks_end (by simp [hrest])]
    show Mirrors s (.ok (group a level (first p.expr) (found p.expr).reverse, p.rest)) _
    rw [hrest]
    exact hfound _

theorem operand_mirrors {p : Read m} {r : Except (Stop × TokenStream) (Expr × TokenStream)}
    (first : Expr → Expr) (found : Expr → List (BinOp × Expr))
    (shorter : ∀ p : Parsed s.ahead.tokens.length, p.rest.length < n)
    (hm : Mirrors s ((operand a level room s.ahead.tokens).map Parsed.toPair) (.ok p.toPair))
    (hnext : ∀ hshort : p.stream.ahead.tokens.length < n, Mirrors p.stream
      ((chainLinks a level room (first p.expr) (found p.expr) p.stream.ahead.tokens hshort).map
        Parsed.toPair) r) :
    Mirrors s (((operand a level room s.ahead.tokens).bind fun p =>
      chainLinks a level room (first p.expr) (found p.expr) p.rest (shorter p)).map Parsed.toPair) r := by
  obtain ⟨taken, rest, hc, hbetween, hrest⟩ := hm.of_ok
  cases hop : operand a level room s.ahead.tokens with
  | error halt =>
    rw [hop] at hc
    cases hc
  | ok q =>
    rw [hop] at hc
    obtain ⟨e, us, hshort⟩ := q
    obtain ⟨rfl, rfl⟩ := Prod.mk.inj (Except.ok.inj hc)
    subst hrest
    exact (hnext _).after hbetween

/-- With an operator of its level ahead a chain wants one more operand. -/
theorem links_mirrors {r : Except (Stop × TokenStream) (Expr × TokenStream)}
    (h : s.peek = (.ok ⟨.op o, pos⟩, s'))
    (hm : ∀ shorter : ∀ p : Parsed s'.advance.2.ahead.tokens.length, p.rest.length < n,
      Mirrors s'.advance.2 (((operand a o.level room s'.advance.2.ahead.tokens).bind fun p =>
        chainLinks a o.level room first ((o, p.expr) :: found) p.rest (shorter p)).map Parsed.toPair) r)
    (hn : s.ahead.tokens.length < n) :
    Mirrors s ((chainLinks a o.level room first found s.ahead.tokens hn).map Parsed.toPair) r := by
  have hbetween := TokenStream.between_of_peek_advance h nofun
  revert hn
  rw [hbetween.tokens, List.singleton_append]
  intro hn
  rw [chainLinks_eq_bind]
  exact (hm fun p => Nat.lt_trans (Nat.lt_succ_of_lt p.shorter) hn).after hbetween

/-! ### All procedures together -/

/-- **What is drawn from a cursor is what is taken from the tokens ahead.**  The induction is the recursion
of the procedures. -/
theorem grammar_mirrors (a : Associativity) :
    (∀ level room s, Mirrors s ((chain a level room s.ahead.tokens).map Parsed.toPair)
      ((readChain a level room s).map Read.toPair)) ∧
    (∀ n level room first found s (shorter : s.left < n) (m : Nat) (hm : s.ahead.tokens.length < m),
      Mirrors s ((chainLinks a level room first found s.ahead.tokens hm).map Parsed.toPair)
        ((readLinks a level room first found s shorter).map Read.toPair)) ∧
    (∀ level room s, Mirrors s ((operand a level room s.ahead.tokens).map Parsed.toPair)
      ((readOperand a level room s).map Read.toPair)) ∧
    (∀ room s, Mirrors s ((factor a room s.ahead.tokens).map Parsed.toPair)
      ((readFactor a room s).map Read.toPair)) ∧
    ∀ room s, Mirrors s ((primary a room s.ahead.tokens).map Parsed.toPair)
      ((readPrimary a room s).map Read.toPair) := by
  refine readChain.mutual_induct a _ _ _ _ _ ?first_halts ?first ?link_cutShort ?link_halts ?link
    ?link_other ?link_none ?sum ?product ?power ?signs_cutShort ?factor_halts ?factor ?primary_cutShort
    ?number ?noRoom ?inner_halts ?paren ?refused
  case first_halts =>
    intro level room s stop hop hm
    rw [hop] at hm
    rw [readChain, hop, chain_eq_bind]
    exact operand_halt_mirrors id (fun _ => []) Parsed.shorter hm
  case first =>
    intro level room s p hop hm hnext
    rw [hop] at hm
    rw [readChain, hop, chain_eq_bind]
    exact operand_mirrors id (fun _ => []) Parsed.shorter hm (hnext _)
  case link_cutShort =>
    intro n level room first found s shorter c s' h m hm
    rw [readLinks_error h]
    exact links_cutShort_mirrors h hm
  case link_halts =>
    intro n room first found s shorter o pos s' h stop hop hin m hm
    rw [hop] at hin
    rw [readLinks_op h, hop]
    exact links_mirrors h (fun shorter =>
      operand_halt_mirrors (fun _ => first) (fun e => (o, e) :: found) shorter hin) hm
  case link =>
    intro n room first found s shorter o pos s' h p hop hin hnext m hm
    rw [hop] at hin
    rw [readLinks_op h, hop]
    exact links_mirrors h (fun shorter =>
      operand_mirrors (fun _ => first) (fun e => (o, e) :: found) shorter hin (hnext m)) hm
  case link_other =>
    intro n level room first found s shorter o pos s' h ho m hm
    have hne : ∀ o', (⟨.op o, pos⟩ : Token).symbol = .op o' → o'.level ≠ level := by
      intro o' heq
      exact Symbol.op.inj heq ▸ ho
    rw [readLinks_end h hne]
    exact links_end_mirrors h hne hm
  case link_none =>
    intro n level room first found s shorter t s' hop h m hm
    have hne : ∀ o, t.symbol = .op o → o.level ≠ level := fun o heq => (hop o t.pos (by rw [← heq])).elim
    rw [readLinks_end h hne]
    exact links_end_mirrors h hne hm
  case sum | product | power =>
    intro room s hm
    rw [readOperand, operand]
    exact hm
  case signs_cutShort =>
    intro room s stop hstop
    rw [readFactor, hstop]
    exact factor_cutShort_mirrors hstop room
  case factor_halts | factor =>
    intro room s q hq outcome hp hm
    have hfactor := factor_mirrors hq hm
    rw [hp] at hfactor
    rw [readFactor, hq]
    dsimp only
    rw [hp]
    exact hfactor
  case primary_cutShort =>
    intro room s c s' h
    rw [readPrimary_error h]
    exact primary_cutShort_mirrors h room
  case number =>
    intro room s digits pos s' h
    rw [readPrimary_number h]
    exact primary_number_mirrors h room
  case noRoom =>
    intro s pos s' h
    rw [readPrimary_noRoom h]
    exact primary_noRoom_mirrors h
  case inner_halts =>
    intro s pos s' h room stop hc hm
    rw [hc] at hm
    rw [readPrimary_open h, hc]
    exact primary_inner_mirrors h hm
  case paren =>
    intro s pos s' h room p hc hm
    rw [hc] at hm
    rw [readPrimary_open h, hc]
    exact primary_paren_mirrors h _ hm
  case refused =>
    intro room s t s' hnumber hopen h
    rw [readPrimary_refused h hnumber hopen]
    exact primary_refused_mirrors h hnumber hopen room

/-! ### Texts -/

theorem readEnd_mirrors (e : Expr) (s : TokenStream) :
    Mirrors s (afterNewlines e s.ahead.tokens) ((readEnd s).map fun s' => (e, s')) := by
  fun_induction readEnd s with
  | case1 s c s' h =>
    have hreports := TokenStream.reports_of_peek h
    rw [hreports.tokens]
    exact .rejected nofun (.refl s) hreports
  | case2 s pos s' h ih =>
    have hbetween := TokenStream.between_of_peek_advance h nofun
    rw [hbetween.tokens, List.singleton_append, afterNewlines_newline]
    exact ih.after hbetween
  | case3 s pos s' h =>
    have hbetween := TokenStream.between_of_peek h
    obtain ⟨ts, hts⟩ := TokenStream.tokens_of_peek h
    rw [hts]
    exact .found hbetween (hbetween.tokens.symm.trans hts)
  | case4 s t s' hnewline hfinish h =>
    have hbetween := TokenStream.between_of_peek h
    obtain ⟨ts, hts⟩ := TokenStream.tokens_of_peek h
    rw [hts, afterNewlines_refused (fun pos _ heq => hnewline pos (List.cons.inj heq).1)
      fun pos _ heq => hfinish pos (List.cons.inj heq).1]
    exact .refused nofun hbetween (TokenStream.current_of_peek h) (hbetween.tokens.symm.trans hts)

/-- A text is at its end with the end in view. -/
theorem current_of_readEnd (h : readEnd s = .ok s') : ∃ t, s'.current = some t ∧ t.symbol = .finish := by
  fun_induction readEnd s with
  | case1 | case4 => cases h
  | case2 s pos s₁ hpeek ih => exact ih h
  | case3 s pos s₁ hpeek =>
    obtain rfl := Except.ok.inj h
    exact ⟨_, TokenStream.current_of_peek hpeek, rfl⟩

theorem text_halt_mirrors {limit : Nat}
    (hm : Mirrors s ((chain a .sum limit s.ahead.tokens).map Parsed.toPair) (.error stop)) :
    Mirrors s ((chain a .sum limit s.ahead.tokens).bind fun p => afterNewlines p.expr p.rest) (.error stop) := by
  cases hc : chain a .sum limit s.ahead.tokens with
  | error halt =>
    rw [hc] at hm
    cases hm with
    | refused hne hb hcurrent hrest => exact .refused hne hb hcurrent hrest
    | rejected hne hb hreports => exact .rejected hne hb hreports
    | noRoom hb hrest => exact .noRoom hb hrest
  | ok p =>
    rw [hc] at hm
    obtain ⟨hrest, -, hrejected⟩ := hm.of_cutShort
    show Mirrors s (afterNewlines p.expr p.rest) _
    rw [hrest]
    exact hrejected .endExpected nofun

theorem text_mirrors {limit : Nat}
    (hm : Mirrors s ((chain a .sum limit s.ahead.tokens).map Parsed.toPair) (.ok (e, s₁))) :
    Mirrors s ((chain a .sum limit s.ahead.tokens).bind fun p => afterNewlines p.expr p.rest)
      ((readEnd s₁).map fun s' => (e, s')) := by
  obtain ⟨taken, rest, hchain, hbetween, hrest⟩ := hm.of_ok
  cases hc : chain a .sum limit s.ahead.tokens with
  | error halt =>
    rw [hc] at hchain
    cases hchain
  | ok p =>
    rw [hc] at hchain
    obtain ⟨hexpr, htokens⟩ := Prod.mk.inj (Except.ok.inj hchain)
    show Mirrors s (afterNewlines p.expr p.rest) _
    rw [show p.expr = e from hexpr, show p.rest = rest from htokens, ← hrest]
    exact (readEnd_mirrors e s₁).after hbetween

/-- **A text is drawn from a cursor as it is taken from the tokens ahead.** -/
theorem readText_mirrors (limit : Nat) (a : Associativity) (s : TokenStream) :
    Mirrors s ((chain a .sum limit s.ahead.tokens).bind fun p => afterNewlines p.expr p.rest)
      (readText limit a s) := by
  have hm := (grammar_mirrors a).1 .sum limit s
  rw [readText]
  cases hread : readChain a .sum limit s with
  | error stop =>
    rw [hread] at hm
    exact text_halt_mirrors hm
  | ok p =>
    rw [hread] at hm
    have htext := text_mirrors hm
    dsimp only
    cases hend : readEnd p.stream with
    | error stop | ok s' =>
      rw [hend] at htext
      exact htext

theorem current_of_readText {limit : Nat} (h : readText limit a s = .ok (e, s')) :
    ∃ t, s'.current = some t ∧ t.symbol = .finish := by
  rw [readText] at h
  split at h
  · cases h
  · split at h
    · cases h
    · next hend =>
      cases h
      exact current_of_readEnd hend

/-! ### The outcome -/

theorem Between.ahead_length (h : Between taken s s') :
    s.ahead.tokens.length - s'.ahead.tokens.length = taken.length := by
  rw [h.tokens, List.length_append, Nat.add_sub_cancel]

/-- A parse that succeeds has passed over all that there is. -/
theorem passed_of_found (hbetween : Between taken s s') (hcurrent : s'.current = some t)
    (ht : t.symbol = .finish) : s'.passed = s.skippedBefore s.ahead.tokens.length := by
  have hend := TokenStream.ahead_of_finish hcurrent ht
  have hone : s'.passed = s'.skippedBefore 1 := by
    rw [TokenStream.skippedBefore, hend]
    exact (List.append_nil _).symm
  rw [hone, hbetween.skipped, hbetween.tokens, List.length_append, hend]
  rfl

/-- The error of a halt is that of the list, and nothing behind the token it points at was drawn. -/
theorem resolve_of_mirrors {halt : Halt} {stop : Stop}
    (hm : Mirrors s (.error halt) (.error (stop, s'))) :
    (stop.resolve s').1 = halt.error s.ahead s.length ∧ (stop.resolve s').2.passed =
      s.skippedBefore (s.ahead.tokens.length - halt.shown.length) := by
  cases hm with
  | @refused reason t taken ts _ hne hbetween hcurrent hrest =>
    have hshown : (⟨reason, t :: ts⟩ : Halt).shown = s'.ahead.tokens :=
      (Halt.shown_of_ne (h := ⟨reason, t :: ts⟩) hne).trans hrest.symm
    refine ⟨(Halt.error_of_shown (hshown.trans hrest) _ _).symm, ?_⟩
    rw [hshown, Between.ahead_length hbetween, ← Nat.add_zero taken.length, ← hbetween.skipped]
    exact TokenStream.passed_of_current hcurrent
  | @rejected reason taken s₁ _ c hne hbetween hreports =>
    have hshown : (⟨reason, []⟩ : Halt).shown = s₁.ahead.tokens :=
      (Halt.shown_of_ne (h := ⟨reason, []⟩) hne).trans hreports.tokens.symm
    have hrejected := hbetween.rejected.symm.trans hreports.rejected
    rw [Halt.error_of_rejected (hshown.trans hreports.tokens) hrejected, Reason.errorAt_of_ne hne]
    refine ⟨rfl, ?_⟩
    rw [hshown, Between.ahead_length hbetween, ← Nat.add_zero taken.length, ← hbetween.skipped]
    exact hreports.skipped
  | @noRoom open' taken rest _ hbetween hrest =>
    have hshown : (⟨.tooDeep, open' :: rest⟩ : Halt).shown = s'.ahead.tokens := hrest.symm
    rw [hshown, Between.ahead_length hbetween, ← Nat.add_zero taken.length, ← hbetween.skipped]
    rcases TokenStream.peek_cases s' with ⟨t, s₁, hpeek, hcurrent, hnext⟩ | ⟨c, s₁, hpeek, hreports⟩
    · obtain ⟨ts, hts⟩ := TokenStream.tokens_of_peek hpeek
      rw [Halt.error_of_shown (hshown.trans hts), Stop.resolve, hpeek]
      exact ⟨rfl, (TokenStream.passed_of_current hcurrent).trans (hnext.skipped 0)⟩
    · have hrejected := hbetween.rejected.symm.trans hreports.rejected
      rw [Halt.error_of_rejected (hshown.trans hreports.tokens) hrejected, Stop.resolve, hpeek]
      exact ⟨rfl, hreports.skipped⟩

/-- The number of tokens, of `total`, that a parse with this outcome has gone past. -/
def takenOf (total : Nat) : Except Halt Expr → Nat
  | .ok _ => total
  | .error halt => total - halt.shown.length

/-- **What comes of a text is settled by the scan of what is ahead**: the tree or the error, and the
characters that are passed over. -/
theorem parseStream_eq (limit : Nat) (a : Associativity) (s : TokenStream) :
    (parseStream limit a s).1 =
        (parseTokens limit a s.ahead.tokens).mapError (·.error s.ahead s.length) ∧
      (parseStream limit a s).2.passed =
        s.skippedBefore (takenOf s.ahead.tokens.length (parseTokens limit a s.ahead.tokens)) := by
  have hm := readText_mirrors limit a s
  rw [parseTokens_eq, parseStream]
  cases hread : readText limit a s with
  | ok p =>
    obtain ⟨e, s'⟩ := p
    rw [hread] at hm
    obtain ⟨t, hcurrent, ht⟩ := current_of_readText hread
    obtain ⟨taken, rest, htext, hbetween, -⟩ := hm.of_ok
    rw [htext]
    exact ⟨rfl, passed_of_found hbetween hcurrent ht⟩
  | error p =>
    obtain ⟨stop, s'⟩ := p
    rw [hread] at hm
    cases htext : (chain a .sum limit s.ahead.tokens).bind fun p => afterNewlines p.expr p.rest with
    | error halt =>
      rw [htext] at hm
      obtain ⟨herror, hpassed⟩ := resolve_of_mirrors hm
      exact ⟨congrArg Except.error herror, hpassed⟩
    | ok p =>
      -- the list has the end in front, and so the cursor cannot have come to a character that is not let past
      obtain ⟨e, rest⟩ := p
      rw [htext] at hm
      cases hchain : chain a .sum limit s.ahead.tokens with
      | error halt =>
        rw [hchain] at htext
        cases htext
      | ok q =>
        rw [hchain] at htext
        exact absurd hm.of_cutShort.1 (rest_ne_nil_of_afterNewlines htext)

theorem parse_eq (limit : Nat) (c : Config) (source : String) : parse limit c source =
    (parseTokens limit c.associativity (scan c.unknownCharacters source).tokens).mapError
      (·.error (scan c.unknownCharacters source) source.length) :=
  (parseStream_eq limit c.associativity (.ofSource c.unknownCharacters source)).1

/-- **A parse passes over the characters in front of the token that it stops at**, and over all of them if
it succeeds. -/
theorem parseSkips_eq (limit : Nat) (c : Config) (source : String) : parseSkips limit c source =
    (scan c.unknownCharacters source).skippedBefore
      (takenOf (scan c.unknownCharacters source).tokens.length
        (parseTokens limit c.associativity (scan c.unknownCharacters source).tokens)) :=
  (parseStream_eq limit c.associativity (.ofSource c.unknownCharacters source)).2

end IntExpr
