import IntExpr.Proofs.Scan

/-!
# Lookahead — what a cursor has in front of it

A cursor has read its text up to the token that was looked at.  What it will show is settled all the
same: that token, and then the scan of the characters that are still to be read (`ahead`).  Looking and
taking are told by it, and so is the trace of the characters that they pass over on the way.

* `Between`: the tokens that were taken between two states of a cursor.
* `peek_cases`, `advance_of_current`, `drain_of_tokens`: to look, to take and to take all, by what is ahead.
* `tokenize_eq`: the tokens of a text, by its scan.
-/

namespace IntExpr

namespace TokenStream

/-- The scan of the characters that are still to be read. -/
def undrawn (s : TokenStream) : Scan :=
  match s.next with
  | none => ⟨[.token ⟨.finish, s.length⟩], none⟩
  | some (i, cs) => scanFrom s.policy i cs

/-- All that a cursor has still to show. -/
def ahead (s : TokenStream) : Scan :=
  match s.current with
  | none => s.undrawn
  | some t => if t.symbol = .finish then ⟨[.token t], none⟩ else s.undrawn.cons (.token t)

/-- The characters that a cursor has passed over when token number `n` from here on, counted from zero,
comes into view. -/
def skippedBefore (s : TokenStream) (n : Nat) : List Located := s.passed ++ s.ahead.skippedBefore n

/-- The tokens `taken` were taken between two states of a cursor, and nothing else was. -/
structure Between (taken : List Token) (s s' : TokenStream) : Prop where
  length : s'.length = s.length
  tokens : s.ahead.tokens = taken ++ s'.ahead.tokens
  rejected : s'.ahead.rejected = s.ahead.rejected
  skipped : ∀ n, s'.skippedBefore n = s.skippedBefore (taken.length + n)

variable {s s' s₁ : TokenStream} {t : Token} {ts taken more : List Token} {c : Located} {n : Nat}

theorem Between.refl (s : TokenStream) : Between [] s s :=
  ⟨rfl, rfl, rfl, fun n => by rw [List.length_nil, Nat.zero_add]⟩

theorem Between.trans (h : Between taken s s₁) (h' : Between more s₁ s') :
    Between (taken ++ more) s s' where
  length := h'.length.trans h.length
  tokens := by rw [h.tokens, h'.tokens, List.append_assoc]
  rejected := h'.rejected.trans h.rejected
  skipped n := by rw [h'.skipped, h.skipped, List.length_append, Nat.add_assoc]

/-! ### Drawing -/

theorem skippedAmong_append (passed : List Located) (items : List ScanItem) (n : Nat) :
    Scan.skippedAmong n (passed.map .skipped ++ items) = passed ++ Scan.skippedAmong n items := by
  induction passed with
  | nil => rfl
  | cons c passed ih =>
    rw [List.map_cons, List.cons_append, Scan.skippedAmong, ih]
    rfl

theorem tokens_append_skipped (passed : List Located) (items : List ScanItem) (r : Option Located) :
    Scan.tokens ⟨passed.map .skipped ++ items, r⟩ = Scan.tokens ⟨items, r⟩ := by
  induction passed with
  | nil => rfl
  | cons c passed ih => exact ih

/-- The cursor after a draw. -/
def drawn (s : TokenStream) (d : Draw) : TokenStream :=
  { s with next := d.next, current := d.found.toOption, passed := s.passed ++ d.passed }

/-- What a draw leaves ahead is the scan without the characters that were passed over. -/
theorem ahead_drawn {i : Nat} {cs : List Char} {d : Draw} (hd : d = draw s.policy i cs)
    (hfound : d.found = .ok t) : d.scan s.policy =
      ⟨d.passed.map .skipped ++ (s.drawn d).ahead.items, (s.drawn d).ahead.rejected⟩ := by
  have hfinish := symbol_eq_finish_iff_of_draw (hd ▸ hfound)
  rw [← hd] at hfinish
  unfold Draw.scan ahead drawn
  rw [hfound]
  dsimp only [Except.toOption]
  cases hnext : d.next with
  | none => rw [if_pos (hfinish.mpr hnext)]
  | some p =>
    rw [if_neg fun h => nomatch hnext.symm.trans (hfinish.mp h)]
    rfl

theorem between_drawn {i : Nat} {cs : List Char} {d : Draw} (hcurrent : s.current = none)
    (hnext : s.next = some (i, cs)) (hd : d = draw s.policy i cs) (hfound : d.found = .ok t) :
    Between [] s (s.drawn d) := by
  have hahead : s.ahead = ⟨d.passed.map .skipped ++ (s.drawn d).ahead.items, (s.drawn d).ahead.rejected⟩ := by
    rw [ahead, hcurrent]
    show s.undrawn = _
    rw [undrawn, hnext]
    show scanFrom s.policy i cs = _
    rw [scanFrom_eq_draw, ← hd, ahead_drawn hd hfound]
  refine ⟨rfl, ?_, ?_, fun n => ?_⟩
  · rw [hahead, tokens_append_skipped]
    rfl
  · rw [hahead]
  · rw [skippedBefore, skippedBefore, hahead, Scan.skippedBefore, Scan.skippedBefore, skippedAmong_append,
      ← List.append_assoc, List.length_nil, Nat.zero_add]
    rfl

/-! ### Looking -/

/-- A character that is not let past is reported when a token is wanted, and only the end is left. -/
structure Reports (s : TokenStream) (c : Located) (s' : TokenStream) : Prop where
  length : s'.length = s.length
  tokens : s.ahead.tokens = []
  rejected : s.ahead.rejected = some c
  skipped : s'.passed = s.skippedBefore 0
  ahead : s'.ahead = ⟨[.token ⟨.finish, s.length⟩], none⟩

theorem tokens_of_current (h : s.current = some t) : ∃ ts, s.ahead.tokens = t :: ts := by
  rw [ahead, h]
  dsimp only
  split
  · exact ⟨[], rfl⟩
  · exact ⟨_, Scan.tokens_cons_token t s.undrawn⟩

/-- With the next token in view nothing more is passed over. -/
theorem passed_of_current (h : s.current = some t) : s.passed = s.skippedBefore 0 := by
  rw [skippedBefore, ahead, h]
  dsimp only
  split <;> exact (List.append_nil _).symm

/-- A text that was read to its end, or to a character that is not let past, has the end ahead. -/
theorem ahead_of_spent (hcurrent : s.current = none) (hnext : s.next = none) :
    s.ahead = ⟨[.token ⟨.finish, s.length⟩], none⟩ := by
  rw [ahead, hcurrent]
  show s.undrawn = _
  rw [undrawn, hnext]

theorem next_of_draw_error {policy : UnknownCharacters} {i : Nat} {cs : List Char}
    (h : (draw policy i cs).found = .error c) : (draw policy i cs).next = none := by
  fun_induction draw policy i cs with
  | case1 | case3 | case4 => cases h
  | case2 i c cs hsep ih => exact ih h
  | case5 i c cs hsep hdigit hs hpolicy ih =>
    subst hpolicy
    exact ih h
  | case6 => rfl

theorem reports_drawn {i : Nat} {cs : List Char} {d : Draw} (hcurrent : s.current = none)
    (hnext : s.next = some (i, cs)) (hd : d = draw s.policy i cs) (hfound : d.found = .error c) :
    s.Reports c (s.drawn d) := by
  have hahead : s.ahead = ⟨d.passed.map .skipped, some c⟩ := by
    rw [ahead, hcurrent]
    show s.undrawn = _
    rw [undrawn, hnext]
    show scanFrom s.policy i cs = _
    rw [scanFrom_eq_draw, ← hd, Draw.scan, hfound]
  have hall := List.append_nil (d.passed.map ScanItem.skipped)
  have hspent : (s.drawn d).next = none := (congrArg Draw.next hd).trans (next_of_draw_error (hd ▸ hfound))
  refine ⟨rfl, ?_, ?_, ?_, ahead_of_spent (congrArg Except.toOption hfound) hspent⟩
  · rw [hahead, ← hall, tokens_append_skipped]
    rfl
  · rw [hahead]
  · rw [skippedBefore, hahead, Scan.skippedBefore, ← hall, skippedAmong_append, Scan.skippedAmong,
      List.append_nil]
    rfl

/-- **To look** gives the next token, which is then in view, or it reports. -/
theorem peek_cases (s : TokenStream) :
    (∃ t s', s.peek = (.ok t, s') ∧ s'.current = some t ∧ Between [] s s') ∨
      ∃ c s', s.peek = (.error c, s') ∧ s.Reports c s' := by
  cases hcurrent : s.current with
  | some t => exact .inl ⟨t, s, peek_of_current hcurrent, hcurrent, .refl s⟩
  | none =>
    cases hnext : s.next with
    | none =>
      have hahead := ahead_of_spent hcurrent hnext
      have hpeek : s.peek = (.ok ⟨.finish, s.length⟩, { s with current := some ⟨.finish, s.length⟩ }) := by
        rw [peek, hcurrent, hnext]
      refine .inl ⟨_, _, hpeek, rfl, rfl, ?_, ?_, fun n => ?_⟩
      · rw [hahead]
        rfl
      · rw [hahead]
        rfl
      · rw [skippedBefore, skippedBefore, hahead, List.length_nil, Nat.zero_add]
        rfl
    | some p =>
      obtain ⟨i, cs⟩ := p
      have hpeek : s.peek = ((draw s.policy i cs).found, s.drawn (draw s.policy i cs)) := by
        rw [peek, hcurrent, hnext]
        rfl
      cases hfound : (draw s.policy i cs).found with
      | ok t =>
        rw [hfound] at hpeek
        exact .inl ⟨t, _, hpeek, congrArg Except.toOption hfound, between_drawn hcurrent hnext rfl hfound⟩
      | error c =>
        rw [hfound] at hpeek
        exact .inr ⟨c, _, hpeek, reports_drawn hcurrent hnext rfl hfound⟩

theorem reports_of_peek (h : s.peek = (.error c, s')) : s.Reports c s' := by
  rcases peek_cases s with ⟨t, s₁, hpeek, -, -⟩ | ⟨c', s₁, hpeek, hreports⟩
  · cases h.symm.trans hpeek
  · cases h.symm.trans hpeek
    exact hreports

theorem between_of_peek (h : s.peek = (.ok t, s')) : Between [] s s' := by
  rcases peek_cases s with ⟨t', s₁, hpeek, -, hbetween⟩ | ⟨c, s₁, hpeek, -⟩
  · cases h.symm.trans hpeek
    exact hbetween
  · cases h.symm.trans hpeek

theorem tokens_of_peek (h : s.peek = (.ok t, s')) : ∃ ts, s.ahead.tokens = t :: ts := by
  rw [(between_of_peek h).tokens]
  exact tokens_of_current (current_of_peek h)

/-! ### Taking -/

/-- To take the token in view leaves what follows it. -/
theorem between_taken (h : s.current = some t) (ht : t.symbol ≠ .finish) :
    Between [t] s s.advance.2 := by
  rw [advance_of_current h ht]
  have hahead : s.ahead = s.undrawn.cons (.token t) := by
    rw [ahead, h]
    exact if_neg ht
  refine ⟨rfl, ?_, ?_, fun n => ?_⟩
  · rw [hahead, Scan.tokens_cons_token]
    rfl
  · rw [hahead]
    rfl
  · rw [List.length_singleton, Nat.add_comm, skippedBefore, skippedBefore, hahead]
    rfl

theorem between_of_peek_advance (h : s.peek = (.ok t, s')) (ht : t.symbol ≠ .finish) :
    Between [t] s s'.advance.2 :=
  (between_of_peek h).trans (between_taken (current_of_peek h) ht)

/-- The end in view is all that is ahead. -/
theorem ahead_of_finish (h : s.current = some t) (ht : t.symbol = .finish) :
    s.ahead = ⟨[.token t], none⟩ := by
  rw [ahead, h]
  exact if_pos ht

/-- **To take** gives the next token, which is gone then unless it is the end, or it reports. -/
theorem advance_cases (s : TokenStream) :
    (∃ t s', s.advance = (.ok t, s') ∧ t.symbol = .finish ∧ s'.current = some t ∧ Between [] s s') ∨
    (∃ t s', s.advance = (.ok t, s') ∧ t.symbol ≠ .finish ∧ Between [t] s s') ∨
      ∃ c s', s.advance = (.error c, s') ∧ s.Reports c s' := by
  rcases peek_cases s with ⟨t, s', hpeek, hcurrent, hbetween⟩ | ⟨c, s', hpeek, hreports⟩
  · by_cases ht : t.symbol = .finish
    · refine .inl ⟨t, s', ?_, ht, hcurrent, hbetween⟩
      rw [advance, hpeek]
      exact congrArg (Prod.mk _) (if_pos ht)
    · refine .inr (.inl ⟨t, s'.advance.2, ?_, ht, hbetween.trans (between_taken hcurrent ht)⟩)
      rw [advance, hpeek, advance_of_current hcurrent ht]
      exact congrArg (Prod.mk _) (if_neg ht)
  · refine .inr (.inr ⟨c, s', ?_, hreports⟩)
    rw [advance, hpeek]

/-- **To take all** gives the tokens ahead, of which the last and no other is the end, or it reports. -/
theorem drain_cases (s : TokenStream) :
    (∃ init t s', s.drain = (.ok (init ++ [t]), s') ∧ .finish ∉ init.map Token.symbol ∧
      t.symbol = .finish ∧ s'.current = some t ∧ Between init s s') ∨
      ∃ init c s₁ s', s.drain = (.error c, s') ∧ .finish ∉ init.map Token.symbol ∧ Between init s s₁ ∧
        s₁.Reports c s' := by
  induction hleft : s.left using Nat.strongRecOn generalizing s with
  | _ k ih =>
    subst hleft
    rw [drain]
    rcases advance_cases s with
      ⟨t, s', hadv, ht, hcurrent, hbetween⟩ | ⟨t, s', hadv, ht, hbetween⟩ | ⟨c, s', hadv, hreports⟩
    · refine .inl ⟨[], t, s', ?_, List.not_mem_nil, ht, hcurrent, hbetween⟩
      rw [hadv]
      exact if_pos ht
    · have hnot (init : List Token) (hinit : .finish ∉ init.map Token.symbol) :
          .finish ∉ (t :: init).map Token.symbol := by
        rw [List.map_cons, List.mem_cons, not_or]
        exact ⟨Ne.symm ht, hinit⟩
      rw [hadv]
      dsimp only
      rw [if_neg ht]
      rcases ih s'.left (left_advance_lt hadv ht) s' rfl with
        ⟨init, u, s'', hdrain, hinit, hu, hcurrent, hrest⟩ | ⟨init, c, s₁, s'', hdrain, hinit, hrest, hreports⟩
      · rw [hdrain]
        exact .inl ⟨t :: init, u, s'', rfl, hnot init hinit, hu, hcurrent, hbetween.trans hrest⟩
      · rw [hdrain]
        exact .inr ⟨t :: init, c, s₁, s'', rfl, hnot init hinit, hbetween.trans hrest, hreports⟩
    · refine .inr ⟨[], c, s, s', ?_, List.not_mem_nil, .refl s, hreports⟩
      rw [hadv]

theorem ahead_ofSource (policy : UnknownCharacters) (source : String) :
    (ofSource policy source).ahead = IntExpr.scan policy source := rfl

end TokenStream

/-- The tokens of a text are those of its scan, unless a character ends it. -/
theorem tokenize_eq (policy : UnknownCharacters) (source : String) : tokenize policy source =
    match (scan policy source).rejected with
    | none => .ok (scan policy source).tokens
    | some c => .error c := by
  rw [tokenize, ← TokenStream.ahead_ofSource]
  rcases TokenStream.drain_cases (.ofSource policy source) with
    ⟨init, t, s', hdrain, -, ht, hcurrent, hbetween⟩ | ⟨init, c, s₁, s', hdrain, -, hbetween, hreports⟩
  · have hend := TokenStream.ahead_of_finish hcurrent ht
    rw [hdrain, hbetween.tokens, ← hbetween.rejected, hend]
    rfl
  · rw [hdrain, ← hbetween.rejected, hreports.rejected]

end IntExpr
