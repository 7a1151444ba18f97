import IntExpr.Proofs.Lookahead
import IntExpr.Proofs.Tokenization

/-!
# Cursor — what a cursor gives, however it is used

A cursor may be looked at, advanced and drained in any order, and draws its tokens as they are wanted.
Of all that is ahead of it two things matter: the tokens that it has not given yet, and the character
that it has still to report (`Prospect`).  `Gives` says all that one operation does with them, and what a
list of operations gives is an induction with one case for each kind of step.

* `drain_eq_takings`: to drain is to take one token after the other.
* `Keeps.perform`: the operations of a cursor do what `Gives` says.
* `cursor_gives_in_order`: what any list of operations gives.
-/

namespace IntExpr.TokenStream

inductive Op where
  | peek
  | advance
  | drain
  deriving DecidableEq, Repr

/-- What an operation gives: tokens, or the character that is not let past. -/
abbrev Answer := Except Located (List Token)

def perform (s : TokenStream) : Op → Answer × TokenStream
  | .peek => (s.peek.1.map ([·]), s.peek.2)
  | .advance => (s.advance.1.map ([·]), s.advance.2)
  | .drain => s.drain

def after (s : TokenStream) : List Op → TokenStream
  | [] => s
  | op :: ops => (s.perform op).2.after ops

def answer (s : TokenStream) (ops : List Op) (op : Op) : Answer := ((s.after ops).perform op).1

/-- Some operations and what they give. -/
def answers (s : TokenStream) : List Op → List (Op × Answer)
  | [] => []
  | op :: ops => (op, (s.perform op).1) :: (s.perform op).2.answers ops

variable {s s' : TokenStream} {n : Nat} {t : Token} {ts us : List Token} {c : Located}
  {report : Option Located} {op : Op} {ops : List Op} {a : Answer}

/-! ### Taking -/

/-- What is given when one token is taken after the other, up to the end of the text or a report. -/
def takings (s : TokenStream) : List (Except Located Token) :=
  match _h : s.advance with
  | (.ok t, s') => if t.symbol = .finish then [.ok t] else .ok t :: s'.takings
  | (.error c, _) => [.error c]
termination_by s.left
decreasing_by exact left_advance_lt _h ‹_›

/-- What an operation takes and reports, one thing after the other; a look takes nothing. -/
def traceOf (s : TokenStream) : Op → List (Except Located Token)
  | .peek =>
    match s.peek.1 with
    | .ok _ => []
    | .error c => [.error c]
  | .advance => [s.advance.1]
  | .drain => s.takings

def trace (s : TokenStream) : List Op → List (Except Located Token)
  | [] => []
  | op :: ops => s.traceOf op ++ (s.perform op).2.trace ops

/-- **To drain is to take one token after the other**, up to the end of the text or a report. -/
theorem drain_eq_takings (s : TokenStream) : s.drain.1 = s.takings.mapM id := by
  fun_induction takings s with
  | case1 s t s' h hfinish =>
    rw [drain, h]
    dsimp only
    rw [if_pos hfinish]
    rfl
  | case2 s t s' h hfinish ih =>
    rw [drain, h]
    dsimp only
    rw [if_neg hfinish, List.mapM_cons, ← ih]
    cases s'.drain with
    | mk r s'' => cases r <;> rfl
  | case3 s c s' h =>
    rw [drain, h]
    rfl

theorem takings_of_take (h : s.advance = (.ok t, s')) (ht : t.symbol ≠ .finish) :
    s.takings = .ok t :: s'.takings := by
  rw [takings]
  split
  · next u s'' h' =>
    obtain ⟨htu, rfl⟩ := Prod.mk.inj (h.symm.trans h')
    obtain rfl := Except.ok.inj htu
    rw [if_neg ht]
  · next h' => cases h.symm.trans h'

theorem takings_of_stop {r : Except Located Token} (h : s.advance = (r, s'))
    (hr : ∀ t, r = .ok t → t.symbol = .finish) : s.takings = [r] := by
  rw [takings]
  split
  · next u s'' h' =>
    obtain ⟨rfl, -⟩ := Prod.mk.inj (h.symm.trans h')
    rw [if_pos (hr u rfl)]
  · next h' =>
    obtain ⟨rfl, -⟩ := Prod.mk.inj (h.symm.trans h')
    rfl

/-! ### One operation -/

/-- What a cursor has still to give: tokens, then perhaps a report, and then the end. -/
structure Prospect where
  tokens : List Token
  report : Option Located

/-- Over a text of `n` characters, the cursor has `p` still to give; after a report that is the end. -/
inductive Keeps (n : Nat) (s : TokenStream) : Prospect → Prop
  | text {ts : List Token} : s.length = n → .finish ∉ ts.map Token.symbol →
    s.ahead.tokens = ts ++ [⟨.finish, n⟩] → s.ahead.rejected = none → Keeps n s ⟨ts, none⟩
  | cut {ts : List Token} {c : Located} : s.length = n → .finish ∉ ts.map Token.symbol →
    s.ahead.tokens = ts → s.ahead.rejected = some c → Keeps n s ⟨ts, some c⟩

def Prospect.last (p : Prospect) (n : Nat) : Except Located Token :=
  p.report.elim (.ok ⟨.finish, n⟩) .error

/-- With `p` to give, an operation gives an answer and leaves `p'`; the list is what it takes and reports. -/
inductive Gives (n : Nat) : Prospect → Op → Answer → List (Except Located Token) → Prospect → Prop
  | look {t : Token} {ts : List Token} {r : Option Located} : t.symbol ≠ .finish →
    Gives n ⟨t :: ts, r⟩ .peek (.ok [t]) [] ⟨t :: ts, r⟩
  | lookReport {c : Located} : Gives n ⟨[], some c⟩ .peek (.error c) [.error c] ⟨[], none⟩
  | lookEnd : Gives n ⟨[], none⟩ .peek (.ok [⟨.finish, n⟩]) [] ⟨[], none⟩
  | take {t : Token} {ts : List Token} {r : Option Located} : t.symbol ≠ .finish →
    Gives n ⟨t :: ts, r⟩ .advance (.ok [t]) [.ok t] ⟨ts, r⟩
  | takeReport {c : Located} : Gives n ⟨[], some c⟩ .advance (.error c) [.error c] ⟨[], none⟩
  | takeEnd : Gives n ⟨[], none⟩ .advance (.ok [⟨.finish, n⟩]) [.ok ⟨.finish, n⟩] ⟨[], none⟩
  | drain {ts : List Token} : Gives n ⟨ts, none⟩ .drain (.ok (ts ++ [⟨.finish, n⟩]))
    (ts.map .ok ++ [.ok ⟨.finish, n⟩]) ⟨[], none⟩
  | drainReport {ts : List Token} {c : Located} :
    Gives n ⟨ts, some c⟩ .drain (.error c) (ts.map .ok ++ [.error c]) ⟨[], none⟩

namespace Keeps

variable {p : Prospect}

theorem of_between (taken : List Token) (h : Keeps n s ⟨taken ++ ts, report⟩) (hb : Between taken s s') :
    Keeps n s' ⟨ts, report⟩ := by
  have hsub (hts : .finish ∉ (taken ++ ts).map Token.symbol) : .finish ∉ ts.map Token.symbol :=
    fun hmem => hts (by rw [List.map_append]; exact List.mem_append_right _ hmem)
  cases h with
  | text hlength hts htokens hrejected =>
    rw [hb.tokens, List.append_assoc] at htokens
    exact .text (hb.length.trans hlength) (hsub hts) (List.append_cancel_left htokens)
      (hb.rejected.trans hrejected)
  | cut hlength hts htokens hrejected =>
    rw [hb.tokens] at htokens
    exact .cut (hb.length.trans hlength) (hsub hts) (List.append_cancel_left htokens)
      (hb.rejected.trans hrejected)

/-- What is reported was all that there was to give, and then only the end is. -/
theorem of_reports (h : Keeps n s p) (hr : s.Reports c s') :
    p = ⟨[], some c⟩ ∧ Keeps n s' ⟨[], none⟩ := by
  cases h with
  | text _ _ _ hrejected => cases hrejected.symm.trans hr.rejected
  | cut hlength _ htokens hrejected =>
    obtain rfl := htokens.symm.trans hr.tokens
    obtain rfl := Option.some.inj (hrejected.symm.trans hr.rejected)
    refine ⟨rfl, .text (hr.length.trans hlength) List.not_mem_nil ?_ ?_⟩
    · rw [hr.ahead, hlength]
      rfl
    · rw [hr.ahead]

theorem tokens_eq_of_reports {s₁ : TokenStream} (h : Keeps n s ⟨ts, report⟩) (hb : Between us s s₁)
    (hr : s₁.Reports c s') : ts = us := by
  have htokens : s.ahead.tokens = us := by rw [hb.tokens, hr.tokens, List.append_nil]
  cases h with
  | text _ _ _ hrejected => cases hrejected.symm.trans (hb.rejected.symm.trans hr.rejected)
  | cut _ _ hall _ => exact hall.symm.trans htokens

/-- The token ahead is the first one that is still to be given, or it is the end. -/
theorem first (h : Keeps n s p) (hahead : s.ahead.tokens = t :: us) :
    t = ⟨.finish, n⟩ ∧ p = ⟨[], none⟩ ∨ t.symbol ≠ .finish ∧ ∃ ts, p = ⟨t :: ts, p.report⟩ := by
  have hfirst {ts : List Token} {u : Token} (hts : .finish ∉ (u :: ts).map Token.symbol) :
      u.symbol ≠ .finish := fun hu => hts (hu ▸ List.mem_cons_self)
  cases h with
  | @text ts _ hts htokens _ =>
    cases ts with
    | nil => exact .inl ⟨(List.cons.inj (hahead.symm.trans htokens)).1, rfl⟩
    | cons u ts =>
      obtain rfl := (List.cons.inj (hahead.symm.trans htokens)).1
      exact .inr ⟨hfirst hts, ts, rfl⟩
  | @cut ts c _ hts htokens _ =>
    cases ts with
    | nil => cases hahead.symm.trans htokens
    | cons u ts =>
      obtain rfl := (List.cons.inj (hahead.symm.trans htokens)).1
      exact .inr ⟨hfirst hts, ts, rfl⟩

theorem of_finish (h : Keeps n s ⟨ts, report⟩) (hb : Between us s s') (hcurrent : s'.current = some t)
    (ht : t.symbol = .finish) (hus : .finish ∉ us.map Token.symbol) :
    ts = us ∧ report = none ∧ t = ⟨.finish, n⟩ ∧ Keeps n s' ⟨[], none⟩ := by
  have hahead : s'.ahead = ⟨[.token t], none⟩ := ahead_of_finish hcurrent ht
  have htokens : s.ahead.tokens = us ++ [t] := by
    rw [hb.tokens, hahead]
    rfl
  have hnone : s.ahead.rejected = none := by rw [← hb.rejected, hahead]
  cases h with
  | text hlength hts hall hrejected =>
    obtain ⟨rfl, hlast⟩ := List.append_inj' (hall.symm.trans htokens) rfl
    obtain rfl := (List.cons.inj hlast).1
    refine ⟨rfl, rfl, rfl, .text (hb.length.trans hlength) List.not_mem_nil ?_ ?_⟩
    · rw [hahead]
      rfl
    · rw [hahead]
  | cut _ _ _ hrejected => cases hnone.symm.trans hrejected

theorem advance (h : Keeps n s p) :
    (∃ s', p = ⟨[], none⟩ ∧ s.advance = (.ok ⟨.finish, n⟩, s') ∧ Keeps n s' ⟨[], none⟩) ∨
    (∃ t ts s', p = ⟨t :: ts, p.report⟩ ∧ t.symbol ≠ .finish ∧ s.advance = (.ok t, s') ∧
      Keeps n s' ⟨ts, p.report⟩) ∨
    ∃ c s', p = ⟨[], some c⟩ ∧ s.advance = (.error c, s') ∧ Keeps n s' ⟨[], none⟩ := by
  rcases advance_cases s with
    ⟨t, s', hadv, ht, hcurrent, hb⟩ | ⟨t, s', hadv, ht, hb⟩ | ⟨c, s', hadv, hreports⟩
  · obtain ⟨ts, report⟩ := p
    obtain ⟨rfl, rfl, rfl, hkeeps⟩ := h.of_finish hb hcurrent ht List.not_mem_nil
    exact .inl ⟨s', rfl, hadv, hkeeps⟩
  · rcases h.first hb.tokens with ⟨rfl, -⟩ | ⟨-, ts, hp⟩
    · exact absurd rfl ht
    · rw [hp] at h
      exact .inr (.inl ⟨t, ts, s', hp, ht, hadv, of_between [t] h hb⟩)
  · obtain ⟨rfl, hkeeps⟩ := h.of_reports hreports
    exact .inr (.inr ⟨c, s', rfl, hadv, hkeeps⟩)

/-- One after the other, all that there is to give is taken. -/
theorem takings (h : Keeps n s p) : s.takings = p.tokens.map .ok ++ [p.last n] := by
  obtain ⟨ts, report⟩ := p
  induction ts generalizing s with
  | nil =>
    rcases h.advance with ⟨s', hp, hadv, -⟩ | ⟨t, ts, s', hp, -⟩ | ⟨c, s', hp, hadv, -⟩
    · obtain rfl := congrArg Prospect.report hp
      exact takings_of_stop hadv fun t ht => Except.ok.inj ht ▸ rfl
    · cases congrArg Prospect.tokens hp
    · obtain rfl := congrArg Prospect.report hp
      exact takings_of_stop hadv nofun
  | cons t ts ih =>
    rcases h.advance with ⟨s', hp, -⟩ | ⟨u, us, s', hp, hu, hadv, hkeeps⟩ | ⟨c, s', hp, -⟩
    · cases congrArg Prospect.tokens hp
    · obtain ⟨rfl, rfl⟩ := List.cons.inj (congrArg Prospect.tokens hp)
      rw [takings_of_take hadv hu, ih hkeeps]
      rfl
    · cases congrArg Prospect.tokens hp

end Keeps

/-- **An operation does what `Gives` says**, and keeps the cursor in order. -/
theorem Keeps.perform {p : Prospect} (h : Keeps n s p) (op : Op) : ∃ p',
    Keeps n (s.perform op).2 p' ∧ Gives n p op (s.perform op).1 (s.traceOf op) p' := by
  cases op with
  | peek =>
    rw [TokenStream.perform, traceOf]
    rcases peek_cases s with ⟨t, s', hpeek, hcurrent, hb⟩ | ⟨c, s', hpeek, hreports⟩
    · have hkeeps : Keeps n s' p := of_between [] h hb
      obtain ⟨us, hahead⟩ := tokens_of_current hcurrent
      rw [hpeek]
      refine ⟨p, hkeeps, ?_⟩
      rcases hkeeps.first hahead with ⟨rfl, rfl⟩ | ⟨ht, ts, hp⟩
      · exact .lookEnd
      · rw [hp]
        exact .look ht
    · obtain ⟨rfl, hkeeps⟩ := h.of_reports hreports
      rw [hpeek]
      exact ⟨_, hkeeps, .lookReport⟩
  | advance =>
    rw [TokenStream.perform, traceOf]
    rcases h.advance with ⟨s', rfl, hadv, hkeeps⟩ | ⟨t, ts, s', hp, ht, hadv, hkeeps⟩ | ⟨c, s', rfl, hadv, hkeeps⟩
    · rw [hadv]
      exact ⟨_, hkeeps, .takeEnd⟩
    · rw [hadv, hp]
      exact ⟨_, hkeeps, .take ht⟩
    · rw [hadv]
      exact ⟨_, hkeeps, .takeReport⟩
  | drain =>
    rw [TokenStream.perform, traceOf, h.takings]
    rcases drain_cases s with
      ⟨init, t, s', hdrain, hinit, ht, hcurrent, hb⟩ | ⟨init, c, s₁, s', hdrain, -, hb, hreports⟩
    · obtain ⟨ts, report⟩ := p
      obtain ⟨rfl, rfl, rfl, hkeeps⟩ := h.of_finish hb hcurrent ht hinit
      rw [hdrain]
      exact ⟨_, hkeeps, .drain⟩
    · -- all that there is to give was taken before the report
      obtain ⟨ts, report⟩ := p
      obtain rfl : ts = init := h.tokens_eq_of_reports hb hreports
      have hrest : Keeps n s₁ ⟨[], report⟩ := of_between ts (by rwa [List.append_nil]) hb
      obtain ⟨hp, hkeeps⟩ := hrest.of_reports hreports
      obtain rfl := congrArg Prospect.report hp
      rw [hdrain]
      exact ⟨_, hkeeps, .drainReport⟩

/-! ### Many operations -/

/-- What is given and reported from a prospect on, with `k` ends of the text. -/
def Prospect.promise (p : Prospect) (n k : Nat) : List (Except Located Token) :=
  p.tokens.map .ok ++ p.report.toList.map .error ++ List.replicate k (.ok ⟨.finish, n⟩)

variable {p p' : Prospect} {tr : List (Except Located Token)}

theorem Gives.promise_eq (h : Gives n p op a tr p') (k : Nat) :
    ∃ k', p.promise n k' = tr ++ p'.promise n k := by
  cases h with
  | look | lookReport | lookEnd | take | takeReport => exact ⟨k, rfl⟩
  | takeEnd => exact ⟨k + 1, rfl⟩
  | drain => exact ⟨k + 1, by simp [Prospect.promise, List.replicate_succ]⟩
  | drainReport => exact ⟨k, by simp [Prospect.promise]⟩

/-- What is taken and reported is an initial part of what is promised. -/
theorem Keeps.trace_prefix (h : Keeps n s p) (ops : List Op) : ∃ k, s.trace ops <+: p.promise n k := by
  induction ops generalizing s p with
  | nil => exact ⟨0, List.nil_prefix⟩
  | cons op ops ih =>
    obtain ⟨p', hkeeps, hgives⟩ := h.perform op
    obtain ⟨k, hk⟩ := ih hkeeps
    obtain ⟨k', hk'⟩ := hgives.promise_eq k
    refine ⟨k', ?_⟩
    rw [hk', trace]
    exact (List.prefix_append_right_inj _).mpr hk

/-- An answer after which a text is at its end: it holds the end, or it is a report. -/
def Answer.Ends : Answer → Prop
  | .ok ts => .finish ∈ ts.map Token.symbol
  | .error _ => True

theorem Gives.eq_of_ends (h : Gives n p op a tr p') (ha : a.Ends) : p' = ⟨[], none⟩ := by
  cases h with
  | look ht | take ht => exact absurd (List.mem_singleton.mp ha) (Ne.symm ht)
  | lookReport | lookEnd | takeReport | takeEnd | drain | drainReport => rfl

theorem Gives.eq_at_end (h : Gives n ⟨[], none⟩ op a tr p') : a = .ok [⟨.finish, n⟩] ∧ p' = ⟨[], none⟩ := by
  cases h with
  | lookEnd | takeEnd | drain => exact ⟨rfl, rfl⟩

theorem Keeps.after_at_end (h : Keeps n s ⟨[], none⟩) (ops : List Op) :
    Keeps n (s.after ops) ⟨[], none⟩ := by
  induction ops generalizing s with
  | nil => exact h
  | cons op ops ih =>
    obtain ⟨p', hkeeps, hgives⟩ := h.perform op
    obtain rfl := hgives.eq_at_end.2
    exact ih hkeeps

theorem Keeps.answer_at_end (h : Keeps n s ⟨[], none⟩) (ops : List Op) (op : Op) :
    s.answer ops op = .ok [⟨.finish, n⟩] := by
  obtain ⟨p', -, hgives⟩ := (h.after_at_end ops).perform op
  exact hgives.eq_at_end.1

theorem Keeps.at_end_of_ends (h : Keeps n s p) (hends : ∃ a ∈ s.answers ops, a.2.Ends) :
    Keeps n (s.after ops) ⟨[], none⟩ := by
  induction ops generalizing s p with
  | nil =>
    obtain ⟨a, ha, -⟩ := hends
    exact absurd ha List.not_mem_nil
  | cons op ops ih =>
    obtain ⟨p', hkeeps, hgives⟩ := h.perform op
    obtain ⟨a, ha, hend⟩ := hends
    rcases List.mem_cons.mp ha with rfl | ha
    · obtain rfl := hgives.eq_of_ends hend
      exact hkeeps.after_at_end ops
    · exact ih hkeeps ⟨a, ha, hend⟩

theorem after_append (s : TokenStream) (ops more : List Op) :
    s.after (ops ++ more) = (s.after ops).after more := by
  induction ops generalizing s with
  | nil => rfl
  | cons op ops ih => exact ih _

theorem answer_append (s : TokenStream) (ops more : List Op) (op : Op) :
    s.answer (ops ++ more) op = (s.after ops).answer more op := by
  rw [answer, after_append]
  rfl

/-! ### Reports -/

theorem Gives.answer_eq_error_iff (h : Gives n p op a tr p') :
    a = .error c ↔ p.report = some c ∧ (op = .drain ∨ p.tokens = []) := by
  cases h <;> simp

theorem Gives.report_of_ok (h : Gives n p op (.ok ts) tr p') :
    p.report = none ∧ p'.report = none ∨
      p'.report = p.report ∧ tr.length + p'.tokens.length = p.tokens.length := by
  cases h with
  | look => exact .inr ⟨rfl, Nat.zero_add _⟩
  | take => exact .inr ⟨rfl, Nat.add_comm ..⟩
  | lookEnd | takeEnd | drain => exact .inl ⟨rfl, rfl⟩

/-- An operation reports if it wants more than the tokens and nothing has reported before. -/
theorem Keeps.answer_eq_error_iff (h : Keeps n s p) (ops : List Op) (op : Op) (c : Located) :
    s.answer ops op = .error c ↔ p.report = some c ∧ (∀ a ∈ s.answers ops, a.2.isOk = true) ∧
      (op = .drain ∨ (s.trace ops).length = p.tokens.length) := by
  induction ops generalizing s p with
  | nil =>
    obtain ⟨p', -, hgives⟩ := h.perform op
    have hlength : p.tokens = [] ↔ 0 = p.tokens.length := List.length_eq_zero_iff.symm.trans eq_comm
    rw [answer, after, hgives.answer_eq_error_iff, hlength]
    simp [answers, trace]
  | cons op' ops ih =>
    obtain ⟨p', hkeeps, hgives⟩ := h.perform op'
    have hnext : s.answer (op' :: ops) op = (s.perform op').2.answer ops op := rfl
    rw [hnext, answers, trace, List.forall_mem_cons, List.length_append]
    cases ha : (s.perform op').1 with
    | error c' =>
      rw [ha] at hgives
      obtain rfl := hgives.eq_of_ends trivial
      rw [hkeeps.answer_at_end]
      exact ⟨nofun, fun ⟨_, ⟨hok, _⟩, _⟩ => nomatch hok⟩
    | ok ts =>
      rw [ha] at hgives
      rw [ih hkeeps]
      rcases hgives.report_of_ok with ⟨hnone, hnone'⟩ | ⟨hreport, hlength⟩
      · rw [hnone, hnone']
        exact ⟨fun h => absurd h.1 nofun, fun h => absurd h.1 nofun⟩
      · have hsum : (s.traceOf op').length + ((s.perform op').2.trace ops).length = p.tokens.length ↔
            ((s.perform op').2.trace ops).length = p'.tokens.length := by omega
        rw [hreport, hsum]
        exact and_congr_right fun _ => and_congr_left fun _ => (and_iff_right rfl).symm

/-! ### Looks -/

/-- A token that was looked at is what every operation then begins with. -/
theorem perform_of_peek (h : s.peek = (.ok t, s')) (op : Op) : s'.perform op = s.perform op := by
  have hpeek : s'.peek = s.peek := (peek_of_current (current_of_peek h)).trans h.symm
  have hadvance : s'.advance = s.advance := by rw [TokenStream.advance, TokenStream.advance, hpeek]
  cases op with
  | peek => rw [perform, perform, hpeek]
  | advance => rw [perform, perform, hadvance]
  | drain => rw [perform, perform, TokenStream.drain, TokenStream.drain, hadvance]

theorem answers_of_peek (h : s.peek = (.ok t, s')) (ops : List Op) : s'.answers ops = s.answers ops := by
  cases ops with
  | nil => rfl
  | cons op ops => rw [answers, answers, perform_of_peek h]

theorem exists_peek_of_ok (h : (s.perform .peek).1 = .ok ts) :
    ∃ t s', s.peek = (.ok t, s') ∧ ts = [t] ∧ (s.perform .peek).2 = s' := by
  rw [perform] at h ⊢
  cases hpeek : s.peek with
  | mk r s' =>
    rw [hpeek] at h
    cases r with
    | ok t => exact ⟨t, s', rfl, (Except.ok.inj h).symm, rfl⟩
    | error c => cases h

/-- Without reports, looks are as good as not there. -/
theorem answers_filter (h : ∀ a ∈ s.answers ops, a.1 = .peek → a.2.isOk = true) :
    (s.answers ops).filter (·.1 ≠ .peek) = s.answers (ops.filter (· ≠ .peek)) := by
  induction ops generalizing s with
  | nil => rfl
  | cons op ops ih =>
    rw [answers, List.forall_mem_cons] at h
    obtain ⟨hop, hops⟩ := h
    by_cases hlook : op = .peek
    · subst hlook
      cases ha : (s.perform .peek).1 with
      | error c =>
        rw [ha] at hop
        exact nomatch hop rfl
      | ok ts =>
        obtain ⟨t, s', hpeek, -, hnext⟩ := exists_peek_of_ok ha
        rw [answers, List.filter_cons_of_neg (by simp), List.filter_cons_of_neg (by simp), ih hops, hnext,
          answers_of_peek hpeek]
    · rw [answers, List.filter_cons_of_pos (by simpa), List.filter_cons_of_pos (by simpa), answers, ih hops]

/-! ### Whole texts -/

/-- A cursor gives `tokens` in their order, after them a report, if there is one, and then `finish` for
ever. -/
structure GivesInOrder (start : TokenStream) (tokens : List Token) (report : Option Located)
    (finish : Token) : Prop where
  /-- What is taken and reported, one thing after the other, leaves nothing out and repeats nothing. -/
  taken : ∀ ops, ∃ k, start.trace ops <+:
    tokens.map .ok ++ report.toList.map .error ++ List.replicate k (.ok finish)
  /-- To drain is to take one token after the other, up to the end or a report. -/
  drained : ∀ ops, start.answer ops .drain = (start.after ops).takings.mapM id
  /-- After the end or a report every operation gives the end. -/
  ended : ∀ ops more op, (∃ a ∈ start.answers ops, a.2.Ends) →
    start.answer (ops ++ more) op = .ok [finish]
  /-- What a look gives is taken next. -/
  looked : ∀ ops k ts, start.answer ops .peek = .ok ts →
    start.answer (ops ++ List.replicate (k + 1) .peek) .advance = .ok ts
  /-- As long as no look reports, looks change nothing that the other operations give. -/
  looks : ∀ ops ops', ops.filter (· ≠ .peek) = ops'.filter (· ≠ .peek) →
    (∀ a ∈ start.answers ops, a.1 = .peek → a.2.isOk = true) →
    (∀ a ∈ start.answers ops', a.1 = .peek → a.2.isOk = true) →
    (start.answers ops).filter (·.1 ≠ .peek) = (start.answers ops').filter (·.1 ≠ .peek)
  /-- An operation reports if and only if it wants more than the tokens and is the first to do so. -/
  reported : ∀ ops op c, start.answer ops op = .error c ↔ report = some c ∧
    (∀ a ∈ start.answers ops, a.2.isOk = true) ∧
    (op = .drain ∨ (start.trace ops).length = tokens.length)

/-- The cursor at the start of a text has the text before it. -/
theorem keeps_ofSource (policy : UnknownCharacters) (source : String) :
    ∃ p, Keeps source.length (ofSource policy source) p ∧ p.report = (scan policy source).rejected ∧
      (p.report = none → (scan policy source).tokens = p.tokens ++ [⟨.finish, source.length⟩]) ∧
      (p.report ≠ none → (scan policy source).tokens = p.tokens) := by
  have hahead := ahead_ofSource policy source
  cases hrejected : (scan policy source).rejected with
  | none =>
    obtain ⟨init, htokens, hinit⟩ := tokens_of_tokenize (tokenize_eq_ok_iff.mpr ⟨hrejected, rfl⟩)
    exact ⟨⟨init, none⟩, .text rfl hinit (hahead ▸ htokens) (hahead ▸ hrejected), rfl, fun _ => htokens,
      fun h => absurd rfl h⟩
  | some c =>
    exact ⟨⟨(scan policy source).tokens, some c⟩, .cut rfl (finish_not_mem_of_rejected hrejected)
      (congrArg Scan.tokens hahead) (hahead ▸ hrejected), rfl, nofun, fun _ => rfl⟩

theorem Prospect.promise_prefix (p : Prospect) (n k : Nat) : p.promise n k <+: p.promise n (k + 1) := by
  refine (List.prefix_append_right_inj _).mpr ⟨[.ok ⟨.finish, n⟩], ?_⟩
  rw [List.replicate_succ']

theorem answer_advance_of_looked (h : s.answer ops .peek = .ok ts) (k : Nat) :
    s.answer (ops ++ List.replicate k .peek) .advance = .ok ts := by
  obtain ⟨t, s', hpeek, rfl, -⟩ := exists_peek_of_ok h
  rw [answer_append]
  clear h
  generalize s.after ops = s₀ at hpeek
  induction k generalizing s₀ with
  | zero =>
    show s₀.advance.1.map _ = _
    rw [TokenStream.advance, hpeek]
    rfl
  | succ k ih =>
    have hagain := peek_of_current (current_of_peek hpeek)
    have hnext : (s₀.perform .peek).2 = s' := congrArg Prod.snd hpeek
    rw [List.replicate_succ, answer, after, hnext]
    exact ih s' hagain

/-- **However a cursor over a text is used, it gives the tokens of the text in their order**, reports the
character that is not let past once, and then gives the end of the text. -/
theorem cursor_gives_in_order (policy : UnknownCharacters) (source : String) :
    GivesInOrder (ofSource policy source) (scan policy source).tokens (scan policy source).rejected
      ⟨.finish, source.length⟩ := by
  obtain ⟨p, hkeeps, hreport, htext, hcut⟩ := keeps_ofSource policy source
  rw [← hreport]
  refine ⟨fun ops => ?_, fun ops => ?_, fun ops more op hends => ?_, fun ops k ts h => ?_,
    fun ops ops' hsame hops hops' => ?_, fun ops op c => ?_⟩
  · obtain ⟨k, hk⟩ := hkeeps.trace_prefix ops
    refine ⟨k, ?_⟩
    by_cases hnone : p.report = none
    · have hpromise : (scan policy source).tokens.map .ok ++ p.report.toList.map .error ++
          List.replicate k (.ok ⟨.finish, source.length⟩) = p.promise source.length (k + 1) := by
        simp [htext hnone, hnone, Prospect.promise, List.replicate_succ]
      rw [hpromise]
      exact hk.trans (p.promise_prefix _ k)
    · rw [hcut hnone]
      exact hk
  · exact drain_eq_takings _
  · rw [answer_append]
    exact (hkeeps.at_end_of_ends hends).answer_at_end more op
  · exact answer_advance_of_looked h (k + 1)
  · rw [answers_filter hops, answers_filter hops', hsame]
  · rw [hkeeps.answer_eq_error_iff]
    by_cases hnone : p.report = none
    · rw [hnone]
      exact ⟨fun h => absurd h.1 nofun, fun h => absurd h.1 nofun⟩
    · rw [hcut hnone]

end IntExpr.TokenStream
