import IntExpr.Proofs.Nesting

/-!
# Pushdown — a text read in one pass

A machine that reads symbols from left to right and builds nothing.  It knows what it wants next, an
operand, an operator or the rest of a text (`Mode`), and the offsets of the parentheses that are
open.  `step` is one token, `reach` the state after a list of them, `run` the verdict on a text.

* `Goes`: all that a step can do, with one constructor for each kind of step.
* `reach_of_derives`: over a phrase the machine goes from wanting an operand to wanting an operator.
* `length_opened_of_reach`: the open parentheses are those that the tokens leave open.
* `not_newline_of_reach`: no newline was read while a parenthesis is open.
-/

namespace IntExpr.Pushdown

/-- What the machine wants next. -/
inductive Mode where
  | operand
  | operator
  /-- Newlines and the end. -/
  | tail
  deriving DecidableEq, Repr

/-- The mode, and the offsets of the open parentheses, the innermost first. -/
structure State where
  mode : Mode := .operand
  opened : List Nat := []
  deriving DecidableEq, Repr

/-- What becomes of a token. -/
inductive Move where
  | next (s : State)
  | accept
  | refuse
  deriving DecidableEq, Repr

/-- Read one token. -/
def step (s : State) (t : Token) : Move :=
  match s.mode, t.symbol, s.opened with
  | .operand, .op o, _ => if o.level = .sum then .next s else .refuse
  | .operand, .number _, _ => .next { s with mode := .operator }
  | .operand, .leftParen, _ => .next { s with opened := t.pos :: s.opened }
  | .operand, _, _ => .refuse
  | .operator, .op _, _ => .next { s with mode := .operand }
  | .operator, .rightParen, _ :: opened => .next { s with opened := opened }
  | .operator, .newline, [] => .next { s with mode := .tail }
  | .operator, .finish, [] => .accept
  | .operator, _, _ => .refuse
  | .tail, .newline, _ => .next s
  | .tail, .finish, _ => .accept
  | .tail, _, _ => .refuse

/-- The state after a list of tokens, if the machine goes on at each of them. -/
def reach (s : State) : List Token → Option State
  | [] => some s
  | t :: ts =>
    match step s t with
    | .next s' => reach s' ts
    | _ => none

/-- A refusal: the state, and the tokens from the refused one on. -/
structure Refusal where
  state : State
  rest : List Token
  deriving DecidableEq, Repr

/-- Read tokens until they are accepted or one is refused. -/
def run (s : State) : List Token → Except Refusal Unit
  | [] => .error ⟨s, []⟩
  | t :: ts =>
    match step s t with
    | .next s' => run s' ts
    | .accept => .ok ()
    | .refuse => .error ⟨s, t :: ts⟩

/-! ### One step -/

/-- `t` is read in `s` and leads to `s'`. -/
inductive Goes : State → Token → State → Prop
  | sign {o : BinOp} {pos : Nat} {opened : List Nat} :
    o.level = .sum → Goes ⟨.operand, opened⟩ ⟨.op o, pos⟩ ⟨.operand, opened⟩
  | number {digits : String} {pos : Nat} {opened : List Nat} :
    Goes ⟨.operand, opened⟩ ⟨.number digits, pos⟩ ⟨.operator, opened⟩
  | push {pos : Nat} {opened : List Nat} :
    Goes ⟨.operand, opened⟩ ⟨.leftParen, pos⟩ ⟨.operand, pos :: opened⟩
  | op {o : BinOp} {pos : Nat} {opened : List Nat} :
    Goes ⟨.operator, opened⟩ ⟨.op o, pos⟩ ⟨.operand, opened⟩
  | pop {p pos : Nat} {opened : List Nat} :
    Goes ⟨.operator, p :: opened⟩ ⟨.rightParen, pos⟩ ⟨.operator, opened⟩
  | leave {pos : Nat} : Goes ⟨.operator, []⟩ ⟨.newline, pos⟩ ⟨.tail, []⟩
  | newline {pos : Nat} {opened : List Nat} :
    Goes ⟨.tail, opened⟩ ⟨.newline, pos⟩ ⟨.tail, opened⟩

variable {s s' : State} {t : Token} {ts us : List Token} {opened : List Nat}

theorem Goes.step_eq (h : Goes s t s') : step s t = .next s' := by
  cases h with
  | sign ho => simp [step, ho]
  | number | push | op | pop | leave | newline => rfl

theorem goes_of_step (h : step s t = .next s') : Goes s t s' := by
  obtain ⟨mode, opened⟩ := s
  obtain ⟨symbol, pos⟩ := t
  cases mode with
  | operand =>
    cases symbol with
    | op o =>
      by_cases ho : o.level = .sum
      · simp only [step, ho, if_true, Move.next.injEq] at h
        exact h ▸ .sign ho
      · simp [step, ho] at h
    | number d =>
      obtain rfl : _ = s' := Move.next.inj h
      exact .number
    | leftParen =>
      obtain rfl : _ = s' := Move.next.inj h
      exact .push
    | rightParen | newline | finish => nomatch h
  | operator =>
    cases symbol with
    | op o =>
      obtain rfl : _ = s' := Move.next.inj h
      exact .op
    | rightParen =>
      cases opened with
      | nil => nomatch h
      | cons p opened =>
        obtain rfl : _ = s' := Move.next.inj h
        exact .pop
    | newline =>
      cases opened with
      | nil =>
        obtain rfl : _ = s' := Move.next.inj h
        exact .leave
      | cons p opened => nomatch h
    | finish => cases opened <;> nomatch h
    | number d | leftParen => nomatch h
  | tail =>
    cases symbol with
    | newline =>
      obtain rfl : _ = s' := Move.next.inj h
      exact .newline
    | op o | number d | leftParen | rightParen | finish => nomatch h

/-! ### Many steps -/

@[simp] theorem reach_nil : reach s [] = some s := rfl

theorem reach_cons (h : Goes s t s') (ts : List Token) : reach s (t :: ts) = reach s' ts := by
  rw [reach, h.step_eq]

theorem reach_cons_eq_some_iff :
    reach s (t :: ts) = some s' ↔ ∃ s₁, Goes s t s₁ ∧ reach s₁ ts = some s' := by
  rw [reach]
  cases h : step s t with
  | next s₁ =>
    have hgoes : Goes s t s₁ := goes_of_step h
    constructor
    · intro hr
      exact ⟨s₁, hgoes, hr⟩
    · rintro ⟨s₂, hs₂, hr⟩
      obtain rfl : s₁ = s₂ := Move.next.inj (h.symm.trans hs₂.step_eq)
      exact hr
  | accept | refuse =>
    refine ⟨nofun, ?_⟩
    rintro ⟨s₁, hs₁, -⟩
    exact nomatch h.symm.trans hs₁.step_eq

theorem reach_append (h : reach s ts = some s') (us : List Token) :
    reach s (ts ++ us) = reach s' us := by
  induction ts generalizing s with
  | nil =>
    obtain rfl : s = s' := Option.some.inj h
    rfl
  | cons t ts ih =>
    obtain ⟨s₁, hs₁, hr⟩ := reach_cons_eq_some_iff.mp h
    rw [List.cons_append, reach_cons hs₁, ih hr]

theorem exists_reach_of_append (h : reach s (ts ++ us) = some s') :
    ∃ s₁, reach s ts = some s₁ ∧ reach s₁ us = some s' := by
  induction ts generalizing s with
  | nil => exact ⟨s, rfl, h⟩
  | cons t ts ih =>
    obtain ⟨s₁, hs₁, hr⟩ := reach_cons_eq_some_iff.mp h
    obtain ⟨s₂, hs₂, hus⟩ := ih hr
    exact ⟨s₂, (reach_cons hs₁ ts).trans hs₂, hus⟩

theorem run_append (h : reach s ts = some s') (us : List Token) : run s (ts ++ us) = run s' us := by
  induction ts generalizing s with
  | nil =>
    obtain rfl : s = s' := Option.some.inj h
    rfl
  | cons t ts ih =>
    obtain ⟨s₁, hs₁, hr⟩ := reach_cons_eq_some_iff.mp h
    rw [List.cons_append, run, hs₁.step_eq]
    exact ih hr

theorem run_of_refuse (h : ∀ t us, ts = t :: us → step s t = .refuse) : run s ts = .error ⟨s, ts⟩ := by
  cases ts with
  | nil => rfl
  | cons t us => rw [run, h t us rfl]

/-- Where a run stops, it went on before and is refused there. -/
theorem reach_of_run_error {r : Refusal} (h : run s ts = .error r) :
    ∃ read, ts = read ++ r.rest ∧ reach s read = some r.state ∧
      ∀ t us, r.rest = t :: us → step r.state t = .refuse := by
  induction ts generalizing s with
  | nil =>
    obtain rfl : _ = r := Except.error.inj h
    exact ⟨[], rfl, rfl, nofun⟩
  | cons t ts ih =>
    rw [run] at h
    cases hstep : step s t with
    | next s' =>
      rw [hstep] at h
      obtain ⟨read, rfl, hreach, hrefuse⟩ := ih h
      exact ⟨t :: read, rfl, (reach_cons (goes_of_step hstep) read).trans hreach, hrefuse⟩
    | accept =>
      rw [hstep] at h
      exact nomatch h
    | refuse =>
      rw [hstep] at h
      obtain rfl : _ = r := Except.error.inj h
      refine ⟨[], rfl, rfl, ?_⟩
      rintro t us ⟨⟩
      exact hstep

/-- What is refused is refused whatever follows. -/
theorem run_append_of_refused (h : run s ts = .error ⟨s', t :: us⟩) (vs : List Token) :
    run s (ts ++ vs) = .error ⟨s', t :: (us ++ vs)⟩ := by
  obtain ⟨read, hread, hreach, hrefuse⟩ := reach_of_run_error h
  have hstep : step s' t = .refuse := hrefuse t us rfl
  rw [hread, List.append_assoc, run_append hreach, List.cons_append, run, hstep]

theorem symbol_of_accept (h : step s t = .accept) : t.symbol = .finish := by
  obtain ⟨mode, opened⟩ := s
  obtain ⟨symbol, pos⟩ := t
  cases mode with
  | operand =>
    cases symbol with
    | op o =>
      by_cases ho : o.level = .sum
      · simp [step, ho] at h
      · simp [step, ho] at h
    | number | leftParen | rightParen | newline | finish => nomatch h
  | operator =>
    cases symbol with
    | finish => rfl
    | rightParen | newline => cases opened <;> nomatch h
    | number | op | leftParen => nomatch h
  | tail =>
    cases symbol with
    | finish => rfl
    | number | op | leftParen | rightParen | newline => nomatch h

theorem finish_mem_of_run (h : run s ts = .ok ()) : .finish ∈ ts.map Token.symbol := by
  induction ts generalizing s with
  | nil => exact nomatch h
  | cons t ts ih =>
    rw [run] at h
    cases hstep : step s t with
    | next s' =>
      rw [hstep] at h
      exact List.mem_cons_of_mem _ (ih h)
    | accept => exact symbol_of_accept hstep ▸ List.mem_cons_self
    | refuse =>
      rw [hstep] at h
      exact nomatch h

/-! ### What the machine keeps -/

/-- What a step keeps, a run keeps. -/
theorem reach_invariant {I : State → Prop} (hstep : ∀ s t s', Goes s t s' → I s → I s')
    (h : reach s ts = some s') (hs : I s) : I s' := by
  induction ts generalizing s with
  | nil => exact Option.some.inj h ▸ hs
  | cons t ts ih =>
    obtain ⟨s₁, hs₁, hr⟩ := reach_cons_eq_some_iff.mp h
    exact ih hr (hstep s t s₁ hs₁ hs)

/-- The end of a text is never read past. -/
theorem finish_not_mem_of_reach (h : reach s ts = some s') : .finish ∉ ts.map Token.symbol := by
  induction ts generalizing s with
  | nil => exact List.not_mem_nil
  | cons t ts ih =>
    obtain ⟨s₁, hs₁, hr⟩ := reach_cons_eq_some_iff.mp h
    have ht : t.symbol ≠ .finish := by cases hs₁ <;> nofun
    rw [List.map_cons, List.mem_cons]
    exact not_or.mpr ⟨ht.symm, ih hr⟩

theorem Goes.length_opened (h : Goes s t s') :
    s'.opened.length = openAfter s.opened.length t.symbol := by
  cases h <;> rfl

/-- The open parentheses are those that the tokens leave open. -/
theorem length_opened_of_reach (h : reach s ts = some s') :
    (ts.map Token.symbol).foldl openAfter s.opened.length = s'.opened.length := by
  induction ts generalizing s with
  | nil => exact Option.some.inj h ▸ rfl
  | cons t ts ih =>
    obtain ⟨s₁, hs₁, hr⟩ := reach_cons_eq_some_iff.mp h
    rw [List.map_cons, List.foldl_cons, ← hs₁.length_opened, ih hr]

theorem Goes.tail_of_tail (h : Goes s t s') (hs : s.mode = .tail) : s'.mode = .tail := by
  cases h <;> first | exact hs | nomatch hs

/-- After a newline no parenthesis is open, and none is opened again. -/
theorem not_newline_of_reach (h : reach s ts = some s') (hs' : s'.mode ≠ .tail) :
    .newline ∉ ts.map Token.symbol := by
  induction ts generalizing s with
  | nil => exact List.not_mem_nil
  | cons t ts ih =>
    obtain ⟨s₁, hs₁, hr⟩ := reach_cons_eq_some_iff.mp h
    have hmode : s₁.mode ≠ .tail := fun htail =>
      hs' (reach_invariant (fun _ _ _ hg => hg.tail_of_tail) hr htail)
    have ht : t.symbol ≠ .newline := by
      cases hs₁ with
      | leave | newline => exact absurd rfl hmode
      | sign | number | push | op | pop => nofun
    rw [List.map_cons, List.mem_cons]
    exact not_or.mpr ⟨ht.symm, ih hr⟩

theorem opened_eq_nil_of_tail (h : reach {} ts = some s) (hs : s.mode = .tail) : s.opened = [] := by
  refine reach_invariant (I := fun s => s.mode = .tail → s.opened = []) ?_ h nofun hs
  intro s t s' hg hnil
  cases hg with
  | leave => exact fun _ => rfl
  | newline => exact hnil
  | sign | number | push | op | pop => exact nofun

theorem leftParen_of_mem_opened {p : Nat} (h : reach s ts = some s') (hp : p ∈ s'.opened) :
    p ∈ s.opened ∨ ∃ pre post, ts = pre ++ ⟨.leftParen, p⟩ :: post := by
  induction ts generalizing s with
  | nil => exact .inl (Option.some.inj h ▸ hp)
  | cons t ts ih =>
    obtain ⟨s₁, hs₁, hr⟩ := reach_cons_eq_some_iff.mp h
    rcases ih hr with hmem | ⟨pre, post, rfl⟩
    · cases hs₁ with
      | push =>
        rcases List.mem_cons.mp hmem with rfl | hmem
        · exact .inr ⟨[], ts, rfl⟩
        · exact .inl hmem
      | pop => exact .inl (List.mem_cons_of_mem _ hmem)
      | sign | number | op | leave | newline => exact .inl hmem
    · exact .inr ⟨t :: pre, post, rfl⟩

/-! ### Phrases -/

/-- Over a phrase the machine goes from wanting an operand to wanting an operator, and leaves the
open parentheses as they were. -/
theorem reach_of_derives {a : Associativity} {ph : Phrase} {ss : List Symbol} {e : Expr}
    (h : Derives a ph ss e) : ∀ (ts : List Token) (opened : List Nat), ts.map Token.symbol = ss →
      reach ⟨.operand, opened⟩ ts = some ⟨.operator, opened⟩ := by
  induction h with
  | single _ ih => exact ih
  | linkLeft _ _ _ ihl ihr | linkRight _ _ _ ihl ihr =>
    intro ts opened hts
    obtain ⟨ls, rs, rfl, hls, hrs⟩ := List.map_eq_append_iff.mp hts
    obtain ⟨pos, us, rfl, hus⟩ := exists_of_map_symbol_eq_cons hrs
    rw [reach_append (ihl ls opened hls), reach_cons .op]
    exact ihr us opened hus
  | plus _ ih | minus _ ih =>
    intro ts opened hts
    obtain ⟨pos, us, rfl, hus⟩ := exists_of_map_symbol_eq_cons hts
    rw [reach_cons (.sign rfl)]
    exact ih us opened hus
  | number digits =>
    intro ts opened hts
    obtain ⟨pos, rfl⟩ := exists_of_map_symbol_eq_singleton hts
    rfl
  | paren _ ih =>
    intro ts opened hts
    obtain ⟨pos, us, rfl, hus⟩ := exists_of_map_symbol_eq_cons hts
    obtain ⟨inner, vs, rfl, hinner, hvs⟩ := List.map_eq_append_iff.mp hus
    obtain ⟨close, rfl⟩ := exists_of_map_symbol_eq_singleton hvs
    rw [reach_cons .push, reach_append (ih inner (pos :: opened) hinner), reach_cons .pop, reach_nil]

end IntExpr.Pushdown
