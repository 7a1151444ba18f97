import IntExpr.Diagnostic
import Mathlib.Logic.Relation

/-!
# StackMachine — evaluation with two stacks and evaluation by rules

`Evaluates` says by rules what a tree comes to: the left operand first, then the right one, then the
operator, and whatever has no value there ends it.  The machine of `run` comes to the same, turn by turn
(`evaluate_eq_rules`).

* `Turns`, `Stops`: all that one turn of the machine can do.
* `Turns.balanced`: a turn keeps the balance of tasks and values, and so no operator ever lacks one.
* `exists_comes`: every machine stops, after no more turns than its tasks weigh.
-/

namespace IntExpr.Tree

variable {φ : Type} {c : Config} {t : Tree φ} {r : Except (Fault φ) Value}

/-! ### Evaluation by rules -/

/-- The tree `t` evaluates to `r`. -/
inductive Evaluates (c : Config) : Tree φ → Except (Fault φ) Value → Prop
  | literal (text : String) : Evaluates c (.literal text) ((Value.ofLiteral c text).mapError .limit)
  | foreign (v : φ) : Evaluates c (.foreign v) (.error (.notANode v))
  | left {o : BinOp} {l r : Tree φ} {f : Fault φ} :
    Evaluates c l (.error f) → Evaluates c (.binary o l r) (.error f)
  /-- The right operand is evaluated whatever the value of the left one, a failure included. -/
  | right {o : BinOp} {l r : Tree φ} {x : Value} {f : Fault φ} :
    Evaluates c l (.ok x) → Evaluates c r (.error f) → Evaluates c (.binary o l r) (.error f)
  | apply {o : BinOp} {l r : Tree φ} {x y : Value} :
    Evaluates c l (.ok x) → Evaluates c r (.ok y) →
    Evaluates c (.binary o l r) ((Value.apply c o x y).mapError .limit)

theorem evaluates_value (c : Config) (t : Tree φ) : Evaluates c t (value c t) := by
  induction t with
  | literal text => exact .literal text
  | foreign v => exact .foreign v
  | binary o l r ihl ihr =>
    rw [value]
    cases hl : value c l with
    | error f => exact .left (hl ▸ ihl)
    | ok x =>
      cases hr : value c r with
      | error f => exact .right (hl ▸ ihl) (hr ▸ ihr)
      | ok y => exact .apply (hl ▸ ihl) (hr ▸ ihr)

theorem Evaluates.eq_value (h : Evaluates c t r) : r = value c t := by
  induction h with
  | literal text => rfl
  | foreign v => rfl
  | left _ ihl =>
    rw [value, ← ihl]
    rfl
  | right _ _ ihl ihr =>
    rw [value, ← ihl, ← ihr]
    rfl
  | apply _ _ ihl ihr =>
    rw [value, ← ihl, ← ihr]
    rfl

theorem evaluates_iff : Evaluates c t r ↔ r = value c t :=
  ⟨Evaluates.eq_value, fun h => h ▸ evaluates_value c t⟩

/-! ### One turn -/

/-- The machine between two turns. -/
structure Machine (φ : Type) where
  tasks : List (Task φ)
  values : List Value

/-- One turn takes the machine from `m` to `m'`. -/
inductive Turns (c : Config) : Machine φ → Machine φ → Prop
  | literal {text : String} {v : Value} {tasks : List (Task φ)} {vs : List Value} :
    Value.ofLiteral c text = .ok v → Turns c ⟨.visit (.literal text) :: tasks, vs⟩ ⟨tasks, v :: vs⟩
  | binary {o : BinOp} {l r : Tree φ} {tasks : List (Task φ)} {vs : List Value} :
    Turns c ⟨.visit (.binary o l r) :: tasks, vs⟩ ⟨.visit l :: .visit r :: .apply o :: tasks, vs⟩
  | apply {o : BinOp} {x y v : Value} {tasks : List (Task φ)} {vs : List Value} :
    Value.apply c o x y = .ok v → Turns c ⟨.apply o :: tasks, y :: x :: vs⟩ ⟨tasks, v :: vs⟩

/-- The machine stops in `m`. -/
inductive Stops (c : Config) : Machine φ → Halted φ → Prop
  | done {vs : List Value} : Stops c ⟨[], vs⟩ (.values vs)
  | literal {text : String} {e : Decimal.LimitError} {tasks : List (Task φ)} {vs : List Value} :
    Value.ofLiteral c text = .error e →
    Stops c ⟨.visit (.literal text) :: tasks, vs⟩ (.fault (.limit e))
  | foreign {v : φ} {tasks : List (Task φ)} {vs : List Value} :
    Stops c ⟨.visit (.foreign v) :: tasks, vs⟩ (.fault (.notANode v))
  | apply {o : BinOp} {x y : Value} {e : Decimal.LimitError} {tasks : List (Task φ)} {vs : List Value} :
    Value.apply c o x y = .error e → Stops c ⟨.apply o :: tasks, y :: x :: vs⟩ (.fault (.limit e))
  | underflow {o : BinOp} {tasks : List (Task φ)} {vs : List Value} :
    vs.length < 2 → Stops c ⟨.apply o :: tasks, vs⟩ .underflow

variable {m m' : Machine φ} {h : Halted φ}

theorem Turns.run_eq (hturn : Turns c m m') : run c m.tasks m.values = run c m'.tasks m'.values := by
  cases hturn with
  | literal hv => rw [run, hv]; rfl
  | binary => rw [run]
  | apply hv => rw [run, hv]; rfl

theorem Stops.run_eq (hstop : Stops c m h) : run c m.tasks m.values = h := by
  cases hstop with
  | done => rw [run]
  | literal he => rw [run, he]; rfl
  | foreign => rw [run]
  | apply he => rw [run, he]; rfl
  | @underflow o tasks vs hvs =>
    rw [run]
    rintro y x vs rfl
    simp only [List.length_cons] at hvs
    omega

/-- The machine turns or stops. -/
theorem turns_or_stops (c : Config) (m : Machine φ) : (∃ m', Turns c m m') ∨ ∃ h, Stops c m h := by
  obtain ⟨tasks, vs⟩ := m
  cases tasks with
  | nil => exact .inr ⟨_, .done⟩
  | cons task tasks =>
    cases task with
    | visit t =>
      cases t with
      | literal text =>
        cases hv : Value.ofLiteral c text with
        | ok v => exact .inl ⟨_, .literal hv⟩
        | error e => exact .inr ⟨_, .literal hv⟩
      | binary o l r => exact .inl ⟨_, .binary⟩
      | foreign v => exact .inr ⟨_, .foreign⟩
    | apply o =>
      match vs with
      | [] => exact .inr ⟨_, .underflow Nat.zero_lt_two⟩
      | [x] => exact .inr ⟨_, .underflow Nat.one_lt_two⟩
      | y :: x :: vs =>
        cases hv : Value.apply c o x y with
        | ok v => exact .inl ⟨_, .apply hv⟩
        | error e => exact .inr ⟨_, .apply hv⟩

theorem Turns.weight_lt (hturn : Turns c m m') : taskWeight m'.tasks < taskWeight m.tasks := by
  cases hturn with
  | literal | binary | apply =>
    simp only [taskWeight, Task.weight, size]
    omega

/-! ### The balance of tasks and values -/

/-- The count of values after the tasks, `n` being at hand before them, if no operator lacks one. -/
def valuesAfter : Nat → List (Task φ) → Option Nat
  | n, [] => some n
  | n, .visit _ :: tasks => valuesAfter (n + 1) tasks
  | n + 2, .apply _ :: tasks => valuesAfter (n + 1) tasks
  | _, .apply _ :: _ => none

/-- The tasks of the machine lack no value, and leave one. -/
def Machine.Balanced (m : Machine φ) : Prop := valuesAfter m.values.length m.tasks = some 1

theorem Turns.balanced (hturn : Turns c m m') (hm : m.Balanced) : m'.Balanced := by
  cases hturn with
  | literal hv => exact hm
  | binary => exact hm
  | apply hv => exact hm

theorem balanced_of_reaches (hreach : Relation.ReflTransGen (Turns c) m m') (hm : m.Balanced) :
    m'.Balanced := by
  induction hreach with
  | refl => exact hm
  | tail _ hturn ih => exact hturn.balanced ih

theorem Machine.Balanced.two_le {o : BinOp} {tasks : List (Task φ)} {vs : List Value}
    (hm : Machine.Balanced ⟨.apply o :: tasks, vs⟩) : 2 ≤ vs.length := by
  match vs, hm with
  | [], hm => nomatch hm
  | [_], hm => nomatch hm
  | _ :: _ :: vs, _ => exact Nat.le_add_left 2 vs.length

/-! ### The whole run -/

/-- After `n` turns the machine `m` stops with `h`. -/
inductive Comes (c : Config) : Nat → Machine φ → Halted φ → Prop
  | stop {m : Machine φ} {h : Halted φ} : Stops c m h → Comes c 0 m h
  | turn {n : Nat} {m m' : Machine φ} {h : Halted φ} :
    Turns c m m' → Comes c n m' h → Comes c (n + 1) m h

theorem Comes.run_eq {n : Nat} (hcomes : Comes c n m h) : run c m.tasks m.values = h := by
  induction hcomes with
  | stop hstop => exact hstop.run_eq
  | turn hturn _ ih => exact hturn.run_eq.trans ih

theorem exists_comes (c : Config) (m : Machine φ) : ∃ n h, n ≤ taskWeight m.tasks ∧ Comes c n m h := by
  induction hw : taskWeight m.tasks using Nat.strongRecOn generalizing m with
  | ind w ih =>
    rcases turns_or_stops c m with ⟨m', hturn⟩ | ⟨h, hstop⟩
    · have hlt : taskWeight m'.tasks < w := hw ▸ hturn.weight_lt
      obtain ⟨n, h, hn, hcomes⟩ := ih _ hlt m' rfl
      exact ⟨n + 1, h, by omega, .turn hturn hcomes⟩
    · exact ⟨0, h, Nat.zero_le _, .stop hstop⟩

/-- How the machine stops where a tree comes to `r`. -/
def Halted.ofResult : Except (Fault φ) Value → Halted φ
  | .ok v => .values [v]
  | .error f => .fault f

/-- **The machine evaluates as the rules do.**  The rules give every tree one outcome, and it is the
outcome of `evaluate`.  The machine stops after at most two turns for each node, with one value or with
the first fault, and an operator always finds its two values. -/
theorem evaluate_eq_rules (c : Config) (t : Tree φ) :
    (∃ r, (∀ r', Evaluates c t r' ↔ r' = r) ∧ t.evaluate c = r ∧
      run c [.visit t] [] = Halted.ofResult r ∧
      ∃ n, n ≤ 2 * t.size ∧ Comes c n ⟨[.visit t], []⟩ (Halted.ofResult r)) ∧
    (∀ o tasks vs, Relation.ReflTransGen (Turns c) ⟨[.visit t], []⟩ ⟨.apply o :: tasks, vs⟩ →
      2 ≤ vs.length) ∧
    ∀ v : RawValue, v.diagnostic =
      { kind := .evaluation, message := "Unknown expression type: " ++ v.typeName } := by
  refine ⟨⟨value c t, fun r' => evaluates_iff, evaluate_eq_value c t, ?_⟩, ?_, fun v => rfl⟩
  · have hrun : run c [.visit t] [] = Halted.ofResult (value c t) := by
      rw [run_visit_nil]
      cases value c t <;> rfl
    obtain ⟨n, h, hn, hcomes⟩ := exists_comes c ⟨[.visit t], []⟩
    obtain rfl : Halted.ofResult (value c t) = h := hrun.symm.trans hcomes.run_eq
    exact ⟨hrun, n, hn, hcomes⟩
  · intro o tasks vs hreach
    have hstart : Machine.Balanced (φ := φ) ⟨[.visit t], []⟩ := rfl
    exact (balanced_of_reaches hreach hstart).two_le

/-- A value that is no node ends the evaluation also after a division by zero. -/
theorem evaluate_eq_rules_of_division_and_foreign :
    evaluate {} (.binary .add (.binary .div (.literal "1") (.literal "0")) (.foreign RawValue.null)) =
        .error (.notANode .null) ∧
      RawValue.null.diagnostic.message = "Unknown expression type: NoneType" ∧
      Relation.ReflTransGen (Turns {})
        ⟨[.visit (.binary .add (.binary .div (.literal "1") (.literal "0")) (.foreign RawValue.null))], []⟩
        ⟨[.apply .div, .visit (.foreign .null), .apply .add], [.int 0, .int 1]⟩ ∧
      2 ≤ [Value.int 0, Value.int 1].length := by
  obtain ⟨⟨r, hrules, hvalue, -⟩, hbalance, hreport⟩ := evaluate_eq_rules {}
    (.binary .add (.binary .div (.literal "1") (.literal "0")) (.foreign RawValue.null))
  have hdiv : Evaluates {} (.binary .div (.literal "1") (.literal "0") : Tree RawValue)
      (.ok (.failure (.divisionByZero 1))) :=
    .apply (x := .int 1) (y := .int 0) (.literal "1") (.literal "0")
  have hr : .error (.notANode .null) = r := (hrules _).mp (.right hdiv (.foreign _))
  have hreach : Relation.ReflTransGen (Turns {})
      ⟨[.visit (.binary .add (.binary .div (.literal "1") (.literal "0")) (.foreign RawValue.null))], []⟩
      ⟨[.apply .div, .visit (.foreign .null), .apply .add], [.int 0, .int 1]⟩ :=
    (((Relation.ReflTransGen.single .binary).tail .binary).tail (.literal rfl)).tail (.literal rfl)
  exact ⟨hvalue.trans hr.symm, congrArg Diagnostic.message (hreport .null), hreach, hbalance _ _ _ hreach⟩

end IntExpr.Tree
