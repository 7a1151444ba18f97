import IntExpr.CommandLine.Command
import Mathlib.Data.List.TakeWhile

/-!
# CommandLines — command lines that are read as they are meant

Every expression can be given to a command together with any choice of its flags: after the flags and `--`
it is the operand, whatever it looks like (`readRequest_evaluateLine`, `readRequest_graphLine`).  Flags in
front of other arguments are options in front of the other options (`readArguments_flagTexts`).
-/

namespace IntExpr.CommandLine

variable {interspersed : Bool} {specs : List OptionSpec} {names : List String} {name : String}

/-! ### Flags -/

/-- The options of these names, as they are written. -/
def flagTexts (names : List String) : List String := names.map ("--" ++ ·)

/-- The name is that of an option without a value. -/
def IsFlag (specs : List OptionSpec) (name : String) : Prop :=
  name ≠ "" ∧ '=' ∉ name.toList ∧
    (specs.find? (·.long = name)).any (fun spec => spec.long = name && !spec.takesValue) = true

instance (specs : List OptionSpec) (name : String) : Decidable (IsFlag specs name) :=
  inferInstanceAs (Decidable (_ ∧ _))

theorem toList_dashes (name : String) : ("--" ++ name).toList = '-' :: '-' :: name.toList := by
  rw [String.toList_append]
  rfl

theorem isOption_dashes (name : String) : isOption ("--" ++ name) = true := by
  rw [isOption, toList_dashes]
  rfl

theorem readLong_of_isFlag (h : IsFlag specs name) (next : Option String) :
    readLong specs name.toList next = .ok ([(name, none)], false) := by
  obtain ⟨-, heq, hfind⟩ := h
  have hall : ∀ x ∈ name.toList, decide (x ≠ '=') = true := by
    intro x hx
    refine decide_eq_true ?_
    rintro rfl
    exact heq hx
  have hname : name.toList.takeWhile (· ≠ '=') = name.toList := List.takeWhile_eq_self_iff.mpr hall
  have hvalue : name.toList.dropWhile (· ≠ '=') = [] := List.dropWhile_eq_nil_iff.mpr hall
  cases hspec : specs.find? (·.long = name) with
  | none => simp [hspec] at hfind
  | some spec =>
    simp only [hspec, Option.any_some, Bool.and_eq_true, decide_eq_true_eq, Bool.not_eq_true'] at hfind
    simp only [readLong, hname, hvalue, String.ofList_toList, hspec, hfind]
    rfl

/-- All that follows two dashes is left as it is. -/
theorem readArguments_rest (args : List String) :
    readArguments specs interspersed ("--" :: args) = .ok { operands := args } := by
  rw [readArguments, if_pos rfl]

theorem readArguments_flag (h : IsFlag specs name) (args : List String) :
    readArguments specs true (("--" ++ name) :: args) =
      (readArguments specs true args).map (·.withOptions [(name, none)]) := by
  have hdashes : "--" ++ name ≠ "--" := by
    intro heq
    rw [← String.toList_inj, toList_dashes] at heq
    exact h.1 (String.toList_eq_nil_iff.mp (List.cons.inj (List.cons.inj heq).2).2)
  rw [readArguments, if_neg hdashes, if_pos (isOption_dashes name), readOption, toList_dashes]
  simp only [readLong_of_isFlag h]
  rfl

theorem withOptions_withOptions (l m : List (String × Option String)) (a : Arguments) :
    (a.withOptions m).withOptions l = a.withOptions (l ++ m) := by
  simp [Arguments.withOptions]

/-- Flags before the other arguments are options before the other options. -/
theorem readArguments_flagTexts (h : ∀ name ∈ names, IsFlag specs name) (args : List String) :
    readArguments specs true (flagTexts names ++ args) =
      (readArguments specs true args).map (·.withOptions (names.map (·, none))) := by
  induction names with
  | nil =>
    show readArguments specs true args = _
    cases readArguments specs true args <;> rfl
  | cons name names ih =>
    obtain ⟨hname, hnames⟩ := List.forall_mem_cons.mp h
    show readArguments specs true (("--" ++ name) :: (flagTexts names ++ args)) = _
    rw [readArguments_flag hname, ih hnames]
    cases readArguments specs true args with
    | error e => rfl
    | ok a => exact congrArg Except.ok (withOptions_withOptions _ _ a)

/-! ### Whole lines -/

/-- The flags that change the configuration. -/
def flagNames (strict rightAssoc : Bool) : List String :=
  (if strict then ["strict"] else []) ++ if rightAssoc then ["right-assoc"] else []

/-- A command line that asks for the value of an expression. -/
def evaluateLine (expression : String) (withGraph strict rightAssoc : Bool) : List String :=
  "eval" :: (flagTexts ((if withGraph then ["graph"] else []) ++ flagNames strict rightAssoc) ++
    ["--", expression])

/-- A command line that asks for the graph of an expression. -/
def graphLine (expression : String) (output : Option String) (strict rightAssoc : Bool) : List String :=
  "graph" :: ((output.elim [] fun path => ["--output", path]) ++
    (flagTexts (flagNames strict rightAssoc) ++ ["--", expression]))

/-- What comes first is the name of the command, unless it looks like an option. -/
theorem readRequest_eq_named (hoption : isOption name = false) (hdashes : name ≠ "--") (args : List String) :
    readRequest (name :: args) = namedRequest false name args := by
  have hread : readArguments programOptions false (name :: args) = .ok { operands := name :: args } := by
    rw [readArguments, if_neg hdashes, if_neg (by simp [hoption]), if_neg (by decide)]
  rw [readRequest, if_neg (List.cons_ne_nil name args), hread]
  rfl

theorem readRequest_evaluateLine (expression : String) (withGraph strict rightAssoc : Bool) :
    readRequest (evaluateLine expression withGraph strict rightAssoc) =
      .ok (.run false (.evaluate expression withGraph strict rightAssoc)) := by
  have hflags : ∀ name ∈ (if withGraph then ["graph"] else []) ++ flagNames strict rightAssoc,
      IsFlag evaluateOptions name := by
    cases withGraph <;> cases strict <;> cases rightAssoc <;> decide
  rw [evaluateLine, readRequest_eq_named (by decide) (by decide), namedRequest, if_pos rfl, commandRequest,
    readArguments_flagTexts hflags, readArguments_rest]
  cases withGraph <;> cases strict <;> cases rightAssoc <;> rfl

theorem readArguments_output (path : String) (args : List String) :
    readArguments graphOptions true ("--output" :: path :: args) =
      (readArguments graphOptions true args).map (·.withOptions [("output", some path)]) := by
  have hread : readOption graphOptions "--output" (some path) = .ok ([("output", some path)], true) := rfl
  rw [readArguments, if_neg (by decide), if_pos (by decide), List.head?_cons, hread]
  rfl

theorem readRequest_graphLine (expression : String) (output : Option String) (strict rightAssoc : Bool) :
    readRequest (graphLine expression output strict rightAssoc) =
      .ok (.run false (.graph expression output strict rightAssoc)) := by
  have hflags : ∀ name ∈ flagNames strict rightAssoc, IsFlag graphOptions name := by
    cases strict <;> cases rightAssoc <;> decide
  have hrest : readArguments graphOptions true
      (flagTexts (flagNames strict rightAssoc) ++ ["--", expression]) =
        .ok (.withOptions ((flagNames strict rightAssoc).map (·, none)) { operands := [expression] }) := by
    rw [readArguments_flagTexts hflags, readArguments_rest]
    rfl
  rw [graphLine, readRequest_eq_named (by decide) (by decide), namedRequest, if_neg (by decide), if_pos rfl,
    commandRequest]
  cases output with
  | none =>
    rw [Option.elim_none, List.nil_append, hrest]
    cases strict <;> cases rightAssoc <;> rfl
  | some path =>
    rw [Option.elim_some, List.cons_append, List.singleton_append, readArguments_output, hrest]
    cases strict <;> cases rightAssoc <;> rfl

end IntExpr.CommandLine
