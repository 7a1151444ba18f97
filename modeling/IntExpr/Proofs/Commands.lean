import IntExpr.CommandLine.Run
import IntExpr.Proofs.CommandLines
import IntExpr.Proofs.Loading
import IntExpr.Proofs.NestingLimit
import IntExpr.Proofs.ReadBack

/-!
# Commands — what the command lines for one expression do

The commands that take a tree have their first two stages in common (`onTree`): load a configuration, parse
the expression.  Nothing is printed or written before both have succeeded, and what comes then is settled by
the tree and the configuration, and so the commands agree (`commands_agree`).

* `flagVerdicts`: the configuration of a command, from its flags and the environment.
* `Outcome.seen`: exit code, printed text and written files.
-/

namespace IntExpr.CommandLine

variable {strict rightAssoc verbose : Bool} {args : List String} {expression path name : String}
  {c : Config} {s : Surroundings}

/-! ### Configurations -/

/-- What the environment gives for a setting. -/
def fromVariable (env : List (String × String)) (setting : Setting) : Option RawValue :=
  (env.lookup setting.variableName).bind ofVariable

/-- The verdicts on the settings of a command: a flag is valid, and where it is not given the environment
decides. -/
def flagVerdicts (env : List (String × String)) (strict rightAssoc : Bool) : Verdicts where
  unknownCharacters := if strict then .ok .reject else
    verdict .skip readUnknownCharacters (fromVariable env .unknownCharacters)
  associativity := if rightAssoc then .ok .right else
    verdict .left readAssociativity (fromVariable env .associativity)
  intBits := verdict ⟨64, two_le_sixtyFour⟩ readIntBits (fromVariable env .intBits)

theorem verdicts_flagSettings (env : List (String × String)) (strict rightAssoc : Bool) :
    verdicts env (flagSettings strict rightAssoc) = flagVerdicts env strict rightAssoc := by
  cases strict <;> cases rightAssoc <;> rfl

/-- A command has a configuration, or something is wrong with the environment. -/
theorem load_flagSettings_cases (env : List (String × String)) (strict rightAssoc : Bool) :
    ((flagVerdicts env strict rightAssoc).details ≠ [] ∧ load env (flagSettings strict rightAssoc) =
        .error (.invalid (flagVerdicts env strict rightAssoc).details)) ∨
      ∃ c, (flagVerdicts env strict rightAssoc).Allow c ∧
        load env (flagSettings strict rightAssoc) = .ok c := by
  have hnames : unknownOverrides (flagSettings strict rightAssoc) = [] := by
    cases strict <;> cases rightAssoc <;> rfl
  have htext : ∀ v, effective? env (flagSettings strict rightAssoc) .intBits = some v →
      ∃ text, v = .text text := by
    intro v hv
    have heffective : effective? env (flagSettings strict rightAssoc) .intBits =
        fromVariable env .intBits := by
      cases strict <;> cases rightAssoc <;> rfl
    rw [heffective, fromVariable] at hv
    obtain ⟨text, -, htext⟩ := Option.bind_eq_some_iff.mp hv
    unfold ofVariable at htext
    split at htext
    · cases htext
    · exact ⟨_, (Option.some.inj htext).symm⟩
  rcases load_cases env (flagSettings strict rightAssoc) with ⟨hwrong, hload⟩ | ⟨c, hc, -, hload⟩
  · rw [hnames, List.append_nil, verdicts_flagSettings] at hwrong hload
    exact .inl ⟨hwrong, hload⟩
  · rw [verdicts_flagSettings] at hc
    split_ifs at hload with hwidth
    · exact .inr ⟨c, hc, hload⟩
    · exact absurd hload (load_ne_limit htext .writing)

/-! ### Files -/

/-- The path leads to a file of this name in the working directory. -/
structure LeadsTo (path name : String) : Prop where
  parts : OutputPath.ofString path = ⟨"", [name]⟩
  ne_parent : name ≠ ".."

/-- A name of a file: no slash is in it, and it is not that of a directory. -/
def IsFileName (name : String) : Prop :=
  '/' ∉ name.toList ∧ name ≠ "" ∧ name ≠ "." ∧ name ≠ ".."

instance (name : String) : Decidable (IsFileName name) := inferInstanceAs (Decidable (_ ∧ _))

/-- A name alone is a path to the file of that name. -/
theorem leadsTo_of_isFileName (h : IsFileName name) : LeadsTo name name := by
  obtain ⟨hslash, hempty, hpoint, hparent⟩ := h
  have hroot : OutputPath.rootOf name = "" := by
    have hnone : name.toList.takeWhile (· = '/') = [] := by
      cases hname : name.toList with
      | nil => rfl
      | cons x xs =>
        have hx : x ≠ '/' := by
          rintro rfl
          exact hslash (hname ▸ List.mem_cons_self)
        simp [hx]
    rw [OutputPath.rootOf, hnone]
    rfl
  have hparts : (name.toList.splitOn '/').map String.ofList = [name] := by
    rw [List.splitOn_eq_singleton hslash, List.map_singleton, String.ofList_toList]
  refine ⟨?_, hparent⟩
  rw [OutputPath.ofString, hroot, hparts]
  simp [hempty, hpoint]

/-- A file in the working directory is written there under its name. -/
theorem runGraph_of_leadsTo (h : LeadsTo path name) (hhere : s.hasDirectory ⟨"", []⟩ = true) (t : Expr) :
    runGraph s (some path) t =
      { stdout := "Wrote graph to " ++ name ++ "\n", files := [(name, t.dot)] } := by
  obtain ⟨hparts, hne⟩ := h
  have hempty : name ≠ "" := by
    have hmem : name ∈ (OutputPath.ofString path).parts := by
      rw [hparts]
      exact List.mem_cons_self
    have hkept := (List.mem_filter.mp hmem).2
    rintro rfl
    cases hkept
  have hdirectory : OutputPath.isDirectory ⟨"", [name]⟩ = false := by simp [OutputPath.isDirectory, hne]
  have htext : OutputPath.toString ⟨"", [name]⟩ = name := by simp [OutputPath.toString, hempty]
  have hparent : s.hasDirectory (OutputPath.directory ⟨"", [name]⟩) = true := hhere
  simp only [runGraph, hparts, hdirectory, hparent, htext]
  rfl

/-! ### Outcomes -/

/-- What is seen of a run but for its debug records: the exit code, what it printed and what it wrote. -/
def Outcome.seen (o : Outcome) : Nat × String × List (String × String) :=
  (o.ending.exitCode, o.stdout, o.files)

@[simp] theorem Outcome.seen_record (verbose : Bool) (rs : List Record) (o : Outcome) :
    (o.record verbose rs).seen = o.seen := by
  unfold Outcome.record
  split_ifs <;> rfl

@[simp] theorem Outcome.ending_record (verbose : Bool) (rs : List Record) (o : Outcome) :
    (o.record verbose rs).ending = o.ending := by
  unfold Outcome.record
  split_ifs <;> rfl

theorem run_of_request {command : Command} (h : readRequest args = .ok (.run verbose command)) :
    run s args = command.run s verbose := by
  simp [run, h]

/-- What a command does that takes the tree of an expression and goes on with it. -/
def onTree (s : Surroundings) (verbose strict rightAssoc : Bool) (expression : String)
    (next : Config → Expr → Outcome) : Outcome :=
  withConfig s verbose strict rightAssoc fun c => withTree s c verbose expression (next c)

section Stages

variable {next : Config → Expr → Outcome} {ds : List Detail} {e : ParseError} {t : Expr}

theorem onTree_of_invalid
    (hload : load s.environment (flagSettings strict rightAssoc) = .error (.invalid ds)) :
    (onTree s verbose strict rightAssoc expression next).ending = .badConfig ds ∧
      (onTree s verbose strict rightAssoc expression next).seen = (2, "", []) := by
  simp only [onTree, withConfig, hload]
  exact ⟨trivial, rfl⟩

theorem onTree_of_error (hload : load s.environment (flagSettings strict rightAssoc) = .ok c)
    (hparse : parse s.nesting c expression = .error e) :
    (onTree s verbose strict rightAssoc expression next).seen = (1, "", []) ∧
      ((∀ found, e ≠ .escaped found) →
        (onTree s verbose strict rightAssoc expression next).ending = .parseFailed expression e) ∧
      ∀ found, e = .escaped found →
        (onTree s verbose strict rightAssoc expression next).ending = .crashed (.rejected found) := by
  simp only [onTree, withConfig, withTree, hload, hparse, Outcome.ending_record, Outcome.seen_record]
  cases e with
  | escaped found =>
    refine ⟨rfl, fun h => absurd rfl (h found), ?_⟩
    rintro _ ⟨⟩
    rfl
  | operandExpected | closingExpected | endExpected | rejected | tooDeep =>
    refine ⟨rfl, fun _ => rfl, ?_⟩
    rintro _ ⟨⟩

theorem onTree_of_ok (hload : load s.environment (flagSettings strict rightAssoc) = .ok c)
    (hparse : parse s.nesting c expression = .ok t) :
    (onTree s verbose strict rightAssoc expression next).ending = (next c t).ending ∧
      (onTree s verbose strict rightAssoc expression next).seen = (next c t).seen := by
  simp only [onTree, withConfig, withTree, hload, hparse, Outcome.ending_record, Outcome.seen_record]
  exact ⟨trivial, trivial⟩

end Stages

/-- The two ends of an evaluation: a value is printed below the expression, and then the graph if it is asked
for, or a number has too many digits and the expression is all that is printed. -/
theorem runEvaluate_cases (c : Config) (withGraph : Bool) (t : Expr) :
    (∃ v text, t.evaluate c = .ok v ∧ v.text = .ok text ∧
      (runEvaluate c withGraph t).seen = (0, s!"Reconstituted expression: \"{t.print}\"\n" ++
        s!"/* {text} */\n" ++ (if withGraph then t.dot else ""), [])) ∨
    ∃ limit, (t.evaluate c = .error (.limit limit) ∨ ∃ v, t.evaluate c = .ok v ∧ v.text = .error limit) ∧
      (runEvaluate c withGraph t).ending = .crashed (.limit limit) ∧
      (runEvaluate c withGraph t).seen = (1, s!"Reconstituted expression: \"{t.print}\"\n", []) := by
  cases hvalue : t.evaluate c with
  | error f =>
    cases f with
    | notANode v => exact v.elim
    | limit limit =>
      refine .inr ⟨limit, .inl rfl, ?_⟩
      simp only [runEvaluate, hvalue]
      exact ⟨trivial, rfl⟩
  | ok v =>
    cases htext : v.text with
    | error limit =>
      refine .inr ⟨limit, .inr ⟨v, rfl, htext⟩, ?_⟩
      simp only [runEvaluate, hvalue, htext]
      exact ⟨trivial, rfl⟩
    | ok text =>
      refine .inl ⟨v, text, rfl, htext, ?_⟩
      simp only [runEvaluate, hvalue, htext]
      rfl

/-- **The commands agree with each other.**  However the three command lines for one expression and one
choice of flags are written, all three stop with nothing printed or written if the environment is at fault
or the expression has no tree.  They report the error of the expression, but that of a character which comes
out in place of the error for the depth no command answers for.  If the expression has a tree, its graph is
printed or written to the file, and evaluation prints the expression, its value, and in the end what the
command for the graph prints.  A flag decides a setting whatever the environment says of it, and without the
flag the environment decides. -/
theorem commands_agree (s : Surroundings) (expression : String) (withGraph strict rightAssoc : Bool) :
    readRequest (evaluateLine expression withGraph strict rightAssoc) =
      .ok (.run false (.evaluate expression withGraph strict rightAssoc)) ∧
    (∀ output, readRequest (graphLine expression output strict rightAssoc) =
      .ok (.run false (.graph expression output strict rightAssoc))) ∧
    (∀ name, IsFileName name → LeadsTo name name) ∧
    ∀ evalArgs graphArgs fileArgs v₁ v₂ v₃ path name,
      readRequest evalArgs = .ok (.run v₁ (.evaluate expression withGraph strict rightAssoc)) →
      readRequest graphArgs = .ok (.run v₂ (.graph expression none strict rightAssoc)) →
      readRequest fileArgs = .ok (.run v₃ (.graph expression (some path) strict rightAssoc)) →
      LeadsTo path name → s.hasDirectory ⟨"", []⟩ = true →
      ((flagVerdicts s.environment strict rightAssoc).details ≠ [] ∧
        ∀ args ∈ [evalArgs, graphArgs, fileArgs], (run s args).seen = (2, "", []) ∧
          (run s args).ending = .badConfig (flagVerdicts s.environment strict rightAssoc).details) ∨
      ∃ c, (flagVerdicts s.environment strict rightAssoc).Allow c ∧
        load s.environment (flagSettings strict rightAssoc) = .ok c ∧
        ((∃ e, parse s.nesting c expression = .error e ∧ ∀ args ∈ [evalArgs, graphArgs, fileArgs],
            (run s args).seen = (1, "", []) ∧
            ((∀ found, e ≠ .escaped found) → (run s args).ending = .parseFailed expression e) ∧
            ∀ found, e = .escaped found → (run s args).ending = .crashed (.rejected found)) ∨
          ∃ t, parse s.nesting c expression = .ok t ∧ (run s graphArgs).seen = (0, t.dot, []) ∧
            (run s fileArgs).seen = (0, s!"Wrote graph to {name}\n", [(name, t.dot)]) ∧
            ((∃ v text, t.evaluate c = .ok v ∧ v.text = .ok text ∧
                (run s evalArgs).seen = (0, s!"Reconstituted expression: \"{t.print}\"\n" ++
                  s!"/* {text} */\n" ++ (if withGraph then (run s graphArgs).stdout else ""), [])) ∨
              ∃ limit, (t.evaluate c = .error (.limit limit) ∨
                  ∃ v, t.evaluate c = .ok v ∧ v.text = .error limit) ∧
                (run s evalArgs).ending = .crashed (.limit limit) ∧
                (run s evalArgs).seen = (1, s!"Reconstituted expression: \"{t.print}\"\n", []))) := by
  refine ⟨readRequest_evaluateLine expression withGraph strict rightAssoc,
    fun output => readRequest_graphLine expression output strict rightAssoc,
    fun name => leadsTo_of_isFileName, ?_⟩
  intro evalArgs graphArgs fileArgs v₁ v₂ v₃ path name heval hgraph hfile hname hhere
  have hrunEval : run s evalArgs = onTree s v₁ strict rightAssoc expression (runEvaluate · withGraph) :=
    run_of_request heval
  have hrunGraph : run s graphArgs = onTree s v₂ strict rightAssoc expression fun _ => runGraph s none :=
    run_of_request hgraph
  have hrunFile : run s fileArgs =
      onTree s v₃ strict rightAssoc expression fun _ => runGraph s (some path) := run_of_request hfile
  have hrun : ∀ args ∈ [evalArgs, graphArgs, fileArgs], ∃ verbose next,
      run s args = onTree s verbose strict rightAssoc expression next := by
    simp only [List.forall_mem_cons]
    exact ⟨⟨_, _, hrunEval⟩, ⟨_, _, hrunGraph⟩, ⟨_, _, hrunFile⟩, nofun⟩
  rcases load_flagSettings_cases s.environment strict rightAssoc with ⟨hwrong, hload⟩ | ⟨c, hc, hload⟩
  · refine .inl ⟨hwrong, fun args hargs => ?_⟩
    obtain ⟨verbose, next, h⟩ := hrun args hargs
    rw [h]
    exact (onTree_of_invalid hload).symm
  · refine .inr ⟨c, hc, hload, ?_⟩
    cases hparse : parse s.nesting c expression with
    | error e =>
      refine .inl ⟨e, rfl, fun args hargs => ?_⟩
      obtain ⟨verbose, next, h⟩ := hrun args hargs
      rw [h]
      exact onTree_of_error hload hparse
    | ok t =>
      have hgraphSeen : (run s graphArgs).seen = (0, t.dot, []) := by
        rw [hrunGraph, (onTree_of_ok hload hparse).2]
        rfl
      have hfileSeen : (run s fileArgs).seen = (0, s!"Wrote graph to {name}\n", [(name, t.dot)]) := by
        rw [hrunFile, (onTree_of_ok hload hparse).2, runGraph_of_leadsTo hname hhere]
        rfl
      have hprinted : (run s graphArgs).stdout = t.dot := congrArg (fun seen => seen.2.1) hgraphSeen
      have hends : (run s evalArgs).ending = (runEvaluate c withGraph t).ending ∧
          (run s evalArgs).seen = (runEvaluate c withGraph t).seen := by
        rw [hrunEval]
        exact onTree_of_ok hload hparse
      rw [hprinted, hends.1, hends.2]
      exact .inr ⟨t, rfl, hgraphSeen, hfileSeen, runEvaluate_cases c withGraph t⟩

/-- A policy that is none is no fault where the flag settles the policy; without the flag it is one. -/
theorem commands_agree_of_masked_variable :
    (run { environment := [("ARITHTREE_UNKNOWN_CHARACTERS", "ignore")] }
        (graphLine "7" (some "t.dot") true false)).seen =
      (0, "Wrote graph to t.dot\n", [("t.dot", Expr.dot (.literal "7"))]) ∧
    (run { environment := [("ARITHTREE_UNKNOWN_CHARACTERS", "ignore")] }
        (graphLine "7" (some "t.dot") false false)).seen = (2, "", []) := by
  have hname : IsFileName "t.dot" := by decide
  constructor
  · obtain ⟨heval, hgraph, hleads, h⟩ := commands_agree
      { environment := [("ARITHTREE_UNKNOWN_CHARACTERS", "ignore")] } "7" false true false
    rcases h _ _ _ _ _ _ _ _ heval (hgraph none) (hgraph (some "t.dot")) (hleads _ hname) rfl with
      ⟨hwrong, -⟩ | ⟨c, -, -, ⟨e, he, -⟩ | ⟨t, ht, -, hfile, -⟩⟩
    · exact absurd (by decide) hwrong
    · cases he.symm.trans (parse_numeral 195 c (by decide)).1
    · cases ht.symm.trans (parse_numeral 195 c (by decide)).1
      exact hfile
  · obtain ⟨heval, hgraph, hleads, h⟩ := commands_agree
      { environment := [("ARITHTREE_UNKNOWN_CHARACTERS", "ignore")] } "7" false false false
    rcases h _ _ _ _ _ _ _ _ heval (hgraph none) (hgraph (some "t.dot")) (hleads _ hname) rfl with
      ⟨-, hstops⟩ | ⟨c, hc, -⟩
    · exact (hstops _ (by simp)).1
    · cases hc.unknownCharacters

/-- With 195 parentheses open at most, no command answers for a dollar sign after 196 of them: that a
number has too many digits is not all that can get past a command. -/
theorem run_crashes_at_dollar :
    let expression := String.ofList (List.replicate 196 '(' ++ ['$'])
    (run {} (evaluateLine expression false true false)).ending = .crashed (.rejected ⟨'$', 196⟩) ∧
      (run {} (graphLine expression none true false)).ending = .crashed (.rejected ⟨'$', 196⟩) := by
  intro expression
  have hload : load [] (flagSettings true false) = .ok { unknownCharacters := .reject } := by decide +kernel
  have hparse : parse 195 { unknownCharacters := .reject } expression = .error (.escaped ⟨'$', 196⟩) :=
    parse_openings_rejected 195
  constructor
  · rw [run_of_request (readRequest_evaluateLine expression false true false)]
    exact (onTree_of_error (s := {}) hload hparse).2.2 _ rfl
  · rw [run_of_request (readRequest_graphLine expression none true false)]
    exact (onTree_of_error (s := {}) hload hparse).2.2 _ rfl

end IntExpr.CommandLine
