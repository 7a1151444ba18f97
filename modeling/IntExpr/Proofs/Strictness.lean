import IntExpr.Proofs.OnePass
import Mathlib.Tactic.IntervalCases

/-!
# Strictness — strict and lenient reading of one text

Up to the first character outside the alphabet a strict scan meets what a lenient one meets, and there
it ends (`scanFrom_unknown`).  The parser takes tokens one by one.  So a strict parse differs from the
lenient one only where the lenient one goes beyond that character (`parseReport_strict`).

* `inAlphabet_iff`: the alphabet, written out.
* `parse_refused`, `parse_rejected`: a parse that stops before that character, and one that does not.
-/

namespace IntExpr

open Pushdown (State Refusal reach run)

variable {limit : Nat} {c : Config} {policy policy' : UnknownCharacters} {source : String} {i : Nat} {x : Char}
  {cs pre : List Char} {early late us : List Token} {t : Token} {s : State}

/-! ### The alphabet -/

def alphabet : String := " \t\r\"'0123456789+-*/%^()\n"

theorem mem_alphabet_of_isSeparator (h : isSeparator x = true) : x ∈ alphabet.toList := by
  simp only [isSeparator, Bool.or_eq_true, decide_eq_true_eq] at h
  rcases h with (((rfl | rfl) | rfl) | rfl) | rfl <;> decide

theorem mem_alphabet_of_isDigit (h : x.isDigit = true) : x ∈ alphabet.toList := by
  have hcode : 48 ≤ x.toNat ∧ x.toNat ≤ 57 := by
    simpa [Char.isDigit, UInt32.le_iff_toNat_le] using h
  obtain ⟨hlo, hhi⟩ := hcode
  rw [← x.ofNat_toNat]
  interval_cases x.toNat <;> decide

theorem mem_alphabet_of_ofChar? (h : (Symbol.ofChar? x).isSome = true) : x ∈ alphabet.toList := by
  by_cases hown : x = '(' ∨ x = ')' ∨ x = '\n'
  · rcases hown with rfl | rfl | rfl <;> decide
  · rw [not_or, not_or] at hown
    obtain ⟨hopen, hclose, hnew⟩ := hown
    rw [Symbol.ofChar?, if_neg hopen, if_neg hclose, if_neg hnew, Option.isSome_map] at h
    obtain ⟨o, ho⟩ := Option.isSome_iff_exists.mp h
    rw [BinOp.eq_char_of_ofChar? ho]
    cases o <;> decide

theorem inAlphabet_iff : inAlphabet x = true ↔ x ∈ alphabet.toList := by
  constructor
  · intro h
    simp only [inAlphabet, Bool.or_eq_true] at h
    rcases h with (hsep | hdigit) | hsymbol
    · exact mem_alphabet_of_isSeparator hsep
    · exact mem_alphabet_of_isDigit hdigit
    · exact mem_alphabet_of_ofChar? hsymbol
  · have hall : alphabet.toList.all inAlphabet = true := by decide
    exact List.all_eq_true.mp hall x

/-! ### Two scans of one text -/

theorem scanFrom_eq_of_inAlphabet (h : ∀ y ∈ cs, inAlphabet y = true) :
    scanFrom policy i cs = scanFrom policy' i cs := by
  fun_induction scanFrom policy i cs with
  | case1 i => rw [scanFrom_nil]
  | case2 i c cs hsep ih => rw [scanFrom_separator hsep, ih (List.forall_mem_cons.mp h).2]
  | case3 i c cs hsep hdigit more ih =>
    rw [scanFrom_digit hdigit (Bool.not_eq_true _ ▸ hsep), ih]
    intro y hy
    exact h y (List.mem_cons_of_mem c ((List.dropWhile_suffix _).subset hy))
  | case4 i c cs hsep hdigit s hs ih =>
    rw [scanFrom_symbol hs (Bool.not_eq_true _ ▸ hsep) (Bool.not_eq_true _ ▸ hdigit),
      ih (List.forall_mem_cons.mp h).2]
  | case5 i c cs hsep hdigit hs | case6 i c cs hsep hdigit hs =>
    have hc : inAlphabet c = true := (List.forall_mem_cons.mp h).1
    rw [not_inAlphabet hsep hdigit hs] at hc
    cases hc

/-- **The first character outside the alphabet** ends a strict scan and is passed over by a lenient
one; before it the two meet the same. -/
theorem scanFrom_unknown (hpre : ∀ y ∈ pre, inAlphabet y = true) (hx : inAlphabet x = false)
    (i : Nat) (post : List Char) :
    ∃ init, scanFrom .reject i (pre ++ x :: post) = ⟨init, some ⟨x, i + pre.length⟩⟩ ∧
      scanFrom .skip i (pre ++ x :: post) =
        ⟨init ++ .skipped ⟨x, i + pre.length⟩ :: (scanFrom .skip (i + pre.length + 1) post).items, none⟩ ∧
      ∀ t ∈ init.filterMap ScanItem.token?, t.symbol ≠ .finish ∧ t.pos < i + pre.length := by
  have hdigit : x.isDigit = false := by
    simp only [inAlphabet, Bool.or_eq_false_iff] at hx
    exact hx.1.2
  have hapart : Apart pre (x :: post) := by
    intro y z _ hz _
    obtain rfl : x = z := Option.some.inj hz
    exact hdigit
  have hrejected : (scanFrom .skip i pre).rejected = none := rejected_of_skip rfl
  have hsame : scanFrom .reject i pre = scanFrom .skip i pre := scanFrom_eq_of_inAlphabet hpre
  obtain ⟨init, hitems, hfinish⟩ := items_of_scanFrom hrejected
  refine ⟨init, ?_, ?_, ?_⟩
  · rw [scanFrom_append hapart, hsame, scanFrom_reject hx, Scan.followedBy, hrejected, hitems,
      List.dropLast_concat, List.append_nil]
  · have hafter : (scanFrom .skip (i + pre.length + 1) post).rejected = none := rejected_of_skip rfl
    rw [scanFrom_append hapart, scanFrom_skip hx, Scan.followedBy, hrejected, hitems,
      List.dropLast_concat, Scan.rejected_cons, hafter]
    rfl
  · -- the end of `pre` comes after every token in it
    have horder : (scanFrom .skip i pre).tokens.Pairwise fun t u => t.pos < u.pos :=
      pairwise_pos_of_scanFrom
    rw [Scan.tokens, hitems, List.filterMap_append] at horder
    have hbefore := (List.pairwise_append.mp horder).2.2
    intro t ht
    refine ⟨fun hfin => hfinish ?_, hbefore t ht _ List.mem_cons_self⟩
    rw [← hfin]
    exact List.mem_map_of_mem ht

/-- The tokens of a text with a first character outside the alphabet, before it and after it. -/
theorem tokens_of_unknown (hget : source.toList[i]? = some x) (hx : inAlphabet x = false)
    (hpre : ∀ y ∈ source.toList.take i, inAlphabet y = true) :
    ∃ early late, (scan .reject source).tokens = early ∧ (scan .reject source).rejected = some ⟨x, i⟩ ∧
      (scan .skip source).tokens = early ++ late ∧
      (∀ t ∈ early, t.symbol ≠ .finish ∧ t.pos < i) ∧ ∀ t ∈ late, i < t.pos := by
  obtain ⟨hlt, hat⟩ := List.getElem?_eq_some_iff.mp hget
  have hsplit : source.toList = source.toList.take i ++ x :: source.toList.drop (i + 1) := by
    rw [← hat, ← List.drop_eq_getElem_cons hlt, List.take_append_drop]
  have hlength : 0 + (source.toList.take i).length = i := by
    rw [List.length_take]
    omega
  obtain ⟨init, hstrict, hlenient, hinit⟩ :=
    scanFrom_unknown hpre hx 0 (source.toList.drop (i + 1))
  rw [← hsplit, hlength] at hstrict hlenient
  rw [hlength] at hinit
  refine ⟨init.filterMap ScanItem.token?, (scanFrom .skip (i + 1) (source.toList.drop (i + 1))).tokens,
    ?_, ?_, ?_, hinit, fun t ht => le_pos_of_mem_scanFrom ht⟩
  · rw [scan, hstrict, Scan.tokens]
  · rw [scan, hstrict]
  · rw [scan, hlenient, Scan.tokens, List.filterMap_append]
    rfl

/-! ### Two parses of one text -/

theorem parse_refused (hfit : NestsWithin limit
      ((scan c.unknownCharacters source).tokens.map Token.symbol))
    (hrun : run {} (scan c.unknownCharacters source).tokens = .error ⟨s, t :: us⟩) :
    parse limit c source = .error (s.wanted.error t) := by
  have hparse := parseTokens_eq_error (parseTokens_eq_run c.associativity hfit) hrun
  rw [parse_eq, hparse]
  exact congrArg Except.error (Halt.error_cons s.wanted_ne_tooDeep _ _ t us)

/-- A parse that wants more tokens than a strict scan gives reports the character that ended the scan. -/
theorem parse_rejected {found : Located} (hfit : NestsWithin limit
      ((scan c.unknownCharacters source).tokens.map Token.symbol))
    (hrun : run {} (scan c.unknownCharacters source).tokens = .error ⟨s, []⟩)
    (hrejected : (scan c.unknownCharacters source).rejected = some found) :
    parse limit c source = .error (.rejected found) := by
  have hparse := parseTokens_eq_error (parseTokens_eq_run c.associativity hfit) hrun
  rw [parse_eq, hparse]
  exact congrArg Except.error (Halt.error_nil s.wanted_ne_tooDeep hrejected _)

/-- A parse that has come through the tokens `early` finds a tree, or it is refused at a later token. -/
theorem parse_after_reach (hlex : tokenize c.unknownCharacters source = .ok (early ++ late))
    (hfit : NestsWithin limit ((early ++ late).map Token.symbol))
    (hreach : reach {} early = some s) : (∃ e, parse limit c source = .ok e) ∨
      ∃ (s' : State) (t : Token), t ∈ late ∧ parse limit c source = .error (s'.wanted.error t) := by
  cases hrun : run {} (early ++ late) with
  | ok _ =>
    obtain ⟨e, he⟩ := (run_eq_ok_iff (parseTokens_eq_run c.associativity hfit)).mp hrun
    exact .inl ⟨e, (parse_eq_ok_iff hlex).mpr he⟩
  | error r =>
    obtain ⟨-, t, us, hrest, -, -, -, hparse⟩ := parse_of_run_error hlex hfit hrun
    have hlate : run s late = .error r := (Pushdown.run_append hreach late).symm.trans hrun
    obtain ⟨read, hread, -, -⟩ := Pushdown.reach_of_run_error hlate
    have hmem : t ∈ late := by
      rw [hread, hrest]
      exact List.mem_append_right read List.mem_cons_self
    exact .inr ⟨r.state, t, hmem, hparse⟩

/-- Without characters outside the alphabet the policy does not matter. -/
theorem parse_eq_of_inAlphabet (c : Config) (h : ∀ y ∈ source.toList, inAlphabet y = true) :
    parse limit { c with unknownCharacters := policy } source =
      parse limit { c with unknownCharacters := policy' } source := by
  have hscan : scan policy source = scan policy' source := scanFrom_eq_of_inAlphabet h
  rw [parse_eq, parse_eq, hscan]

/-- Of two scans that agree up to the character `x` at `i` the parses agree if they stop at a token
before it; if not, the strict parse reports `x`. -/
theorem parse_two_scans (c : Config) (hstrict : (scan .reject source).tokens = early)
    (hrejected : (scan .reject source).rejected = some ⟨x, i⟩)
    (hlenient : (scan .skip source).tokens = early ++ late) (hfinish : ∀ t ∈ early, t.symbol ≠ .finish)
    (hfit : NestsWithin limit ((early ++ late).map Token.symbol)) :
    (∃ (s : State) (t : Token), t ∈ early ∧
      parse limit { c with unknownCharacters := .skip } source = .error (s.wanted.error t) ∧
      parse limit { c with unknownCharacters := .reject } source = .error (s.wanted.error t)) ∨
    (((∃ e, parse limit { c with unknownCharacters := .skip } source = .ok e) ∨
      ∃ (s : State) (t : Token), t ∈ late ∧
        parse limit { c with unknownCharacters := .skip } source = .error (s.wanted.error t)) ∧
      parse limit { c with unknownCharacters := .reject } source = .error (.rejected ⟨x, i⟩)) := by
  have hfitEarly : NestsWithin limit (early.map Token.symbol) :=
    (List.map_append (f := Token.symbol) ▸ hfit).left
  cases hrun : run {} early with
  | ok _ =>
    -- the end of the text does not stand before `x`
    obtain ⟨t, ht, hfin⟩ := List.mem_map.mp (Pushdown.finish_mem_of_run hrun)
    exact absurd hfin (hfinish t ht)
  | error r =>
    obtain ⟨s, rest⟩ := r
    obtain ⟨read, hread, hreach, -⟩ := Pushdown.reach_of_run_error hrun
    cases rest with
    | nil =>
      -- all of `early` is read, and one more token is wanted
      right
      rw [List.append_nil] at hread
      have hlex : tokenize .skip source = .ok (early ++ late) :=
        tokenize_eq_ok_iff.mpr ⟨rejected_of_skip rfl, hlenient⟩
      refine ⟨parse_after_reach (c := { c with unknownCharacters := .skip }) hlex hfit (hread ▸ hreach),
        ?_⟩
      exact parse_rejected (c := { c with unknownCharacters := .reject }) (hstrict.symm ▸ hfitEarly)
        (hstrict.symm ▸ hrun) hrejected
    | cons t us =>
      left
      refine ⟨s, t, hread ▸ List.mem_append_right read List.mem_cons_self, ?_, ?_⟩
      · exact parse_refused (c := { c with unknownCharacters := .skip }) (hlenient.symm ▸ hfit)
          (hlenient.symm ▸ Pushdown.run_append_of_refused hrun late)
      · exact parse_refused (c := { c with unknownCharacters := .reject }) (hstrict.symm ▸ hfitEarly)
          (hstrict.symm ▸ hrun)

/-! ### What is reported -/

/-- The outcome of a parse as it is reported. -/
def parseReport (limit : Nat) (c : Config) (source : String) : Except Diagnostic Expr :=
  (parse limit c source).mapError (·.diagnostic source)

theorem report_of_wanted (h : parse limit c source = .error (s.wanted.error t)) :
    ∃ d, parseReport limit c source = .error d ∧ d.kind = .expression ∧ d.pos = some (t.pos : Int) ∧
      d.cause = none := by
  obtain ⟨hkind, hpos, -⟩ := diagnostic_of_wanted s t source
  refine ⟨(s.wanted.error t).diagnostic source, congrArg (Except.mapError _) h, hkind, hpos, ?_⟩
  obtain ⟨mode, opened⟩ := s
  cases mode with
  | operand => rfl
  | operator => cases opened <;> rfl
  | tail => rfl

/-- **Which of two faults is reported.**  Without a character outside the alphabet strict and lenient
parses have one report.  Otherwise let `i` be the offset of the first such character `x`: a lenient
error before `i` is the strict error too, and if there is none, the strict parse reports `x`. -/
theorem parseReport_strict (c : Config) (source : String)
    (hfit : NestsWithin limit ((scan .skip source).tokens.map Token.symbol)) :
    ((∀ y ∈ source.toList, y ∈ alphabet.toList) →
      parseReport limit { c with unknownCharacters := .reject } source =
          parseReport limit { c with unknownCharacters := .skip } source ∧
        ∀ d, parseReport limit { c with unknownCharacters := .skip } source = .error d →
          d.kind = .expression ∧ d.cause = none) ∧
    ∀ (i : Nat) (x : Char), source.toList[i]? = some x → x ∉ alphabet.toList →
      (∀ y ∈ source.toList.take i, y ∈ alphabet.toList) →
      (∃ d p, p < i ∧ d.pos = some (p : Int) ∧ d.kind = .expression ∧ d.cause = none ∧
        parseReport limit { c with unknownCharacters := .skip } source = .error d ∧
        parseReport limit { c with unknownCharacters := .reject } source = .error d) ∨
      (((∃ t, parseReport limit { c with unknownCharacters := .skip } source = .ok t) ∨
          ∃ d p, i < p ∧ d.pos = some (p : Int) ∧
            parseReport limit { c with unknownCharacters := .skip } source = .error d) ∧
        parseReport limit { c with unknownCharacters := .reject } source = .error
          { kind := .expression
            message := s!"Unexpected character: {Text.quote (String.singleton x)}"
            context := some (Location.ofOffset source i)
            pos := some (i : Int)
            cause := some .token }) := by
  constructor
  · intro hall
    have hin : ∀ y ∈ source.toList, inAlphabet y = true := fun y hy => inAlphabet_iff.mpr (hall y hy)
    refine ⟨congrArg (Except.mapError _) (parse_eq_of_inAlphabet c hin), fun d hd => ?_⟩
    have hlex : tokenize .skip source = .ok ([] ++ (scan .skip source).tokens) :=
      tokenize_eq_ok_iff.mpr ⟨rejected_of_skip rfl, rfl⟩
    rcases parse_after_reach (c := { c with unknownCharacters := .skip }) hlex hfit rfl with
      ⟨e, hparse⟩ | ⟨s, t, -, hparse⟩
    · rw [parseReport, hparse] at hd
      exact nomatch hd
    · obtain ⟨d', hd', hkind, -, hcause⟩ := report_of_wanted hparse
      obtain rfl : d' = d := Except.error.inj (hd'.symm.trans hd)
      exact ⟨hkind, hcause⟩
  · intro i x hget hx hpre
    have hout : inAlphabet x = false := Bool.eq_false_iff.mpr fun h => hx (inAlphabet_iff.mp h)
    obtain ⟨early, late, hstrict, hrejected, hlenient, hearly, hlate⟩ :=
      tokens_of_unknown hget hout fun y hy => inAlphabet_iff.mpr (hpre y hy)
    rw [hlenient] at hfit
    rcases parse_two_scans c hstrict hrejected hlenient (fun t ht => (hearly t ht).1) hfit with
      ⟨s, t, ht, hskip, hreject⟩ | ⟨hskip, hreject⟩
    · left
      obtain ⟨d, hd, hkind, hpos, hcause⟩ := report_of_wanted hskip
      refine ⟨d, t.pos, (hearly t ht).2, hpos, hkind, hcause, hd, ?_⟩
      rw [← hd, parseReport, parseReport, hskip, hreject]
    · right
      refine ⟨?_, congrArg (Except.mapError _) hreject⟩
      rcases hskip with ⟨e, hparse⟩ | ⟨s, t, ht, hparse⟩
      · exact .inl ⟨e, congrArg (Except.mapError _) hparse⟩
      · obtain ⟨d, hd, -, hpos, -⟩ := report_of_wanted hparse
        exact .inr ⟨d, t.pos, hlate t ht, hpos, hd⟩

/-- A character outside the alphabet in front of a parenthesis that closes nothing. -/
theorem parseReport_strict_of_two_faults :
    NestsWithin 200 ((scan .skip "2 $ )").tokens.map Token.symbol) ∧
      parseReport 200 { unknownCharacters := .reject } "2 $ )" = .error
        { kind := .expression, message := "Unexpected character: '$'"
          context := some ⟨1, 3, some "2 $ )"⟩, pos := some 2, cause := some .token } := by
  have hscan : (scan .skip "2 $ )").tokens =
      [⟨.number "2", 0⟩, ⟨.rightParen, 4⟩, ⟨.finish, 5⟩] := by decide +kernel
  have hfit : NestsWithin 200 ((scan .skip "2 $ )").tokens.map Token.symbol) :=
    hscan ▸ nestsWithin_iff.mpr (by decide)
  have hrun : run {} (scan .skip "2 $ )").tokens =
      .error ⟨⟨.operator, []⟩, [⟨.rightParen, 4⟩, ⟨.finish, 5⟩]⟩ := hscan ▸ rfl
  have hskip : parse 200 {} "2 $ )" = .error (.endExpected ⟨.rightParen, 4⟩) :=
    parse_refused (c := {}) hfit hrun
  have hpre : ∀ y ∈ "2 $ )".toList.take 2, y ∈ alphabet.toList :=
    List.forall_mem_cons.mpr ⟨by decide, List.forall_mem_singleton.mpr (by decide)⟩
  refine ⟨hfit, ?_⟩
  rcases (parseReport_strict {} "2 $ )" hfit).2 2 '$' (by decide) (by decide) hpre with
    ⟨d, p, hp, hpos, -, -, hd, -⟩ | ⟨-, h⟩
  · -- the lenient error is at the parenthesis, after the character
    rw [parseReport, hskip] at hd
    obtain rfl := Except.error.inj hd
    have hat : (4 : Int) = p := Option.some.inj hpos
    omega
  · rw [h]
    rfl

end IntExpr
