import IntExpr.Proofs.Concatenation
import IntExpr.Proofs.Strictness

/-!
# Blanking — a character that is passed over and a space

A lenient scan makes no difference between a character outside the alphabet and a space: with a space in
the place of each such character a text has the same tokens (`tokens_scanFrom_blank`), and it has them
under either policy, since nothing is left to reject.  The parser sees tokens, and so the parses are the
same too (`unknown_reads_as_space`).

* `tokens_around_unknown`: the texts on the two sides of such a character are scanned each by itself.
-/

namespace IntExpr

variable {policy policy' : UnknownCharacters} {source u v : String} {i : Nat} {x : Char} {cs : List Char}

/-- A space for a character outside the alphabet; any other character is left as it is. -/
def blank (x : Char) : Char := if x ∈ alphabet.toList then x else ' '

/-- The text with a space in the place of each character outside the alphabet. -/
def blanked (source : String) : String := String.ofList (source.toList.map blank)

/-! ### Characters -/

theorem blank_of_inAlphabet (h : inAlphabet x = true) : blank x = x := if_pos (inAlphabet_iff.mp h)

theorem blank_of_not_inAlphabet (h : inAlphabet x = false) : blank x = ' ' := by
  refine if_neg fun hmem => ?_
  rw [inAlphabet_iff.mpr hmem] at h
  cases h

theorem inAlphabet_blank (x : Char) : inAlphabet (blank x) = true := by
  cases h : inAlphabet x with
  | true => rw [blank_of_inAlphabet h, h]
  | false =>
    rw [blank_of_not_inAlphabet h]
    decide

theorem inAlphabet_of_isDigit (h : x.isDigit = true) : inAlphabet x = true := by
  simp [inAlphabet, h]

theorem isDigit_of_not_inAlphabet (h : inAlphabet x = false) : x.isDigit = false := by
  refine Bool.eq_false_iff.mpr fun hdigit => ?_
  rw [inAlphabet_of_isDigit hdigit] at h
  cases h

/-- No digit comes or goes. -/
theorem isDigit_blank (x : Char) : (blank x).isDigit = x.isDigit := by
  cases h : inAlphabet x with
  | true => rw [blank_of_inAlphabet h]
  | false =>
    rw [blank_of_not_inAlphabet h, isDigit_of_not_inAlphabet h]
    rfl

/-- So the runs of digits are the same. -/
theorem digits_map_blank (cs : List Char) :
    (cs.map blank).takeWhile Char.isDigit = cs.takeWhile Char.isDigit ∧
      (cs.map blank).dropWhile Char.isDigit = (cs.dropWhile Char.isDigit).map blank := by
  have hsame : Char.isDigit ∘ blank = Char.isDigit := funext isDigit_blank
  rw [List.takeWhile_map, List.dropWhile_map, hsame]
  refine ⟨?_, rfl⟩
  have hdigits : ∀ d ∈ cs.takeWhile Char.isDigit, blank d = d := by
    intro d hd
    exact blank_of_inAlphabet (inAlphabet_of_isDigit (List.all_eq_true.mp List.all_takeWhile d hd))
  exact (List.map_congr_left hdigits).trans (List.map_id _)

/-! ### Scans -/

/-- The scan of a blanked text, under either policy, meets the tokens of a lenient scan. -/
theorem tokens_scanFrom_blank (policy : UnknownCharacters) (hskip : policy' = .skip) :
    (scanFrom policy i (cs.map blank)).tokens = (scanFrom policy' i cs).tokens := by
  fun_induction scanFrom policy' i cs with
  | case1 i => rw [List.map_nil, scanFrom_nil]
  | case2 i c cs hsep ih =>
    have hc : blank c = c := blank_of_inAlphabet (by simp [inAlphabet, hsep])
    rw [List.map_cons, hc, scanFrom_separator hsep, ih]
  | case3 i c cs hsep hdigit more ih =>
    have hc : blank c = c := blank_of_inAlphabet (inAlphabet_of_isDigit hdigit)
    obtain ⟨htake, hdrop⟩ := digits_map_blank cs
    rw [List.map_cons, hc, scanFrom_digit hdigit (Bool.not_eq_true _ ▸ hsep), htake, hdrop,
      Scan.tokens_cons_token, Scan.tokens_cons_token, ih]
  | case4 i c cs hsep hdigit s hs ih =>
    have hc : blank c = c := blank_of_inAlphabet (by simp [inAlphabet, hs])
    rw [List.map_cons, hc, scanFrom_symbol hs (Bool.not_eq_true _ ▸ hsep) (Bool.not_eq_true _ ▸ hdigit),
      Scan.tokens_cons_token, Scan.tokens_cons_token, ih]
  | case5 i c cs hsep hdigit hs hpolicy ih =>
    subst hpolicy
    have hc : blank c = ' ' := blank_of_not_inAlphabet (not_inAlphabet hsep hdigit hs)
    rw [List.map_cons, hc, scanFrom_separator (by decide), Scan.tokens_cons_skipped, ih]
  | case6 i c cs hsep hdigit hs hpolicy => cases hpolicy.symm.trans hskip

/-- A blanked text has the tokens that a lenient scan finds in the text, and nothing in it is rejected. -/
theorem scan_blanked (policy : UnknownCharacters) (source : String) :
    (scan policy (blanked source)).rejected = none ∧
      (scan policy (blanked source)).tokens = (scan .skip source).tokens := by
  have hall : ∀ y ∈ source.toList.map blank, inAlphabet y = true := by
    intro y hy
    obtain ⟨x, -, rfl⟩ := List.mem_map.mp hy
    exact inAlphabet_blank x
  have hsame : scanFrom policy 0 (source.toList.map blank) = scanFrom .skip 0 (source.toList.map blank) :=
    scanFrom_eq_of_inAlphabet hall
  rw [scan, blanked, String.toList_ofList]
  refine ⟨?_, tokens_scanFrom_blank policy rfl⟩
  rw [hsame]
  exact rejected_of_skip rfl

/-- The texts on the two sides of a character that is passed over are scanned each by itself. -/
theorem tokens_around_unknown (u v : String) (hx : inAlphabet x = false) :
    ∃ init, (scan .skip u).tokens = init ++ [⟨.finish, u.length⟩] ∧
      (scan .skip (u ++ (String.singleton x ++ v))).tokens =
        init ++ (scan .skip v).tokens.map (Token.shift (u.length + 1)) := by
  have hlist : (String.singleton x ++ v).toList = x :: v.toList := by
    rw [String.toList_append, String.toList_singleton, List.singleton_append]
  have hapart : Apart u.toList (String.singleton x ++ v).toList := by
    intro y z _ hz _
    rw [hlist] at hz
    obtain rfl : x = z := Option.some.inj hz
    exact isDigit_of_not_inAlphabet hx
  have hpassed : (scan .skip u).rejected = none := rejected_of_skip rfl
  obtain ⟨init, hu, happend⟩ := tokens_append hapart hpassed
  refine ⟨init, hu, happend.trans ?_⟩
  have hv : (scan .skip (String.singleton x ++ v)).tokens = (scan .skip v).tokens.map (Token.shift 1) := by
    rw [scan, hlist, scanFrom_skip hx, Scan.tokens_cons_skipped, scanFrom_shift, Scan.tokens_shift, scan]
  rw [hv, List.map_map]
  refine congrArg (init ++ ·) (List.map_congr_left fun t _ => ?_)
  simp only [Token.shift, Function.comp_apply, Token.mk.injEq, true_and]
  omega

/-! ### Parses -/

theorem length_blanked (source : String) : (blanked source).length = source.length := by
  rw [blanked, String.length_ofList, List.length_map, String.length_toList]

/-- The parse of a blanked text, under either policy, is the lenient parse of the text. -/
theorem parse_blanked (limit : Nat) (c : Config) (policy : UnknownCharacters) (source : String) :
    parse limit { c with unknownCharacters := policy } (blanked source) =
      parse limit { c with unknownCharacters := .skip } source := by
  obtain ⟨hrejected, htokens⟩ := scan_blanked policy source
  have hskip : (scan .skip source).rejected = none := rejected_of_skip rfl
  have herror : ∀ h : Halt, h.error (scan policy (blanked source)) (blanked source).length =
      h.error (scan .skip source) source.length := by
    intro h
    rw [length_blanked]
    simp only [Halt.error, hrejected, hskip]
  rw [parse_eq, parse_eq, htokens]
  exact congrArg (Except.mapError · _) (funext herror)

example : tokenize .reject (blanked "1$2") =
    .ok [⟨.number "1", 0⟩, ⟨.number "2", 2⟩, ⟨.finish, 3⟩] := by decide +kernel

end IntExpr
