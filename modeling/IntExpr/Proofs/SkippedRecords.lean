import IntExpr.Proofs.FaithfulResult

/-!
# SkippedRecords — the debug records of a parse

A scan puts a record down for each character that it passes over, and the parser takes tokens one by one.
So the records of a parse are those of the characters outside the alphabet in front of the token that it
stops at (`skippedAmong_scanFrom`), all of them if it comes to the end, and then that of its failure
(`parseRecords_spec`).  Where such characters are not let past there are no records of them.
-/

namespace IntExpr

variable {limit : Nat} {policy : UnknownCharacters} {c : Config} {source : String} {i n : Nat} {x : Char}
  {cs ds : List Char} {t : Token} {e : ParseError}

/-- The characters of `cs` outside the alphabet, the first character standing at offset `i`. -/
def unknownsFrom (i : Nat) (cs : List Char) : List Located :=
  ((cs.zipIdx i).filter fun x => x.1 ∉ alphabet.toList).map fun x => ⟨x.1, x.2⟩

/-- The characters of a text outside the alphabet, in order, each with its offset. -/
def unknowns (source : String) : List Located := unknownsFrom 0 source.toList

/-! ### Characters outside the alphabet -/

theorem unknownsFrom_known (hx : inAlphabet x = true) :
    unknownsFrom i (x :: cs) = unknownsFrom (i + 1) cs := by
  simp [unknownsFrom, inAlphabet_iff.mp hx]

theorem unknownsFrom_unknown (hx : inAlphabet x = false) :
    unknownsFrom i (x :: cs) = ⟨x, i⟩ :: unknownsFrom (i + 1) cs := by
  have hnot : x ∉ alphabet.toList := fun hmem => by simp [inAlphabet_iff.mpr hmem] at hx
  simp [unknownsFrom, hnot]

theorem unknownsFrom_append_known (h : ∀ y ∈ ds, inAlphabet y = true) :
    unknownsFrom i (ds ++ cs) = unknownsFrom (i + ds.length) cs := by
  induction ds generalizing i with
  | nil => rfl
  | cons d ds ih =>
    obtain ⟨hd, hds⟩ := List.forall_mem_cons.mp h
    rw [List.cons_append, unknownsFrom_known hd, ih hds, List.length_cons]
    congr 1
    omega

theorem le_pos_of_mem_unknownsFrom {y : Located} (h : y ∈ unknownsFrom i cs) : i ≤ y.pos := by
  simp only [unknownsFrom, List.mem_map, List.mem_filter] at h
  obtain ⟨⟨z, p⟩, ⟨hmem, -⟩, rfl⟩ := h
  exact List.le_snd_of_mem_zipIdx hmem

theorem pos_lt_of_mem_unknowns {y : Located} (h : y ∈ unknowns source) : y.pos < source.length := by
  simp only [unknowns, unknownsFrom, List.mem_map, List.mem_filter] at h
  obtain ⟨⟨z, p⟩, ⟨hmem, -⟩, rfl⟩ := h
  have hlt := List.snd_lt_add_of_mem_zipIdx hmem
  rw [String.length_toList, Nat.zero_add] at hlt
  exact hlt

theorem pairwise_unknowns (source : String) : (unknowns source).Pairwise fun y z => y.pos < z.pos := by
  have hall : (source.toList.zipIdx 0).Pairwise fun y z => y.2 < z.2 := by
    refine List.pairwise_map.mp ?_
    rw [List.zipIdx_map_snd]
    exact List.pairwise_lt_range'
  exact List.pairwise_map.mpr (hall.filter _)

theorem filter_unknownsFrom_eq_nil (h : n ≤ i) : (unknownsFrom i cs).filter (·.pos < n) = [] := by
  refine List.filter_eq_nil_iff.mpr fun y hy => ?_
  have hle := le_pos_of_mem_unknownsFrom hy
  simp
  omega

/-! ### What a scan passes over -/

/-- The offset of a character lies before that of token number `n`, if there is such a token. -/
def Scan.isBefore (s : Scan) (n : Nat) (y : Located) : Bool := s.tokens[n]?.all (y.pos < ·.pos)

theorem isBefore_cons_token (t : Token) (s : Scan) (n : Nat) :
    (s.cons (.token t)).isBefore (n + 1) = s.isBefore n := by
  funext y
  simp [Scan.isBefore]

theorem isBefore_cons_skipped (y : Located) (s : Scan) (n : Nat) :
    (s.cons (.skipped y)).isBefore n = s.isBefore n := by
  funext z
  simp [Scan.isBefore]

/-- Nothing stands before a token in front, and for the later tokens it does not count. -/
theorem skippedAmong_cons_token {s : Scan} (hpos : t.pos ≤ i)
    (hs : ∀ n, Scan.skippedAmong n s.items = (unknownsFrom i cs).filter (s.isBefore n)) (n : Nat) :
    Scan.skippedAmong n (s.cons (.token t)).items =
      (unknownsFrom i cs).filter ((s.cons (.token t)).isBefore n) := by
  cases n with
  | zero =>
    have hfirst : (s.cons (.token t)).isBefore 0 = fun y => decide (y.pos < t.pos) := by
      funext y
      simp [Scan.isBefore]
    rw [hfirst, filter_unknownsFrom_eq_nil hpos]
    rfl
  | succ n =>
    rw [isBefore_cons_token]
    exact hs n

/-- **Before a token comes into view, just the unknown characters in front of it are passed over**, and
all of them if there are not so many tokens. -/
theorem skippedAmong_scanFrom (hskip : policy = .skip) (n : Nat) :
    Scan.skippedAmong n (scanFrom policy i cs).items =
      (unknownsFrom i cs).filter ((scanFrom policy i cs).isBefore n) := by
  fun_induction scanFrom policy i cs generalizing n with
  | case1 i => cases n <;> rfl
  | case2 i c cs hsep ih =>
    rw [unknownsFrom_known (by simp [inAlphabet, hsep])]
    exact ih n
  | case3 i c cs hsep hdigit more ih =>
    have hmore : ∀ y ∈ c :: more, inAlphabet y = true := by
      intro y hy
      refine inAlphabet_iff.mpr (mem_alphabet_of_isDigit ?_)
      rcases List.mem_cons.mp hy with rfl | hy
      · exact hdigit
      · exact List.all_eq_true.mp List.all_takeWhile y hy
    have hsplit : c :: cs = (c :: more) ++ cs.dropWhile Char.isDigit := by
      rw [List.cons_append, List.takeWhile_append_dropWhile]
    have hnext : i + (c :: more).length = i + 1 + more.length := by
      rw [List.length_cons]
      omega
    rw [hsplit, unknownsFrom_append_known hmore, hnext]
    refine skippedAmong_cons_token ?_ ih n
    show i ≤ i + 1 + more.length
    omega
  | case4 i c cs hsep hdigit s hs ih =>
    rw [unknownsFrom_known (by simp [inAlphabet, hs])]
    exact skippedAmong_cons_token (Nat.le_succ i) ih n
  | case5 i c cs hsep hdigit hs hpolicy ih =>
    subst hpolicy
    rw [unknownsFrom_unknown (not_inAlphabet hsep hdigit hs), isBefore_cons_skipped]
    -- every token stands after the character that is passed over
    have hbefore : (scanFrom .skip (i + 1) cs).isBefore n ⟨c, i⟩ = true := by
      unfold Scan.isBefore
      cases htoken : (scanFrom .skip (i + 1) cs).tokens[n]? with
      | none => rfl
      | some t =>
        have hle := le_pos_of_mem_scanFrom (List.mem_of_getElem? htoken)
        exact decide_eq_true hle
    rw [List.filter_cons_of_pos hbefore, ← ih n]
    rfl
  | case6 i c cs hsep hdigit hs hpolicy => exact absurd (hpolicy.symm.trans hskip) (by decide)

/-- Where unknown characters end a scan, none is passed over. -/
theorem skippedAmong_of_reject (hreject : policy = .reject) (n : Nat) :
    Scan.skippedAmong n (scanFrom policy i cs).items = [] := by
  fun_induction scanFrom policy i cs generalizing n with
  | case1 i => cases n <;> rfl
  | case2 i c cs hsep ih => exact ih n
  | case3 i c cs hsep hdigit more ih =>
    cases n with
    | zero => rfl
    | succ n => exact ih n
  | case4 i c cs hsep hdigit s hs ih =>
    cases n with
    | zero => rfl
    | succ n => exact ih n
  | case5 i c cs hsep hdigit hs hpolicy ih => exact absurd (hpolicy.symm.trans hreject) (by decide)
  | case6 i c cs hsep hdigit hs hpolicy => cases n <;> rfl

/-! ### The records of a parse -/

/-- A parse that finds a tree comes to the end of its text. -/
theorem parseSkips_of_ok {tree : Expr} (hskip : c.unknownCharacters = .skip)
    (h : parse limit c source = .ok tree) : parseSkips limit c source = unknowns source := by
  have hlex : tokenize c.unknownCharacters source = .ok (scan c.unknownCharacters source).tokens :=
    tokenize_eq_ok_iff.mpr ⟨rejected_of_skip hskip, rfl⟩
  have hbefore : (scan c.unknownCharacters source).isBefore
      (scan c.unknownCharacters source).tokens.length = fun _ => true := by
    funext y
    simp [Scan.isBefore]
  rw [parseSkips_eq, (parse_eq_ok_iff hlex).mp h, takenOf, Scan.skippedBefore, scan,
    skippedAmong_scanFrom hskip, ← scan, hbefore]
  exact List.filter_eq_self.mpr fun _ _ => rfl

/-- A parse that fails comes to the place that its error points at. -/
theorem parseSkips_of_error (hskip : c.unknownCharacters = .skip) (h : parse limit c source = .error e) :
    parseSkips limit c source = (unknowns source).filter (·.pos < e.pos) := by
  obtain ⟨halt, hparse, ⟨t, us, hshown, -, rfl⟩ | ⟨found, -, hrejected, -⟩⟩ := parse_error_cases h
  · obtain ⟨read, htokens⟩ := (shown_suffix halt).trans (rest_suffix_of_parseTokens hparse)
    have hread : (scan c.unknownCharacters source).tokens.length - halt.shown.length = read.length := by
      rw [← htokens, List.length_append, Nat.add_sub_cancel]
    have hbefore : (scan c.unknownCharacters source).isBefore read.length =
        fun y => decide (y.pos < t.pos) := by
      funext y
      simp [Scan.isBefore, ← htokens, hshown]
    rw [parseSkips_eq, hparse, takenOf, hread, Scan.skippedBefore, scan, skippedAmong_scanFrom hskip, ← scan,
      hbefore, Reason.pos_of_error, unknowns]
  · cases (rejected_of_skip hskip).symm.trans hrejected

theorem parseSkips_of_reject (hreject : c.unknownCharacters = .reject) : parseSkips limit c source = [] := by
  rw [parseSkips_eq]
  exact skippedAmong_of_reject hreject _

theorem ne_escaped_of_skip (hskip : c.unknownCharacters = .skip) (h : parse limit c source = .error e)
    (found : Located) : e ≠ .escaped found := by
  rintro rfl
  cases (rejected_of_skip hskip).symm.trans (parse_eq_escaped_iff.mp h).1

/-- The record of the failure is the last, unless the error of a character comes out. -/
theorem parseRecords_of_error (h : parse limit c source = .error e) (hescaped : ∀ found, e ≠ .escaped found) :
    parseRecords limit c source = (parseSkips limit c source).map .skipped ++ [.parseFailed source e] := by
  rw [parseRecords, h]
  cases e with
  | escaped found => exact absurd rfl (hescaped found)
  | operandExpected | closingExpected | endExpected | rejected | tooDeep => rfl

theorem parseRecords_of_ok {tree : Expr} (h : parse limit c source = .ok tree) :
    parseRecords limit c source = (parseSkips limit c source).map .skipped := by
  rw [parseRecords, h]
  exact List.append_nil _

/-- **The debug records of a parse.**  Where characters outside the alphabet are passed over there is one
record for each of them in front of the place that the error points at, in the order of their offsets,
and for all of them if there is no error or if it points at the end of the text; the record of the
failure, if the parse fails, is the last.  Where they are not passed over that record is the only one, and
there is none if the error of such a character comes out in place of that for the depth. -/
theorem parseRecords_spec (limit : Nat) (c : Config) (source : String) :
    (unknowns source).Pairwise (fun y z => y.pos < z.pos) ∧
    (c.unknownCharacters = .skip →
      NestsWithin limit ((scan c.unknownCharacters source).tokens.map Token.symbol) →
      (∀ tree, parse limit c source = .ok tree → parseRecords limit c source = (unknowns source).map .skipped) ∧
      ∀ e, parse limit c source = .error e → ∃ p : Nat, (e.diagnostic source).pos = some (p : Int) ∧
        parseRecords limit c source =
          ((unknowns source).filter (·.pos < p)).map .skipped ++ [.parseFailed source e] ∧
        (p = source.length →
          parseRecords limit c source = (unknowns source).map .skipped ++ [.parseFailed source e])) ∧
    (c.unknownCharacters = .reject →
      (∀ tree, parse limit c source = .ok tree → parseRecords limit c source = []) ∧
      (∀ e, parse limit c source = .error e → (∀ found, e ≠ .escaped found) →
        parseRecords limit c source = [.parseFailed source e]) ∧
      ∀ found, parse limit c source = .error (.escaped found) → parseRecords limit c source = []) := by
  refine ⟨pairwise_unknowns source, fun hskip _ => ⟨fun tree h => ?_, fun e h => ?_⟩,
    fun hreject => ⟨fun tree h => ?_, fun e h hescaped => ?_, fun found h => ?_⟩⟩
  · rw [parseRecords_of_ok h, parseSkips_of_ok hskip h]
  · have hrecords := parseRecords_of_error h (ne_escaped_of_skip hskip h)
    rw [parseSkips_of_error hskip h] at hrecords
    refine ⟨e.pos, rfl, hrecords, fun hend => ?_⟩
    have hall : (unknowns source).filter (·.pos < e.pos) = unknowns source :=
      List.filter_eq_self.mpr fun y hy => decide_eq_true (hend ▸ pos_lt_of_mem_unknowns hy)
    rw [hrecords, hall]
  · rw [parseRecords_of_ok h, parseSkips_of_reject hreject]
    rfl
  · rw [parseRecords_of_error h hescaped, parseSkips_of_reject hreject]
    rfl
  · rw [parseRecords, h, parseSkips_of_reject hreject]
    rfl

/-- A second number halts the lenient parse between two unknown characters, of which the strict parse
halts at the first. -/
theorem parseRecords_of_two_numbers :
    parseRecords 200 {} "1 $ 2 #" =
        [.skipped ⟨'$', 2⟩, .parseFailed "1 $ 2 #" (.endExpected ⟨.number "2", 4⟩)] ∧
      parseRecords 200 { unknownCharacters := .reject } "1 $ 2 #" =
        [.parseFailed "1 $ 2 #" (.rejected ⟨'$', 2⟩)] := by
  constructor
  · have hlex : tokenize .skip "1 $ 2 #" = .ok [⟨.number "1", 0⟩, ⟨.number "2", 4⟩, ⟨.finish, 7⟩] := by
      decide +kernel
    obtain ⟨-, htokens⟩ := tokenize_eq_ok_iff.mp hlex
    have hfit : NestsWithin 200 ((scan .skip "1 $ 2 #").tokens.map Token.symbol) :=
      htokens ▸ nestsWithin_iff.mpr (by decide)
    have hrun : Pushdown.run {} [⟨.number "1", 0⟩, ⟨.number "2", 4⟩, ⟨.finish, 7⟩] =
        .error ⟨⟨.operator, []⟩, [⟨.number "2", 4⟩, ⟨.finish, 7⟩]⟩ := rfl
    obtain ⟨-, found, us, hrest, -, -, -, hparse⟩ := parse_of_run_error (c := {}) hlex (htokens ▸ hfit) hrun
    obtain rfl := (List.cons.inj hrest).1
    obtain ⟨p, hpos, hrecords, -⟩ := ((parseRecords_spec 200 {} "1 $ 2 #").2.1 rfl hfit).2 _ hparse
    obtain rfl : 4 = p := Int.ofNat.inj (Option.some.inj hpos)
    exact hrecords.trans (by decide +kernel)
  · have htokens : (scan .reject "1 $ 2 #").tokens = [⟨.number "1", 0⟩] := by decide +kernel
    have hmeets : Meets 200 { unknownCharacters := .reject } "1 $ 2 #" ⟨'$', 2⟩ :=
      ⟨by decide +kernel, htokens ▸ ⟨_, rfl⟩, htokens ▸ nestsWithin_iff.mpr (by decide)⟩
    exact ((parseRecords_spec 200 _ "1 $ 2 #").2.2 rfl).2.1 _ (parse_eq_rejected_iff.mpr hmeets)
      (fun _ h => by cases h)

end IntExpr
