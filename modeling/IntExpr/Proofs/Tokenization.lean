import IntExpr.Proofs.Strictness

/-!
# Tokenization — the tokens of a text, told from the text

`Splits i cs ts`: the characters `cs` fall into the lexemes of the tokens `ts` and single characters that
are passed over, and no run of digits is broken.  Every scan that comes to its end splits its text so
(`splits_of_scanFrom`); what a list of tokens says about a text is read off by induction on `Splits`, and
the scan is not opened again.

* `Splits.exists_around`: a token stands where it says, and a number is as long as it can be.
* `Splits.uncovered_iff`: what lies in no lexeme is just what is passed over.
* `rejected_eq_some_iff`: where a scan is cut short.
* `tokenize_spec`: all this together, of whole texts.
-/

namespace IntExpr

variable {policy : UnknownCharacters} {source : String} {i p : Nat} {c x : Char} {cs rest lexeme : List Char}
  {s : Symbol} {k : TokenKind} {t u : Token} {ts : List Token}

/-! ### Characters and kinds -/

def separators : String := " \t\r\"'"

/-- A character that lies in no token: a blank, a quote, or one outside the alphabet. -/
def Passed (x : Char) : Prop := x ∈ separators.toList ∨ x ∉ alphabet.toList

/-- The characters that the tokens of a kind are made of. -/
def TokenKind.Spells : TokenKind → List Char → Prop
  | .op .sum, cs => cs = ['+'] ∨ cs = ['-']
  | .op .product, cs => cs = ['*'] ∨ cs = ['/'] ∨ cs = ['%']
  | .op .power, cs => cs = ['^']
  | .number, cs => Decimal.IsNumeral cs
  | .leftParen, cs => cs = ['(']
  | .rightParen, cs => cs = [')']
  | .newline, cs => cs = ['\n']
  | .finish, cs => cs = []

theorem isSeparator_iff : isSeparator x = true ↔ x ∈ separators.toList := by
  have hlist : separators.toList = [' ', '\t', '\r', '"', '\''] := by decide
  simp [hlist, isSeparator, or_assoc]

theorem spells_of_ofChar? (h : Symbol.ofChar? c = some s) :
    s.lexeme.toList = [c] ∧ s.kind.Spells [c] := by
  unfold Symbol.ofChar? at h
  split at h
  · next hc =>
    obtain rfl := Option.some.inj h
    exact ⟨hc ▸ rfl, hc ▸ rfl⟩
  · split at h
    · next hc =>
      obtain rfl := Option.some.inj h
      exact ⟨hc ▸ rfl, hc ▸ rfl⟩
    · split at h
      · next hc =>
        obtain rfl := Option.some.inj h
        exact ⟨hc ▸ rfl, hc ▸ rfl⟩
      · obtain ⟨o, ho, rfl⟩ := Option.map_eq_some_iff.mp h
        obtain rfl := BinOp.eq_char_of_ofChar? ho
        refine ⟨BinOp.toList_symbol o, ?_⟩
        cases o <;> simp [Symbol.kind, BinOp.level, TokenKind.Spells, BinOp.char]

instance : DecidablePred Passed := fun _ => inferInstanceAs (Decidable (_ ∨ _))

theorem not_passed_of_isDigit (h : x.isDigit = true) : ¬ Passed x := by
  rintro (hsep | hout)
  · exact Bool.eq_false_iff.mp (isSeparator_of_isDigit h) (isSeparator_iff.mpr hsep)
  · exact hout (mem_alphabet_of_isDigit h)

/-- No character of a lexeme is passed over, and the digits are those of numbers. -/
theorem not_passed_of_spells (h : k.Spells cs) (hx : x ∈ cs) :
    ¬ Passed x ∧ (k ≠ .number → x.isDigit = false) := by
  cases k with
  | number => exact ⟨not_passed_of_isDigit (h.2 x hx), fun hk => absurd rfl hk⟩
  | op level =>
    cases level with
    | sum => rcases h with rfl | rfl <;> obtain rfl := List.mem_singleton.mp hx <;> decide
    | product => rcases h with rfl | rfl | rfl <;> obtain rfl := List.mem_singleton.mp hx <;> decide
    | power => obtain rfl : cs = ['^'] := h; obtain rfl := List.mem_singleton.mp hx; decide
  | leftParen => obtain rfl : cs = ['('] := h; obtain rfl := List.mem_singleton.mp hx; decide
  | rightParen => obtain rfl : cs = [')'] := h; obtain rfl := List.mem_singleton.mp hx; decide
  | newline => obtain rfl : cs = ['\n'] := h; obtain rfl := List.mem_singleton.mp hx; decide
  | finish => obtain rfl : cs = [] := h; exact absurd hx List.not_mem_nil

/-! ### How a text is split -/

/-- The characters `cs`, the first of which stands at offset `i`, fall into the lexemes of the tokens
`ts` and characters that are passed over. -/
inductive Splits : Nat → List Char → List Token → Prop
  | finish {i : Nat} : Splits i [] [⟨.finish, i⟩]
  | pass {i : Nat} {c : Char} {cs : List Char} {ts : List Token} :
    Passed c → Splits (i + 1) cs ts → Splits i (c :: cs) ts
  /-- No digit follows a number. -/
  | take {i : Nat} {s : Symbol} {lexeme rest : List Char} {ts : List Token} :
    s.lexeme.toList = lexeme → s.kind.Spells lexeme → s ≠ .finish →
    (s.kind = .number → ∀ d, rest.head? = some d → d.isDigit = false) →
    Splits (i + lexeme.length) rest ts → Splits i (lexeme ++ rest) (⟨s, i⟩ :: ts)

theorem splits_of_scanFrom (h : (scanFrom policy i cs).rejected = none) :
    Splits i cs (scanFrom policy i cs).tokens := by
  fun_induction scanFrom policy i cs with
  | case1 i => exact .finish
  | case2 i c cs hsep ih => exact .pass (.inl (isSeparator_iff.mp hsep)) (ih h)
  | case3 i c cs hsep hdigit more ih =>
    have hspells : TokenKind.Spells .number (c :: more) :=
      ⟨List.cons_ne_nil c more, List.forall_mem_cons.mpr ⟨hdigit, List.all_eq_true.mp List.all_takeWhile⟩⟩
    have hnext : ∀ d, (cs.dropWhile Char.isDigit).head? = some d → d.isDigit = false := by
      intro d hd
      have hnot := List.head?_dropWhile_not Char.isDigit cs
      rw [hd] at hnot
      exact hnot
    have hlength : i + 1 + more.length = i + (c :: more).length := by
      rw [List.length_cons]
      omega
    have hfinish : Symbol.number (String.ofList (c :: more)) ≠ .finish := Symbol.noConfusion
    have hsplits := Splits.take (i := i) (s := .number (String.ofList (c :: more))) String.toList_ofList
      hspells hfinish (fun _ => hnext) (hlength ▸ ih h)
    have hcs : c :: more ++ cs.dropWhile Char.isDigit = c :: cs :=
      congrArg (c :: ·) List.takeWhile_append_dropWhile
    rw [hcs, ← hlength] at hsplits
    exact hsplits
  | case4 i c cs hsep hdigit s hs ih =>
    obtain ⟨hlexeme, hspells⟩ := spells_of_ofChar? hs
    show Splits i ([c] ++ cs) _
    refine .take hlexeme hspells ?_ ?_ (ih h)
    · rintro rfl
      exact Symbol.ofChar?_ne_finish hs
    · intro hnumber
      rw [hnumber] at hspells
      exact absurd (hspells.2 c (List.mem_singleton.mpr rfl)) hdigit
  | case5 i c cs hsep hdigit hs hpolicy ih =>
    subst hpolicy
    have hout : inAlphabet c = false := not_inAlphabet hsep hdigit hs
    refine .pass (.inr fun hmem => ?_) (ih h)
    rw [inAlphabet_iff.mpr hmem] at hout
    cases hout
  | case6 i c cs hsep hdigit hs hpolicy => cases h

theorem Splits.spells (h : Splits i cs ts) (ht : t ∈ ts) : t.kind.Spells t.lexeme.toList := by
  induction h with
  | finish =>
    obtain rfl := List.mem_singleton.mp ht
    rfl
  | pass _ _ ih => exact ih ht
  | take hlexeme hspells _ _ _ ih =>
    rcases List.mem_cons.mp ht with rfl | ht
    · exact hlexeme ▸ hspells
    · exact ih ht

theorem Splits.le_pos (h : Splits i cs ts) (ht : t ∈ ts) : i ≤ t.pos := by
  induction h with
  | finish =>
    obtain rfl := List.mem_singleton.mp ht
    exact Nat.le_refl _
  | pass _ _ ih => exact Nat.le_of_succ_le (ih ht)
  | take _ _ _ _ _ ih =>
    rcases List.mem_cons.mp ht with rfl | ht
    · exact Nat.le_refl _
    · exact Nat.le_of_add_right_le (ih ht)

theorem Splits.pairwise (h : Splits i cs ts) :
    ts.Pairwise fun t u => t.pos + t.lexeme.length ≤ u.pos := by
  induction h with
  | finish => exact List.pairwise_singleton _ _
  | pass _ _ ih => exact ih
  | take hlexeme _ _ _ hrest ih =>
    refine List.pairwise_cons.mpr ⟨fun u hu => ?_, ih⟩
    have hle := hrest.le_pos hu
    rw [← hlexeme, String.length_toList] at hle
    exact hle

theorem lexeme_ne_nil (h : s.kind.Spells cs) (hs : s ≠ .finish) : cs ≠ [] := by
  cases s with
  | number digits => exact h.1
  | op o => cases o <;> (rintro rfl; simp [Symbol.kind, BinOp.level, TokenKind.Spells] at h)
  | leftParen | rightParen | newline => rintro rfl; cases h
  | finish => exact absurd rfl hs

/-! ### Where tokens stand -/

/-- No digit stands last in what comes before a number. -/
theorem not_digit_before_number {post : List Char} (h : k.Spells lexeme)
    (hend : k = .number → ∀ d, rest.head? = some d → d.isDigit = false) (hnumber : Decimal.IsNumeral cs)
    (hrest : rest = cs ++ post) (hx : lexeme.getLast? = some x) : x.isDigit = false := by
  by_cases hk : k = .number
  · -- two numbers do not touch
    obtain ⟨hne, hdigits⟩ := hnumber
    obtain ⟨d, ds, rfl⟩ := List.exists_cons_of_ne_nil hne
    have hd := hend hk d (by rw [hrest]; rfl)
    exact absurd (hdigits d List.mem_cons_self) (Bool.eq_false_iff.mp hd)
  · exact (not_passed_of_spells h (List.mem_of_getLast? hx)).2 hk

/-- The characters in front of a token and after it: its lexeme stands between them, and if it is a
number, no digit stands beside it. -/
theorem Splits.exists_around (h : Splits i cs ts) (ht : t ∈ ts) :
    ∃ pre post, cs = pre ++ t.lexeme.toList ++ post ∧ t.pos = i + pre.length ∧
      (t.kind = .number → (∀ d, pre.getLast? = some d → d.isDigit = false) ∧
        ∀ d, post.head? = some d → d.isDigit = false) := by
  induction h with
  | finish =>
    obtain rfl := List.mem_singleton.mp ht
    exact ⟨[], [], rfl, rfl, nofun⟩
  | @pass i c cs ts hc _ ih =>
    obtain ⟨pre, post, rfl, hpos, hnumber⟩ := ih ht
    refine ⟨c :: pre, post, rfl, ?_, fun hk => ⟨fun d hd => ?_, (hnumber hk).2⟩⟩
    · rw [hpos, List.length_cons]
      omega
    · cases pre with
      | nil =>
        obtain rfl : c = d := Option.some.inj hd
        exact Bool.eq_false_iff.mpr fun hdigit => not_passed_of_isDigit hdigit hc
      | cons y pre => exact (hnumber hk).1 d hd
  | @take i s lexeme rest ts hlexeme hspells _ hend hrest ih =>
    rcases List.mem_cons.mp ht with rfl | ht
    · refine ⟨[], rest, by rw [← hlexeme]; rfl, rfl, fun hk => ⟨nofun, hend hk⟩⟩
    · obtain ⟨pre, post, hsplit, hpos, hnumber⟩ := ih ht
      refine ⟨lexeme ++ pre, post, ?_, ?_, fun hk => ⟨fun d hd => ?_, (hnumber hk).2⟩⟩
      · rw [hsplit]
        simp only [List.append_assoc]
      · rw [hpos, List.length_append]
        omega
      · rw [List.getLast?_append] at hd
        cases hpre : pre.getLast? with
        | some y =>
          rw [hpre] at hd
          exact (hnumber hk).1 d (hpre.trans hd)
        | none =>
          rw [hpre] at hd
          obtain rfl := List.getLast?_eq_none_iff.mp hpre
          have hnumeral := hrest.spells ht
          rw [hk] at hnumeral
          exact not_digit_before_number hspells hend hnumeral hsplit hd

def Token.Covers (t : Token) (p : Nat) : Prop := t.pos ≤ p ∧ p < t.pos + t.lexeme.length

/-- What lies in no lexeme is just what is passed over. -/
theorem Splits.uncovered_iff (h : Splits i cs ts) (hget : cs[p]? = some x) :
    (∀ t ∈ ts, ¬ t.Covers (i + p)) ↔ Passed x := by
  induction h generalizing p with
  | finish => exact nomatch hget
  | @pass i c cs ts hc hrest ih =>
    cases p with
    | zero =>
      obtain rfl : c = x := Option.some.inj hget
      refine ⟨fun _ => hc, fun _ t ht hcover => ?_⟩
      have hle := hrest.le_pos ht
      have hpos := hcover.1
      omega
    | succ p =>
      rw [← ih hget, Nat.add_right_comm, Nat.add_assoc i p 1]
  | @take i s lexeme rest ts hlexeme hspells _ _ hrest ih =>
    have hhead : Token.Covers ⟨s, i⟩ (i + p) ↔ p < lexeme.length := by
      have hlength : (Token.lexeme ⟨s, i⟩).length = lexeme.length := by
        rw [← hlexeme, String.length_toList]
        rfl
      rw [Token.Covers, hlength]
      dsimp only
      omega
    rw [List.forall_mem_cons, hhead]
    by_cases hp : p < lexeme.length
    · rw [List.getElem?_append_left hp] at hget
      have hx := (not_passed_of_spells hspells (List.mem_of_getElem? hget)).1
      exact ⟨fun hnot => absurd hp hnot.1, fun hpassed => absurd hpassed hx⟩
    · rw [Nat.not_lt] at hp
      rw [List.getElem?_append_right hp] at hget
      rw [← ih hget, Nat.add_assoc, Nat.add_sub_cancel' hp]
      exact and_iff_right (Nat.not_lt.mpr hp)

/-! ### Where a scan is cut short -/

theorem exists_first_unknown (h : x ∈ cs) (hx : inAlphabet x = false) :
    ∃ p y, cs[p]? = some y ∧ inAlphabet y = false ∧ ∀ z ∈ cs.take p, inAlphabet z = true := by
  have hsplit : cs.takeWhile inAlphabet ++ cs.dropWhile inAlphabet = cs := List.takeWhile_append_dropWhile
  have hall : ∀ z ∈ cs.takeWhile inAlphabet, inAlphabet z = true := List.all_eq_true.mp List.all_takeWhile
  have hhead := List.head?_dropWhile_not inAlphabet cs
  cases hrest : cs.dropWhile inAlphabet with
  | nil => exact absurd (List.dropWhile_eq_nil_iff.mp hrest x h) (Bool.eq_false_iff.mp hx)
  | cons y ys =>
    rw [hrest] at hsplit hhead
    generalize cs.takeWhile inAlphabet = pre at hsplit hall
    subst hsplit
    refine ⟨pre.length, y, ?_, hhead, ?_⟩
    · rw [List.getElem?_append_right (Nat.le_refl _), Nat.sub_self, List.getElem?_cons_zero]
    · rw [List.take_left]
      exact hall

/-- A scan is cut short by the first character outside the alphabet, and only where such characters are
not let past. -/
theorem rejected_eq_some_iff : (scan policy source).rejected = some ⟨x, p⟩ ↔
    policy = .reject ∧ source.toList[p]? = some x ∧ inAlphabet x = false ∧
      ∀ y ∈ source.toList.take p, inAlphabet y = true := by
  constructor
  · intro h
    have hlenient : (scan .skip source).rejected = none := rejected_of_skip rfl
    cases policy with
    | skip =>
      rw [hlenient] at h
      cases h
    | reject =>
      by_cases hall : ∀ y ∈ source.toList, inAlphabet y = true
      · have hsame : scan .reject source = scan .skip source := scanFrom_eq_of_inAlphabet hall
        rw [hsame, hlenient] at h
        cases h
      · simp only [not_forall, Bool.not_eq_true] at hall
        obtain ⟨y, hy, hout⟩ := hall
        obtain ⟨q, z, hget, hz, hpre⟩ := exists_first_unknown hy hout
        obtain ⟨-, -, -, hrejected, -⟩ := tokens_of_unknown hget hz hpre
        obtain ⟨rfl, rfl⟩ := Located.mk.inj (Option.some.inj (hrejected.symm.trans h))
        exact ⟨rfl, hget, hz, hpre⟩
  · rintro ⟨rfl, hget, hx, hpre⟩
    obtain ⟨-, -, -, hrejected, -⟩ := tokens_of_unknown hget hx hpre
    exact hrejected

theorem finish_not_mem_of_rejected {found : Located} (h : (scan policy source).rejected = some found) :
    .finish ∉ (scan policy source).tokens.map Token.symbol := by
  obtain ⟨rfl, hget, hx, hpre⟩ := rejected_eq_some_iff.mp h
  obtain ⟨early, -, rfl, -, -, hearly, -⟩ := tokens_of_unknown hget hx hpre
  intro hmem
  obtain ⟨t, ht, hfinish⟩ := List.mem_map.mp hmem
  exact (hearly t ht).1 hfinish

/-- The character that cuts a scan short stands after every token. -/
theorem pos_lt_of_rejected {found : Located} (h : (scan policy source).rejected = some found)
    (ht : t ∈ (scan policy source).tokens) : t.pos < found.pos := by
  obtain ⟨rfl, hget, hx, hpre⟩ := rejected_eq_some_iff.mp h
  obtain ⟨early, -, rfl, -, -, hearly, -⟩ := tokens_of_unknown hget hx hpre
  exact (hearly t ht).2

/-! ### Whole texts -/

/-- `ts` are the tokens of the text `source`, each told from the text alone. -/
structure TokensOf (source : String) (ts : List Token) : Prop where
  /-- The end of the text comes last, and nowhere else. -/
  finish : ∃ init, ts = init ++ [⟨.finish, source.length⟩] ∧ .finish ∉ init.map Token.symbol
  /-- Offsets rise, and no token begins before the one in front of it ends. -/
  order : ts.Pairwise fun t u => t.pos < u.pos ∧ t.pos + t.lexeme.length ≤ u.pos
  lexeme : ∀ t ∈ ts, (source.toList.drop t.pos).take t.lexeme.length = t.lexeme.toList ∧
    (t.symbol ≠ .finish → t.lexeme ≠ "")
  kind : ∀ t ∈ ts, t.kind.Spells t.lexeme.toList
  /-- No digit stands beside a number. -/
  maximal : ∀ t ∈ ts, t.kind = .number → ∀ p d, source.toList[p]? = some d →
    p + 1 = t.pos ∨ p = t.pos + t.lexeme.length → d.isDigit = false
  /-- A character lies in no lexeme if it is a blank, a quote or outside the alphabet, and only then. -/
  uncovered : ∀ p x, source.toList[p]? = some x →
    ((∀ t ∈ ts, ¬ t.Covers p) ↔ x ∈ separators.toList ∨ x ∉ alphabet.toList)

theorem tokensOf_of_splits (h : Splits 0 source.toList ts)
    (hfinish : ∃ init, ts = init ++ [⟨.finish, source.length⟩] ∧ .finish ∉ init.map Token.symbol)
    (horder : ts.Pairwise fun t u => t.pos < u.pos) : TokensOf source ts where
  finish := hfinish
  order := horder.and h.pairwise
  kind t ht := h.spells ht
  lexeme t ht := by
    obtain ⟨pre, post, hsplit, hpos, -⟩ := h.exists_around ht
    rw [Nat.zero_add] at hpos
    refine ⟨?_, fun hs hempty => lexeme_ne_nil (h.spells ht) hs ?_⟩
    · rw [hsplit, hpos, List.append_assoc, List.drop_left, ← String.length_toList, List.take_left]
    · rw [hempty, String.toList_empty]
  maximal t ht hk p d hget hbeside := by
    obtain ⟨pre, post, hsplit, hpos, hnumber⟩ := h.exists_around ht
    obtain ⟨hbefore, hafter⟩ := hnumber hk
    rw [Nat.zero_add] at hpos
    rcases hbeside with hp | hp
    · refine hbefore d ?_
      rw [List.getLast?_eq_getElem?, ← hpos, ← hp, Nat.add_sub_cancel, ← hget, hsplit, List.append_assoc,
        List.getElem?_append_left (by omega)]
    · refine hafter d ?_
      rw [List.head?_eq_getElem?, ← hget, hsplit, List.getElem?_append_right]
      · rw [List.length_append, String.length_toList, hp, hpos, Nat.sub_self]
      · rw [List.length_append, String.length_toList, hp, hpos]
  uncovered p x hget := by
    have hiff := h.uncovered_iff hget
    rw [Nat.zero_add] at hiff
    exact hiff

/-- **What a text is cut into.**  A text has its tokens, or the first character outside the alphabet is
reported; the latter if and only if there is one and it is not let past. -/
theorem tokenize_spec (policy : UnknownCharacters) (source : String) :
    (∀ ts, tokenize policy source = .ok ts → TokensOf source ts) ∧
      ((∃ found, tokenize policy source = .error found) ↔
        policy = .reject ∧ ∃ x ∈ source.toList, x ∉ alphabet.toList) ∧
      ∀ found, tokenize policy source = .error found →
        source.toList[found.pos]? = some found.char ∧ found.char ∉ alphabet.toList ∧
        (∀ y ∈ source.toList.take found.pos, y ∈ alphabet.toList) ∧
        (found.diagnostic source).kind = .token ∧ (found.diagnostic source).pos = some (found.pos : Int) := by
  have hout : ∀ {y : Char}, y ∉ alphabet.toList ↔ inAlphabet y = false := fun {y} => by
    rw [← inAlphabet_iff, Bool.not_eq_true]
  refine ⟨fun ts h => ?_, ?_, fun found h => ?_⟩
  · obtain ⟨hrejected, htokens⟩ := tokenize_eq_ok_iff.mp h
    refine tokensOf_of_splits ?_ (tokens_of_tokenize h) (htokens ▸ pairwise_pos_of_scanFrom)
    exact htokens ▸ splits_of_scanFrom hrejected
  · constructor
    · rintro ⟨found, h⟩
      obtain ⟨rfl, hget, hx, -⟩ := rejected_eq_some_iff.mp (tokenize_eq_error_iff.mp h)
      exact ⟨rfl, found.char, List.mem_of_getElem? hget, hout.mpr hx⟩
    · rintro ⟨rfl, x, hmem, hx⟩
      obtain ⟨p, y, hget, hy, hpre⟩ := exists_first_unknown hmem (hout.mp hx)
      exact ⟨⟨y, p⟩, tokenize_eq_error_iff.mpr (rejected_eq_some_iff.mpr ⟨rfl, hget, hy, hpre⟩)⟩
  · obtain ⟨-, hget, hx, hpre⟩ := rejected_eq_some_iff.mp (tokenize_eq_error_iff.mp h)
    exact ⟨hget, hout.mpr hx, fun y hy => inAlphabet_iff.mp (hpre y hy), rfl, rfl⟩

end IntExpr
