import IntExpr.Decimal
import IntExpr.Proofs.Lookahead
import Mathlib.Data.List.TakeWhile

/-!
# Lexing — what a scan does to a text

* `tokens_of_tokenize`: the tokens of a text are other tokens and then the end, once.
* `newline_before_of_scanFrom`: of the newlines in front of a token none is passed without a token.
* `pairwise_pos_of_scanFrom`: tokens stand in the order of their offsets.
* `scanFrom_append`: two texts that share no run of digits are scanned one after the other.
* `Lexes`: a text with given symbols, whatever the policy and wherever it stands.
-/

namespace IntExpr

variable {policy : UnknownCharacters} {source : String} {i : Nat} {c : Char} {cs ds : List Char}
  {t : Token} {ts pre post : List Token}

/-! ### The symbols of characters -/

theorem isSeparator_of_isDigit (h : c.isDigit = true) : isSeparator c = false := by
  refine Bool.eq_false_iff.mpr fun hsep => ?_
  simp only [isSeparator, Bool.or_eq_true, decide_eq_true_eq] at hsep
  rcases hsep with (((rfl | rfl) | rfl) | rfl) | rfl <;> exact absurd h (by decide)

theorem not_inAlphabet (hsep : ¬ isSeparator c = true) (hdigit : ¬ c.isDigit = true)
    (hs : Symbol.ofChar? c = none) : inAlphabet c = false := by
  simp [inAlphabet, hsep, hdigit, hs]

/-- The end of a text, seen from after its first run of digits. -/
theorem end_after_digits (i : Nat) (c : Char) (cs : List Char) :
    i + 1 + (cs.takeWhile Char.isDigit).length + (cs.dropWhile Char.isDigit).length =
      i + (c :: cs).length := by
  have hlength := congrArg List.length (List.takeWhile_append_dropWhile (p := Char.isDigit) (l := cs))
  rw [List.length_append] at hlength
  rw [List.length_cons]
  omega

theorem end_after_one (i : Nat) (c : Char) (cs : List Char) : i + 1 + cs.length = i + (c :: cs).length := by
  rw [List.length_cons]
  omega

/-! ### The end -/

theorem tokenize_eq_ok_iff : tokenize policy source = .ok ts ↔
    (scan policy source).rejected = none ∧ (scan policy source).tokens = ts := by
  rw [tokenize_eq]
  cases (scan policy source).rejected with
  | none => simp
  | some c => simp

theorem tokenize_eq_error_iff {found : Located} :
    tokenize policy source = .error found ↔ (scan policy source).rejected = some found := by
  rw [tokenize_eq]
  cases (scan policy source).rejected with
  | none => simp
  | some c => simp

/-- A lenient scan comes to the end of its text. -/
theorem rejected_of_skip (h : policy = .skip) : (scanFrom policy i cs).rejected = none := by
  fun_induction scanFrom policy i cs with
  | case1 i => rfl
  | case2 i c cs hsep ih => exact ih
  | case3 i c cs hsep hdigit more ih => exact ih
  | case4 i c cs hsep hdigit s hs ih => exact ih
  | case5 i c cs hsep hdigit hs hpolicy ih =>
    subst hpolicy
    exact ih
  | case6 i c cs hsep hdigit hs hpolicy => cases hpolicy.symm.trans h

/-- A scan that is not cut short ends with the end of the text, and meets it nowhere else. -/
theorem items_of_scanFrom (h : (scanFrom policy i cs).rejected = none) :
    ∃ init, (scanFrom policy i cs).items = init ++ [.token ⟨.finish, i + cs.length⟩] ∧
      .finish ∉ (init.filterMap ScanItem.token?).map Token.symbol := by
  fun_induction scanFrom policy i cs with
  | case1 i => exact ⟨[], rfl, List.not_mem_nil⟩
  | case2 i c cs hsep ih =>
    obtain ⟨init, hitems, hinit⟩ := ih h
    refine ⟨init, ?_, hinit⟩
    rw [hitems, end_after_one]
  | case3 i c cs hsep hdigit more ih =>
    obtain ⟨init, hitems, hinit⟩ := ih h
    refine ⟨.token ⟨.number (String.ofList (c :: more)), i⟩ :: init, ?_, ?_⟩
    · rw [← end_after_digits, List.cons_append, ← hitems]
      rfl
    · simpa [ScanItem.token?] using hinit
  | case4 i c cs hsep hdigit s hs ih =>
    obtain ⟨init, hitems, hinit⟩ := ih h
    refine ⟨.token ⟨s, i⟩ :: init, ?_, ?_⟩
    · rw [← end_after_one, List.cons_append, ← hitems]
      rfl
    · have hne : .finish ≠ s := fun hfin => Symbol.ofChar?_ne_finish (hfin ▸ hs)
      simpa [ScanItem.token?, hne] using hinit
  | case5 i c cs hsep hdigit hs hpolicy ih =>
    subst hpolicy
    obtain ⟨init, hitems, hinit⟩ := ih h
    refine ⟨.skipped ⟨c, i⟩ :: init, ?_, hinit⟩
    rw [← end_after_one, List.cons_append, ← hitems]
    rfl
  | case6 i c cs hsep hdigit hs hpolicy => exact nomatch h

theorem tokens_of_scanFrom (h : (scanFrom policy i cs).rejected = none) :
    ∃ init, (scanFrom policy i cs).tokens = init ++ [⟨.finish, i + cs.length⟩] ∧
      .finish ∉ init.map Token.symbol := by
  obtain ⟨init, hitems, hinit⟩ := items_of_scanFrom h
  refine ⟨init.filterMap ScanItem.token?, ?_, hinit⟩
  rw [Scan.tokens, hitems, List.filterMap_append]
  rfl

theorem tokens_of_tokenize (h : tokenize policy source = .ok ts) :
    ∃ init, ts = init ++ [⟨.finish, source.length⟩] ∧ .finish ∉ init.map Token.symbol := by
  obtain ⟨hrejected, rfl⟩ := tokenize_eq_ok_iff.mp h
  obtain ⟨init, htokens, hinit⟩ := tokens_of_scanFrom hrejected
  refine ⟨init, htokens.trans ?_, hinit⟩
  rw [Nat.zero_add, String.length_toList]

/-- The end of a text stands where the text ends. -/
theorem pos_of_finish (h : tokenize policy source = .ok ts) (hmem : t ∈ ts)
    (hfinish : t.symbol = .finish) : t.pos = source.length := by
  obtain ⟨init, rfl, hinit⟩ := tokens_of_tokenize h
  rcases List.mem_append.mp hmem with hmem | hmem
  · exact absurd (hfinish ▸ List.mem_map_of_mem hmem) hinit
  · rw [List.mem_singleton.mp hmem]

/-! ### Newlines -/

theorem tokens_ne_append_nil : ([] : List Token) ≠ pre ++ t :: post :=
  (List.append_ne_nil_of_right_ne_nil pre (List.cons_ne_nil t post)).symm

/-- A newline in front of a token is itself a token before it. -/
theorem newline_before_of_scanFrom (h : (scanFrom policy i cs).tokens = pre ++ t :: post) :
    ∃ k, t.pos = i + k ∧ k ≤ cs.length ∧ ('\n' ∈ cs.take k → .newline ∈ pre.map Token.symbol) := by
  fun_induction scanFrom policy i cs generalizing pre with
  | case1 i =>
    rcases List.cons_eq_append_iff.mp h with ⟨rfl, ht⟩ | ⟨us, rfl, hus⟩
    · obtain rfl := (List.cons.inj ht).1
      exact ⟨0, rfl, Nat.le_refl 0, nofun⟩
    · exact absurd hus tokens_ne_append_nil
  | case2 i c cs hsep ih =>
    obtain ⟨k, hpos, hk, hnew⟩ := ih h
    refine ⟨k + 1, by omega, Nat.succ_le_succ hk, fun hmem => ?_⟩
    rcases List.mem_cons.mp hmem with rfl | hmem
    · exact absurd hsep (by decide)
    · exact hnew hmem
  | case3 i c cs hsep hdigit more =>
    rename_i ih
    rw [Scan.tokens_cons_token] at h
    rcases List.cons_eq_append_iff.mp h with ⟨rfl, ht⟩ | ⟨us, rfl, hus⟩
    · obtain rfl := (List.cons.inj ht).1
      exact ⟨0, rfl, Nat.zero_le _, nofun⟩
    · -- a run of digits is taken whole: `k` counts from its end
      obtain ⟨k, hpos, hk, hnew⟩ := ih hus
      have hsplit : more ++ cs.dropWhile Char.isDigit = cs := List.takeWhile_append_dropWhile
      have hlength := congrArg List.length hsplit
      rw [List.length_append] at hlength
      refine ⟨more.length + k + 1, by omega, by rw [List.length_cons]; omega, fun hmem => ?_⟩
      rw [List.take_succ_cons, ← hsplit, List.take_length_add_append, List.mem_cons,
        List.mem_append] at hmem
      rcases hmem with rfl | hmem | hmem
      · exact absurd hdigit (by decide)
      · exact absurd (List.all_eq_true.mp List.all_takeWhile _ hmem) (by decide)
      · exact List.mem_cons_of_mem _ (hnew hmem)
  | case4 i c cs hsep hdigit s hs ih =>
    rw [Scan.tokens_cons_token] at h
    rcases List.cons_eq_append_iff.mp h with ⟨rfl, ht⟩ | ⟨us, rfl, hus⟩
    · obtain rfl := (List.cons.inj ht).1
      exact ⟨0, rfl, Nat.zero_le _, nofun⟩
    · obtain ⟨k, hpos, hk, hnew⟩ := ih hus
      refine ⟨k + 1, by omega, Nat.succ_le_succ hk, fun hmem => ?_⟩
      rcases List.mem_cons.mp hmem with rfl | hmem
      · obtain rfl : Symbol.newline = s := Option.some.inj hs
        exact List.mem_cons_self
      · exact List.mem_cons_of_mem _ (hnew hmem)
  | case5 i c cs hsep hdigit hs hpolicy ih =>
    subst hpolicy
    rw [Scan.tokens_cons_skipped] at h
    obtain ⟨k, hpos, hk, hnew⟩ := ih h
    refine ⟨k + 1, by omega, Nat.succ_le_succ hk, fun hmem => ?_⟩
    rcases List.mem_cons.mp hmem with rfl | hmem
    · exact nomatch hs
    · exact hnew hmem
  | case6 i c cs hsep hdigit hs hpolicy => exact absurd h tokens_ne_append_nil

/-! ### Offsets -/

theorem le_pos_of_mem_scanFrom (h : t ∈ (scanFrom policy i cs).tokens) : i ≤ t.pos := by
  obtain ⟨pre, post, hsplit⟩ := List.append_of_mem h
  obtain ⟨k, hpos, -, -⟩ := newline_before_of_scanFrom hsplit
  omega

/-- Tokens stand in the order of their offsets. -/
theorem pairwise_pos_of_scanFrom :
    (scanFrom policy i cs).tokens.Pairwise fun t u => t.pos < u.pos := by
  fun_induction scanFrom policy i cs with
  | case1 i => exact List.pairwise_singleton _ _
  | case2 i c cs hsep ih => exact ih
  | case3 i c cs hsep hdigit more ih =>
    rw [Scan.tokens_cons_token]
    refine List.pairwise_cons.mpr ⟨fun u hu => ?_, ih⟩
    have hle := le_pos_of_mem_scanFrom hu
    show i < u.pos
    omega
  | case4 i c cs hsep hdigit s hs ih =>
    rw [Scan.tokens_cons_token]
    exact List.pairwise_cons.mpr ⟨fun u hu => le_pos_of_mem_scanFrom hu, ih⟩
  | case5 i c cs hsep hdigit hs hpolicy ih =>
    subst hpolicy
    rw [Scan.tokens_cons_skipped]
    exact ih
  | case6 i c cs hsep hdigit hs hpolicy => exact .nil

/-! ### One text after another -/

/-- Not both does `cs` end and `ds` begin with a digit. -/
def Apart (cs ds : List Char) : Prop :=
  ∀ c d, cs.getLast? = some c → ds.head? = some d → c.isDigit = true → d.isDigit = false

theorem Apart.tail (h : Apart (c :: cs) ds) : Apart cs ds := by
  intro x d hx
  refine h x d ?_
  cases cs with
  | nil => exact nomatch hx
  | cons y cs => exact hx

/-- Nothing of `ds` belongs to a run of digits at the end of `cs`. -/
theorem Apart.takeWhile_append (h : Apart (c :: cs) ds) (hc : c.isDigit = true) :
    (cs ++ ds).takeWhile Char.isDigit = cs.takeWhile Char.isDigit ∧
      (cs ++ ds).dropWhile Char.isDigit = cs.dropWhile Char.isDigit ++ ds ∧
      Apart (cs.dropWhile Char.isDigit) ds := by
  induction cs generalizing c with
  | nil =>
    cases ds with
    | nil => exact ⟨rfl, rfl, nofun⟩
    | cons d ds =>
      have hd : d.isDigit = false := h c d rfl rfl hc
      refine ⟨?_, ?_, nofun⟩
      · exact List.takeWhile_cons_of_neg (by simp [hd])
      · exact List.dropWhile_cons_of_neg (by simp [hd])
  | cons x cs ih =>
    by_cases hx : x.isDigit = true
    · obtain ⟨htake, hdrop, hapart⟩ := ih h.tail hx
      rw [List.cons_append, List.takeWhile_cons_of_pos hx, List.takeWhile_cons_of_pos hx,
        List.dropWhile_cons_of_pos hx, List.dropWhile_cons_of_pos hx, htake, hdrop]
      exact ⟨rfl, rfl, hapart⟩
    · rw [List.cons_append, List.takeWhile_cons_of_neg hx, List.takeWhile_cons_of_neg hx,
        List.dropWhile_cons_of_neg hx, List.dropWhile_cons_of_neg hx]
      exact ⟨rfl, rfl, h.tail⟩

/-- A scan that goes on with another one at the end of its text. -/
def Scan.followedBy (s s' : Scan) : Scan :=
  match s.rejected with
  | some _ => s
  | none => ⟨s.items.dropLast ++ s'.items, s'.rejected⟩

theorem items_ne_nil_of_scanFrom (h : (scanFrom policy i cs).rejected = none) :
    (scanFrom policy i cs).items ≠ [] := by
  obtain ⟨init, hitems, -⟩ := items_of_scanFrom h
  rw [hitems]
  exact List.append_ne_nil_of_right_ne_nil init (List.cons_ne_nil _ [])

theorem cons_followedBy (item : ScanItem) (s' : Scan) :
    ((scanFrom policy i cs).cons item).followedBy s' =
      ((scanFrom policy i cs).followedBy s').cons item := by
  unfold Scan.followedBy
  rw [Scan.rejected_cons]
  cases hr : (scanFrom policy i cs).rejected with
  | some c => rfl
  | none =>
    simp only [Scan.cons, List.dropLast_cons_of_ne_nil (items_ne_nil_of_scanFrom hr),
      List.cons_append]

/-- **Two texts apart from each other are scanned one after the other.** -/
theorem scanFrom_append (h : Apart cs ds) : scanFrom policy i (cs ++ ds) =
    (scanFrom policy i cs).followedBy (scanFrom policy (i + cs.length) ds) := by
  fun_induction scanFrom policy i cs with
  | case1 i => rfl
  | case2 i c cs hsep ih =>
    rw [List.cons_append, scanFrom_separator hsep, ih h.tail, end_after_one]
  | case3 i c cs hsep hdigit more ih =>
    obtain ⟨htake, hdrop, hapart⟩ := h.takeWhile_append hdigit
    rw [List.cons_append, scanFrom_digit hdigit (Bool.not_eq_true _ ▸ hsep), htake, hdrop, ih hapart,
      cons_followedBy, end_after_digits]
  | case4 i c cs hsep hdigit s hs ih =>
    rw [List.cons_append, scanFrom_symbol hs (Bool.not_eq_true _ ▸ hsep) (Bool.not_eq_true _ ▸ hdigit),
      ih h.tail, cons_followedBy, end_after_one]
  | case5 i c cs hsep hdigit hs hpolicy ih =>
    subst hpolicy
    rw [List.cons_append, scanFrom_skip (not_inAlphabet hsep hdigit hs), ih h.tail, cons_followedBy,
      end_after_one]
  | case6 i c cs hsep hdigit hs hpolicy =>
    subst hpolicy
    rw [List.cons_append, scanFrom_reject (not_inAlphabet hsep hdigit hs)]
    rfl

/-! ### Texts of given symbols -/

/-- Wherever the text `cs` stands, and whatever the policy, it has the symbols `ss`. -/
def Lexes (cs : List Char) (ss : List Symbol) : Prop :=
  ∀ policy i, (scanFrom policy i cs).rejected = none ∧
    (scanFrom policy i cs).tokens.map Token.symbol = ss ++ [.finish]

namespace Lexes

variable {ss us : List Symbol}

theorem unique (h : Lexes cs ss) (h' : Lexes cs us) : ss = us := by
  have hss := (h .skip 0).2
  have hus := (h' .skip 0).2
  exact List.append_cancel_right (hss.symm.trans hus)

theorem append (h : Lexes cs ss) (h' : Lexes ds us) (hapart : Apart cs ds) :
    Lexes (cs ++ ds) (ss ++ us) := by
  intro policy i
  obtain ⟨hr, hss⟩ := h policy i
  obtain ⟨hr', hus⟩ := h' policy (i + cs.length)
  obtain ⟨init, hitems, -⟩ := items_of_scanFrom hr
  have hscan : scanFrom policy i (cs ++ ds) =
      ⟨init ++ (scanFrom policy (i + cs.length) ds).items, none⟩ := by
    rw [scanFrom_append hapart, Scan.followedBy, hr, hitems, List.dropLast_concat, hr']
  refine ⟨by rw [hscan], ?_⟩
  rw [Scan.tokens, hitems, List.filterMap_append, List.map_append] at hss
  have hinit : (init.filterMap ScanItem.token?).map Token.symbol = ss := (List.append_inj_left' hss rfl)
  rw [Scan.tokens, hscan, List.filterMap_append, List.map_append, hinit, ← Scan.tokens, hus,
    List.append_assoc]

theorem nil : Lexes [] [] := fun policy i => by simp [scanFrom_nil, Scan.tokens, ScanItem.token?]

theorem separator (hsep : isSeparator c = true) : Lexes [c] [] := by
  intro policy i
  rw [scanFrom_separator hsep]
  exact nil policy (i + 1)

theorem symbol {s : Symbol} (hs : Symbol.ofChar? c = some s) (hsep : isSeparator c = false)
    (hdigit : c.isDigit = false) : Lexes [c] [s] := by
  intro policy i
  rw [scanFrom_symbol hs hsep hdigit]
  obtain ⟨hr, hss⟩ := nil policy (i + 1)
  refine ⟨hr, ?_⟩
  rw [Scan.tokens_cons_token, List.map_cons, hss]
  rfl

theorem number {digits : String} (h : Decimal.IsNumeral digits.toList) :
    Lexes digits.toList [.number digits] := by
  intro policy i
  obtain ⟨hne, hall⟩ := h
  obtain ⟨c, more, hcs⟩ := List.exists_cons_of_ne_nil hne
  rw [hcs, List.forall_mem_cons] at hall
  have htake : more.takeWhile Char.isDigit = more := List.takeWhile_eq_self_iff.mpr hall.2
  have hdrop : more.dropWhile Char.isDigit = [] := List.dropWhile_eq_nil_iff.mpr hall.2
  have hdigits : String.ofList (c :: more) = digits := by rw [← hcs, String.ofList_toList]
  rw [hcs, scanFrom_digit hall.1 (isSeparator_of_isDigit hall.1), htake, hdrop, hdigits]
  obtain ⟨hr, hss⟩ := nil policy (i + 1 + more.length)
  refine ⟨hr, ?_⟩
  rw [Scan.tokens_cons_token, List.map_cons, hss]
  rfl

end Lexes

end IntExpr
