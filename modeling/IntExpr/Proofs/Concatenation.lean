import IntExpr.Diagnostic
import IntExpr.Proofs.Lexing

/-!
# Concatenation — the tokens of two texts, one written after the other

A scan carries offsets along and never looks at them, so a text met in the middle of another one is
scanned as if it stood alone, but for its place (`scanFrom_shift`).  With `scanFrom_append` this gives the
scan of two texts from the scans of each.  They must be apart: a run of digits that goes on from the
first text into the second is one token.

* `scan_append`: the scan of both texts.
* `scan_append_of_rejected`, `tokens_append`: what it meets if the first scan is cut short, and if not.
* `tokenize_append`: the tokens of both texts, or the character that is not let past.
-/

namespace IntExpr

variable {policy : UnknownCharacters} {u v : String} {i n : Nat} {cs : List Char} {x : Located}

/-! ### Moved by some places -/

/-- The same symbol, `n` places further on. -/
def Token.shift (n : Nat) (t : Token) : Token := { t with pos := t.pos + n }

/-- The same character, `n` places further on. -/
def Located.shift (n : Nat) (c : Located) : Located := { c with pos := c.pos + n }

def ScanItem.shift (n : Nat) : ScanItem → ScanItem
  | .token t => .token (t.shift n)
  | .skipped c => .skipped (c.shift n)

def Scan.shift (n : Nat) (s : Scan) : Scan :=
  ⟨s.items.map (ScanItem.shift n), s.rejected.map (Located.shift n)⟩

theorem Scan.shift_cons (item : ScanItem) (s : Scan) :
    (s.cons item).shift n = (s.shift n).cons (item.shift n) := rfl

theorem Scan.tokens_shift (s : Scan) : (s.shift n).tokens = s.tokens.map (Token.shift n) := by
  have hitem : ScanItem.token? ∘ ScanItem.shift n = fun item => item.token?.map (Token.shift n) := by
    funext item
    cases item <;> rfl
  rw [Scan.tokens, Scan.tokens, Scan.shift, List.filterMap_map, hitem, List.map_filterMap]

/-- **Where a text stands matters to the offsets only.** -/
theorem scanFrom_shift : scanFrom policy (i + n) cs = (scanFrom policy i cs).shift n := by
  fun_induction scanFrom policy i cs with
  | case1 i => exact scanFrom_nil
  | case2 i c cs hsep ih => rw [scanFrom_separator hsep, Nat.add_right_comm, ih]
  | case3 i c cs hsep hdigit more ih =>
    have hnext : i + n + 1 + more.length = i + 1 + more.length + n := by omega
    rw [scanFrom_digit hdigit (Bool.not_eq_true _ ▸ hsep), hnext, ih, Scan.shift_cons]
    rfl
  | case4 i c cs hsep hdigit s hs ih =>
    rw [scanFrom_symbol hs (Bool.not_eq_true _ ▸ hsep) (Bool.not_eq_true _ ▸ hdigit), Nat.add_right_comm,
      ih, Scan.shift_cons]
    rfl
  | case5 i c cs hsep hdigit hs hpolicy ih =>
    subst hpolicy
    rw [scanFrom_skip (not_inAlphabet hsep hdigit hs), Nat.add_right_comm, ih, Scan.shift_cons]
    rfl
  | case6 i c cs hsep hdigit hs hpolicy =>
    subst hpolicy
    exact scanFrom_reject (not_inAlphabet hsep hdigit hs)

/-! ### The scan of both texts -/

theorem scan_append (hapart : Apart u.toList v.toList) :
    scan policy (u ++ v) = (scan policy u).followedBy ((scan policy v).shift u.length) := by
  unfold scan
  rw [String.toList_append, scanFrom_append hapart, String.length_toList, scanFrom_shift]

/-- A scan that ends at a character does not come to the second text. -/
theorem scan_append_of_rejected (hapart : Apart u.toList v.toList)
    (h : (scan policy u).rejected = some x) : scan policy (u ++ v) = scan policy u := by
  rw [scan_append hapart, Scan.followedBy, h]

/-- The character that ends the second scan ends the scan of both. -/
theorem rejected_append (hapart : Apart u.toList v.toList) (h : (scan policy u).rejected = none) :
    (scan policy (u ++ v)).rejected = (scan policy v).rejected.map (Located.shift u.length) := by
  rw [scan_append hapart, Scan.followedBy, h]
  rfl

/-- The tokens of the first text, but for its end, and then those of the second. -/
theorem tokens_append (hapart : Apart u.toList v.toList) (h : (scan policy u).rejected = none) :
    ∃ init, (scan policy u).tokens = init ++ [⟨.finish, u.length⟩] ∧
      (scan policy (u ++ v)).tokens = init ++ (scan policy v).tokens.map (Token.shift u.length) := by
  obtain ⟨init, hitems, -⟩ := items_of_scanFrom h
  rw [Nat.zero_add, String.length_toList] at hitems
  refine ⟨init.filterMap ScanItem.token?, ?_, ?_⟩
  · rw [Scan.tokens, scan, hitems, List.filterMap_append]
    rfl
  · rw [← Scan.tokens_shift, scan_append hapart, Scan.followedBy, h, Scan.tokens, scan, hitems,
      List.dropLast_concat, List.filterMap_append]
    rfl

/-! ### The tokens of both texts -/

/-- **Two texts apart from each other have the tokens of the first, less its end, and then those of the
second, moved by the length of the first.**  A character that is not let past is reported as it is for the
text in which it stands: at its offset there if that is the first text, else moved likewise. -/
theorem tokenize_append (policy : UnknownCharacters) {a b : String} (hapart : Apart a.toList b.toList) :
    (policy = .skip → ∃ ts us, tokenize policy a = .ok ts ∧ tokenize policy b = .ok us) ∧
    (∀ ts us, tokenize policy a = .ok ts → tokenize policy b = .ok us →
      ∃ init, ts = init ++ [⟨.finish, a.length⟩] ∧
        tokenize policy (a ++ b) = .ok (init ++ us.map (Token.shift a.length))) ∧
    (∀ x, tokenize policy a = .error x → tokenize policy (a ++ b) = .error x ∧
      (x.diagnostic (a ++ b)).message = (x.diagnostic a).message ∧
      (x.diagnostic (a ++ b)).pos = (x.diagnostic a).pos) ∧
    ∀ ts y, tokenize policy a = .ok ts → tokenize policy b = .error y →
      tokenize policy (a ++ b) = .error (y.shift a.length) ∧
        ((y.shift a.length).diagnostic (a ++ b)).message = (y.diagnostic b).message ∧
        ((y.shift a.length).diagnostic (a ++ b)).pos = (y.diagnostic b).pos.map (· + (a.length : Int)) := by
  refine ⟨fun hskip => ?_, fun ts us ha hb => ?_, fun x ha => ?_, fun ts y ha hb => ?_⟩
  · exact ⟨_, _, tokenize_eq_ok_iff.mpr ⟨rejected_of_skip hskip, rfl⟩,
      tokenize_eq_ok_iff.mpr ⟨rejected_of_skip hskip, rfl⟩⟩
  · obtain ⟨hra, rfl⟩ := tokenize_eq_ok_iff.mp ha
    obtain ⟨hrb, rfl⟩ := tokenize_eq_ok_iff.mp hb
    obtain ⟨init, htokens, happend⟩ := tokens_append hapart hra
    refine ⟨init, htokens, tokenize_eq_ok_iff.mpr ⟨?_, happend⟩⟩
    rw [rejected_append hapart hra, hrb]
    rfl
  · have hrx : (scan policy a).rejected = some x := tokenize_eq_error_iff.mp ha
    refine ⟨tokenize_eq_error_iff.mpr ?_, rfl, rfl⟩
    rw [scan_append_of_rejected hapart hrx, hrx]
  · obtain ⟨hra, -⟩ := tokenize_eq_ok_iff.mp ha
    have hry : (scan policy b).rejected = some y := tokenize_eq_error_iff.mp hb
    refine ⟨tokenize_eq_error_iff.mpr ?_, rfl, rfl⟩
    rw [rejected_append hapart hra, hry]
    rfl

/-- A sum cut in front of a number, and one cut in front of a character that is not let past. -/
theorem tokenize_append_of_cut_sums :
    (Apart "1 + ".toList "23".toList ∧ tokenize .reject ("1 + " ++ "23") =
      .ok [⟨.number "1", 0⟩, ⟨.op .add, 2⟩, ⟨.number "23", 4⟩, ⟨.finish, 6⟩]) ∧
    Apart "1 + ".toList "2$".toList ∧ tokenize .reject ("1 + " ++ "2$") = .error ⟨'$', 5⟩ := by
  have hapart : ∀ ds, Apart "1 + ".toList ds := by
    intro ds c d hc _ hdigit
    obtain rfl : ' ' = c := Option.some.inj hc
    exact absurd hdigit (by decide)
  have hsum : tokenize .reject "1 + " =
      .ok [⟨.number "1", 0⟩, ⟨.op .add, 2⟩, ⟨.finish, 4⟩] := by decide +kernel
  have hnumber : tokenize .reject "23" = .ok [⟨.number "23", 0⟩, ⟨.finish, 2⟩] := by decide +kernel
  have hunknown : tokenize .reject "2$" = .error ⟨'$', 1⟩ := by decide +kernel
  refine ⟨⟨hapart _, ?_⟩, hapart _, ?_⟩
  · obtain ⟨init, hinit, happend⟩ := (tokenize_append .reject (hapart _)).2.1 _ _ hsum hnumber
    have hsplit : [⟨.number "1", 0⟩, ⟨.op .add, 2⟩] ++ [⟨.finish, 4⟩] = init ++ [_] := hinit
    obtain rfl := List.append_inj_left' hsplit rfl
    exact happend
  · exact ((tokenize_append .reject (hapart _)).2.2.2 _ _ hsum hunknown).1

end IntExpr
