import IntExpr.Token.Stream

/-!
# Scan — all that is met in a text

A cursor draws the tokens of a text when they are wanted. `scan` is the whole text at once: the list
of what is met in it, in order, tokens and characters that are passed over. Where these are rejected,
the first of them ends the scan.

* `scanFrom_eq_draw`: a scan is what comes of drawing again and again.
* `Scan.skippedBefore`: the characters passed over before some token comes into view.
-/

namespace IntExpr

/-- One thing that a scan meets. -/
inductive ScanItem where
  | token (t : Token)
  /-- A character outside the alphabet that is passed over. -/
  | skipped (c : Located)
  deriving DecidableEq, Repr

def ScanItem.token? : ScanItem → Option Token
  | .token t => some t
  | .skipped _ => none

/-- What a scan met, and the character that it ended at, if it was not let past. -/
structure Scan where
  items : List ScanItem
  rejected : Option Located := none
  deriving DecidableEq, Repr

namespace Scan

/-- The scan that first meets `i`. -/
def cons (i : ScanItem) (s : Scan) : Scan := { s with items := i :: s.items }

def tokens (s : Scan) : List Token := s.items.filterMap ScanItem.token?

/-- The characters of `items` that are passed over before token number `n`, counted from zero, comes
into view. -/
def skippedAmong : Nat → List ScanItem → List Located
  | _, [] => []
  | n, .skipped c :: r => c :: skippedAmong n r
  | 0, .token _ :: _ => []
  | n + 1, .token _ :: r => skippedAmong n r

/-- The characters passed over before token number `n`, counted from zero, comes into view. -/
def skippedBefore (s : Scan) (n : Nat) : List Located := skippedAmong n s.items

@[simp] theorem tokens_cons_token (t : Token) (s : Scan) :
    (s.cons (.token t)).tokens = t :: s.tokens := List.filterMap_cons_some rfl

@[simp] theorem tokens_cons_skipped (c : Located) (s : Scan) :
    (s.cons (.skipped c)).tokens = s.tokens := List.filterMap_cons_none rfl

@[simp] theorem rejected_cons (i : ScanItem) (s : Scan) : (s.cons i).rejected = s.rejected := rfl

end Scan

/-- The scan of the characters `cs`, the first of which stands at offset `i`. -/
def scanFrom (policy : UnknownCharacters) (i : Nat) (cs : List Char) : Scan :=
  match cs with
  | [] => ⟨[.token ⟨.finish, i⟩], none⟩
  | c :: cs =>
    if isSeparator c then scanFrom policy (i + 1) cs
    else if c.isDigit then
      let more := cs.takeWhile Char.isDigit
      (scanFrom policy (i + 1 + more.length) (cs.dropWhile Char.isDigit)).cons
        (.token ⟨.number (String.ofList (c :: more)), i⟩)
    else match Symbol.ofChar? c with
      | some s => (scanFrom policy (i + 1) cs).cons (.token ⟨s, i⟩)
      | none => match policy with
        | .skip => (scanFrom policy (i + 1) cs).cons (.skipped ⟨c, i⟩)
        | .reject => ⟨[], some ⟨c, i⟩⟩
termination_by cs.length
decreasing_by
  all_goals simp only [List.length_cons]
  all_goals first
    | omega
    | exact Nat.lt_succ_of_le (List.dropWhile_suffix _).length_le

/-- The scan of a whole text. -/
def scan (policy : UnknownCharacters) (source : String) : Scan := scanFrom policy 0 source.toList

/-! ### One equation per kind of character -/

section Equations

variable {policy : UnknownCharacters} {i : Nat} {c : Char} {cs : List Char}

theorem scanFrom_nil : scanFrom policy i [] = ⟨[.token ⟨.finish, i⟩], none⟩ := by simp [scanFrom]

theorem scanFrom_separator (h : isSeparator c = true) :
    scanFrom policy i (c :: cs) = scanFrom policy (i + 1) cs := by
  rw [scanFrom.eq_def]; simp [h]

theorem scanFrom_digit (h : c.isDigit = true) (hs : isSeparator c = false) :
    scanFrom policy i (c :: cs) =
      (scanFrom policy (i + 1 + (cs.takeWhile Char.isDigit).length)
        (cs.dropWhile Char.isDigit)).cons
        (.token ⟨.number (String.ofList (c :: cs.takeWhile Char.isDigit)), i⟩) := by
  rw [scanFrom.eq_def]; simp [h, hs]

theorem scanFrom_symbol {s : Symbol} (h : Symbol.ofChar? c = some s) (hs : isSeparator c = false)
    (hd : c.isDigit = false) :
    scanFrom policy i (c :: cs) = (scanFrom policy (i + 1) cs).cons (.token ⟨s, i⟩) := by
  rw [scanFrom.eq_def]; simp [h, hs, hd]

theorem scanFrom_skip (h : inAlphabet c = false) :
    scanFrom .skip i (c :: cs) = (scanFrom .skip (i + 1) cs).cons (.skipped ⟨c, i⟩) := by
  simp only [inAlphabet, Bool.or_eq_false_iff, Option.isSome_eq_false_iff,
    Option.isNone_iff_eq_none] at h
  rw [scanFrom.eq_def]; simp [h]

theorem scanFrom_reject (h : inAlphabet c = false) :
    scanFrom .reject i (c :: cs) = ⟨[], some ⟨c, i⟩⟩ := by
  simp only [inAlphabet, Bool.or_eq_false_iff, Option.isSome_eq_false_iff,
    Option.isNone_iff_eq_none] at h
  rw [scanFrom.eq_def]; simp [h]

end Equations

/-! ### Drawing -/

variable {policy : UnknownCharacters} {i : Nat} {c : Char} {cs : List Char} {t : Token}

theorem Symbol.ofChar?_ne_finish : Symbol.ofChar? c ≠ some .finish := by
  intro h
  unfold Symbol.ofChar? at h
  split at h
  · exact nomatch h
  · split at h
    · exact nomatch h
    · split at h
      · exact nomatch h
      · obtain ⟨o, -, ho⟩ := Option.map_eq_some_iff.mp h
        exact nomatch ho

/-- The scan that begins with what was drawn. -/
def Draw.scan (policy : UnknownCharacters) (d : Draw) : Scan :=
  match d.found, d.next with
  | .error c, _ => ⟨d.passed.map .skipped, some c⟩
  | .ok t, none => ⟨d.passed.map .skipped ++ [.token t], none⟩
  | .ok t, some (i, cs) =>
    ⟨d.passed.map .skipped ++ .token t :: (scanFrom policy i cs).items, (scanFrom policy i cs).rejected⟩

/-- **A scan is what comes of drawing again and again.** -/
theorem scanFrom_eq_draw (policy : UnknownCharacters) (i : Nat) (cs : List Char) :
    scanFrom policy i cs = (draw policy i cs).scan policy := by
  fun_induction draw policy i cs with
  | case1 i => exact scanFrom_nil
  | case2 i c cs hsep ih => rw [scanFrom_separator hsep, ih]
  | case3 i c cs hsep hdigit more => exact scanFrom_digit hdigit (Bool.not_eq_true _ ▸ hsep)
  | case4 i c cs hsep hdigit s hs =>
    exact scanFrom_symbol hs (Bool.not_eq_true _ ▸ hsep) (Bool.not_eq_true _ ▸ hdigit)
  | case5 i c cs hsep hdigit hs hpolicy ih =>
    subst hpolicy
    rw [scanFrom_skip (by simp [inAlphabet, hsep, hdigit, hs]), ih]
    unfold Draw.scan
    dsimp only
    cases (draw .skip (i + 1) cs).found with
    | error c => rfl
    | ok t => cases (draw .skip (i + 1) cs).next <;> rfl
  | case6 i c cs hsep hdigit hs hpolicy =>
    subst hpolicy
    exact scanFrom_reject (by simp [inAlphabet, hsep, hdigit, hs])

/-- Nothing is to come just if the end was drawn. -/
theorem symbol_eq_finish_iff_of_draw (h : (draw policy i cs).found = .ok t) :
    t.symbol = .finish ↔ (draw policy i cs).next = none := by
  fun_induction draw policy i cs with
  | case1 i =>
    obtain rfl := Except.ok.inj h
    exact ⟨fun _ => rfl, fun _ => rfl⟩
  | case2 i c cs hsep ih => exact ih h
  | case3 i c cs hsep hdigit more =>
    obtain rfl := Except.ok.inj h
    constructor
    · intro hfinish
      cases hfinish
    · intro hnext
      cases hnext
  | case4 i c cs hsep hdigit s hs =>
    obtain rfl := Except.ok.inj h
    constructor
    · intro hfinish
      obtain rfl : s = .finish := hfinish
      exact absurd hs Symbol.ofChar?_ne_finish
    · intro hnext
      cases hnext
  | case5 i c cs hsep hdigit hs hpolicy ih =>
    subst hpolicy
    exact ih h
  | case6 i c cs hsep hdigit hs hpolicy => cases h

end IntExpr
