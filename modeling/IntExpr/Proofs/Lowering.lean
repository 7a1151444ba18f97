import IntExpr.Proofs.Loading

/-!
# Lowering — letters that decide nothing

`lowerChar` lowers the letters of ASCII and the Kelvin sign, and leaves every other character as it is.
Others have a lower case too, of one character or of several, but whatever it is, the verdicts on the
settings are the same (`verdictsBy_eq`).  A lower case that is not all of ASCII is no word, and in a number
it is out of place wherever it stands.

* `Lowers`: what a lowering of a text may be.
* `read_append_eq`: the integer of a text depends on no more of it than comes before such a character.
-/

namespace IntExpr

variable {c x : Char} {cs ds p q q' : List Char} {s : Setting}

/-! ### Lowerings -/

/-- Neither a character of ASCII nor the Kelvin sign, the lower case of which is one. -/
def isOutside (c : Char) : Bool := 128 ≤ c.toNat && c ≠ '\u212A'

/-- What may be made of one character.  The lower case of one outside is not all of ASCII, no digit and no
minus is in it, and white space is lowered to white space. -/
inductive LowersTo (c : Char) : List Char → Prop
  | known : isOutside c = false → LowersTo c [lowerChar c]
  | other {block : List Char} : isOutside c = true → (∃ x ∈ block, 128 ≤ x.toNat) →
    (∀ x ∈ block, x.isDigit = false ∧ x ≠ '-') → (∀ x ∈ block, Text.isWhite x = Text.isWhite c) →
    LowersTo c block

/-- What may be made of a text. -/
inductive Lowers : List Char → List Char → Prop
  | nil : Lowers [] []
  | cons {c : Char} {cs block ds : List Char} : LowersTo c block → Lowers cs ds → Lowers (c :: cs) (block ++ ds)

theorem toLower_of_not_upper (h : ¬ ('A'.toNat ≤ c.toNat ∧ c.toNat ≤ 'Z'.toNat)) : c.toLower = c :=
  dif_neg fun hupper => h ⟨UInt32.le_iff_toNat_le.mp hupper.1, UInt32.le_iff_toNat_le.mp hupper.2⟩

theorem lowerChar_of_isOutside (h : isOutside c = true) : lowerChar c = c := by
  obtain ⟨hle, hkelvin⟩ : 128 ≤ c.toNat ∧ c ≠ '\u212A' := by simpa [isOutside] using h
  rw [lowerChar, if_neg hkelvin]
  refine toLower_of_not_upper fun hupper => ?_
  have hz : 'Z'.toNat = 90 := rfl
  omega

/-- The lowering of the settings is one of them. -/
theorem lowers_map_lowerChar (cs : List Char) : Lowers cs (cs.map lowerChar) := by
  induction cs with
  | nil => exact .nil
  | cons c cs ih =>
    show Lowers (c :: cs) ([lowerChar c] ++ cs.map lowerChar)
    refine .cons ?_ ih
    by_cases hout : isOutside c = true
    · have hle : 128 ≤ c.toNat := by
        rw [isOutside, Bool.and_eq_true, decide_eq_true_eq] at hout
        exact hout.1
      rw [lowerChar_of_isOutside hout]
      refine .other hout ⟨c, List.mem_singleton_self c, hle⟩ (fun x hx => ?_) fun x hx => ?_
      · obtain rfl := List.mem_singleton.mp hx
        refine ⟨Bool.eq_false_iff.mpr fun hdigit => ?_, ?_⟩
        · exact absurd (Nat.le_trans hle (Char.isDigit_iff_toNat.mp hdigit).2) (by decide)
        · rintro rfl
          exact absurd hle (by decide)
      · rw [List.mem_singleton.mp hx]
    · exact .known (Bool.eq_false_iff.mpr hout)

theorem isWhite_lowerChar (h : isOutside c = false) : Text.isWhite (lowerChar c) = Text.isWhite c := by
  by_cases hkelvin : c = '\u212A'
  · subst hkelvin
    decide
  by_cases hupper : 'A'.toNat ≤ c.toNat ∧ c.toNat ≤ 'Z'.toNat
  · have hall : ∀ n : Fin 128, 'A'.toNat ≤ n ∧ n ≤ 'Z'.toNat →
        Text.isWhite (lowerChar (Char.ofNat n)) = Text.isWhite (Char.ofNat n) := by decide
    have hz : 'Z'.toNat = 90 := rfl
    have hc := hall ⟨c.toNat, by omega⟩ hupper
    rwa [Char.ofNat_toNat] at hc
  · rw [lowerChar, if_neg hkelvin, toLower_of_not_upper hupper]

theorem LowersTo.isWhite_eq (h : LowersTo c ds) (hx : x ∈ ds) : Text.isWhite x = Text.isWhite c := by
  cases h with
  | known hout =>
    rw [List.mem_singleton.mp hx]
    exact isWhite_lowerChar hout
  | other _ _ _ hwhite => exact hwhite x hx

theorem LowersTo.ne_nil (h : LowersTo c ds) : ds ≠ [] := by
  cases h with
  | known _ => exact List.cons_ne_nil _ _
  | other _ hout _ _ =>
    obtain ⟨x, hx, -⟩ := hout
    exact List.ne_nil_of_mem hx

/-! ### Up to the first character outside -/

/-- What is left of a text from a character on that is no word's and no number's. -/
structure Opaque (q : List Char) : Prop where
  starts : ∃ x r, q = x :: r ∧ x.isDigit = false ∧ x ≠ '-'
  outside : ∃ x ∈ q, 128 ≤ x.toNat

/-- A lowering is that of the settings, or it is so up to a character outside, and goes on with something
that is in no word and no number. -/
theorem Lowers.cases (h : Lowers cs ds) : (∀ c ∈ cs, isOutside c = false) ∧ ds = cs.map lowerChar ∨
    ∃ q, Opaque q ∧ (∃ c ∈ cs, isOutside c = true) ∧
      ds = (cs.takeWhile fun c => !isOutside c).map lowerChar ++ q := by
  induction h with
  | nil => exact .inl ⟨nofun, rfl⟩
  | @cons c cs block ds hc _ ih =>
    cases hc with
    | known hout =>
      have htake : (c :: cs).takeWhile (fun c => !isOutside c) = c :: cs.takeWhile fun c => !isOutside c :=
        List.takeWhile_cons_of_pos (by simp [hout])
      rcases ih with ⟨hall, rfl⟩ | ⟨q, hq, ⟨x, hx, hxout⟩, rfl⟩
      · exact .inl ⟨List.forall_mem_cons.mpr ⟨hout, hall⟩, rfl⟩
      · exact .inr ⟨q, hq, ⟨x, List.mem_cons_of_mem c hx, hxout⟩, by rw [htake]; rfl⟩
    | other hout hmem hplain hwhite =>
      refine .inr ⟨block ++ ds, ⟨?_, ?_⟩, ⟨c, List.mem_cons_self, hout⟩, ?_⟩
      · obtain ⟨x, r, rfl⟩ := List.exists_cons_of_ne_nil (LowersTo.other hout hmem hplain hwhite).ne_nil
        refine ⟨x, r ++ ds, rfl, ?_⟩
        exact hplain x List.mem_cons_self
      · obtain ⟨x, hx, hle⟩ := hmem
        exact ⟨x, List.mem_append_left ds hx, hle⟩
      · rw [List.takeWhile_cons_of_neg (by simp [hout])]
        rfl

/-! ### Numbers -/

theorem Opaque.takeWhile_append (hq : Opaque q) (p : List Char) :
    (p ++ q).takeWhile Char.isDigit = p.takeWhile Char.isDigit := by
  obtain ⟨x, r, rfl, hx, -⟩ := hq.starts
  have hnone : (x :: r).takeWhile Char.isDigit = [] := List.takeWhile_cons_of_neg (by simp [hx])
  rw [List.takeWhile_append, hnone, List.append_nil]
  split
  · next hlength => exact (List.IsPrefix.eq_of_length (List.takeWhile_prefix _) hlength).symm
  · rfl

namespace IntegerText

/-- From digits no more is read than comes before something opaque. -/
theorem readDigits_append_eq (hq : Opaque q) (hq' : Opaque q') (p : List Char) :
    readDigits (p ++ q) = readDigits (p ++ q') := by
  have hread {q : List Char} (hq : Opaque q) : readDigits (p ++ q) =
      let digits := p.takeWhile Char.isDigit
      if digits.isEmpty || digits.head? = some '0' then .error .malformed
      else if Decimal.digitLimit < digits.length then .error .tooLong else .error .malformed := by
    have htake := hq.takeWhile_append p
    obtain ⟨x, r, rfl, hx, -⟩ := hq.starts
    have hsingle : p ++ x :: r ≠ ['0'] := by
      intro h
      have hmem : x ∈ ['0'] := h ▸ List.mem_append_right p List.mem_cons_self
      rw [List.mem_singleton.mp hmem] at hx
      exact absurd hx (by decide)
    have hmore : (p.takeWhile Char.isDigit).length < (p ++ x :: r).length := by
      have hle := (List.takeWhile_prefix (l := p) Char.isDigit).length_le
      rw [List.length_append, List.length_cons]
      omega
    rw [readDigits, if_neg hsingle, htake]
    dsimp only
    rw [if_pos hmore]
  rw [hread hq, hread hq']

theorem readPlain_append_eq (hq : Opaque q) (hq' : Opaque q') (p : List Char) :
    readPlain (p ++ q) = readPlain (p ++ q') := by
  have hplain {cs : List Char} (h : cs.head? ≠ some '-') :
      readPlain cs = (readDigits cs).map fun n => (n : Int) := by
    unfold readPlain
    split
    · exact absurd rfl h
    · rfl
  cases p with
  | nil =>
    have hdigits := readDigits_append_eq hq hq' []
    have hhead {q : List Char} (hq : Opaque q) : ([] ++ q).head? ≠ some '-' := by
      obtain ⟨x, r, rfl, -, hx⟩ := hq.starts
      exact fun h => hx (Option.some.inj h)
    rw [hplain (hhead hq), hplain (hhead hq'), hdigits]
  | cons x p =>
    by_cases hx : x = '-'
    · subst hx
      show (readDigits (p ++ q) : Except Rejection Int).map _ = (readDigits (p ++ q') : Except Rejection Int).map _
      rw [readDigits_append_eq hq hq']
    · have hhead (q : List Char) : ((x :: p) ++ q).head? ≠ some '-' := fun h => hx (Option.some.inj h)
      rw [hplain (hhead q), hplain (hhead q'), readDigits_append_eq hq hq']

/-! Nothing that is made tidy loses a character outside. -/

theorem ne_of_outside (hx : 128 ≤ x.toNat) (hc : c.toNat < 128) : x ≠ c := by
  rintro rfl
  omega

theorem mem_of_dropZeros (h : dropZeros cs = some ds) (hx : x ∈ cs) (hout : 128 ≤ x.toNat) : x ∈ ds := by
  have hzero : x ≠ '0' := ne_of_outside hout (by decide)
  have hpadding : isPadding x = false := by
    simp [isPadding, hzero, ne_of_outside hout (c := '_') (by decide)]
  unfold dropZeros at h
  split at h
  · cases h
  · next rest =>
    have hrest : x ∈ rest.dropWhile isPadding := by
      rcases List.mem_cons.mp hx with rfl | hx
      · exact absurd rfl hzero
      · rw [← List.takeWhile_append_dropWhile (p := isPadding) (l := rest)] at hx
        rcases List.mem_append.mp hx with htake | hdrop
        · have hall := List.all_eq_true.mp List.all_takeWhile x htake
          rw [hpadding] at hall
          cases hall
        · exact hdrop
    dsimp only at h
    split at h
    · cases h
      exact List.mem_append_right _ hrest
    · cases h
      exact List.mem_append_right _ hrest
    · split at h
      · cases h
        exact hrest
      · cases h
  · split at h
    · cases h
      exact hx
    · cases h

theorem mem_of_dropFraction (h : dropFraction cs = some ds) (hx : x ∈ cs) (hout : 128 ≤ x.toNat) : x ∈ ds := by
  unfold dropFraction at h
  split at h
  · cases h
    exact hx
  · next point zeros hdrop =>
    split at h
    · next hzeros =>
      cases h
      rw [← List.takeWhile_append_dropWhile (p := fun c => decide (c ≠ '.')) (l := cs), hdrop] at hx
      rw [Bool.and_eq_true] at hzeros
      rcases List.mem_append.mp hx with htake | hx
      · exact htake
      · exfalso
        rcases List.mem_cons.mp hx with rfl | hx
        · have hpoint := List.head?_dropWhile_not (fun c => decide (c ≠ '.')) cs
          rw [hdrop] at hpoint
          exact ne_of_outside hout (c := '.') (by decide) (by simpa using hpoint)
        · have hzero := of_decide_eq_true (List.all_eq_true.mp hzeros.2 x hx)
          exact ne_of_outside hout (by decide) hzero
    · cases h

theorem mem_of_tidyUnsigned (h : tidyUnsigned cs = some ds) (hx : x ∈ cs) (hout : 128 ≤ x.toNat) : x ∈ ds := by
  obtain ⟨cs₂, h, hunder⟩ := Option.bind_eq_some_iff.mp h
  obtain ⟨cs₁, hzeros, hfraction⟩ := Option.bind_eq_some_iff.mp h
  have hx₂ := mem_of_dropFraction hfraction (mem_of_dropZeros hzeros hx hout) hout
  unfold dropUnderscores at hunder
  split at hunder
  · cases hunder
    exact List.mem_filter.mpr ⟨hx₂, decide_eq_true (ne_of_outside hout (by decide))⟩
  · cases hunder

theorem mem_of_tidy (h : tidy cs = some ds) (hx : x ∈ Text.strip Text.isWhite cs) (hout : 128 ≤ x.toNat) :
    x ∈ ds := by
  unfold tidy at h
  split at h
  · next hstrip =>
    rw [hstrip] at hx
    obtain ⟨ds', htidy, rfl⟩ := Option.map_eq_some_iff.mp h
    rcases List.mem_cons.mp hx with rfl | hx
    · exact List.mem_cons_self
    · exact List.mem_cons_of_mem _ (mem_of_tidyUnsigned htidy hx hout)
  · next hstrip =>
    rw [hstrip] at hx
    rcases List.mem_cons.mp hx with rfl | hx
    · exact absurd rfl (ne_of_outside hout (c := '+') (by decide))
    · exact mem_of_tidyUnsigned h hx hout
  · exact mem_of_tidyUnsigned h hx hout

theorem isDigit_of_readDigits {n : Nat} (h : readDigits cs = .ok n) (hx : x ∈ cs) : x.isDigit = true := by
  simp only [readDigits] at h
  split_ifs at h with hzero hempty hlong hmore
  · subst hzero
    rw [List.mem_singleton.mp hx]
    decide
  · have hall : cs.takeWhile Char.isDigit = cs :=
      List.IsPrefix.eq_of_length_le (List.takeWhile_prefix _) (Nat.not_lt.mp hmore)
    exact List.all_eq_true.mp List.all_takeWhile x (by rwa [hall])

theorem readPlain_ne_ok (hx : x ∈ cs) (hout : 128 ≤ x.toNat) (v : Int) : readPlain cs ≠ .ok v := by
  have hdigits {ds : List Char} (hx : x ∈ ds) (f : Int → Int) :
      (readDigits ds : Except Rejection Int).map f ≠ .ok v := by
    intro h
    cases hread : readDigits ds with
    | error e =>
      rw [hread] at h
      cases h
    | ok n =>
      have hle := (Char.isDigit_iff_toNat.mp (isDigit_of_readDigits hread hx)).2
      have hnine : '9'.toNat = 57 := rfl
      omega
  unfold readPlain
  split
  · rcases List.mem_cons.mp hx with rfl | hx
    · exact absurd hout (by decide)
    · exact hdigits hx _
  · exact hdigits hx _

/-- A text with a character outside between its white ends is no integer when it is tidy. -/
theorem readTidy_of_outside (hstrip : Text.strip Text.isWhite cs = cs) (hx : x ∈ cs) (hout : 128 ≤ x.toNat) :
    readTidy cs = .error .malformed := by
  unfold readTidy
  split
  · next v htidy =>
    obtain ⟨ds, hds, hread⟩ := Option.map_eq_some_iff.mp htidy
    exact absurd hread (readPlain_ne_ok (mem_of_tidy hds (hstrip.symm ▸ hx) hout) hout v)
  · rfl

/-- **Nothing opaque is read**, and so it does not matter what it is. -/
theorem read_append_eq (hq : Opaque q) (hq' : Opaque q') (hstrip : Text.strip Text.isWhite (p ++ q) = p ++ q)
    (hstrip' : Text.strip Text.isWhite (p ++ q') = p ++ q') :
    read (String.ofList (p ++ q)) = read (String.ofList (p ++ q')) := by
  have hread {q : List Char} (hq : Opaque q) (hstrip : Text.strip Text.isWhite (p ++ q) = p ++ q) :
      read (String.ofList (p ++ q)) = readPlain (p ++ q) := by
    obtain ⟨x, hx, hout⟩ := hq.outside
    rw [read, String.toList_ofList]
    split
    · next hplain => rw [readTidy_of_outside hstrip (List.mem_append_right p hx) hout, hplain]
    · rfl
  rw [hread hq hstrip, hread hq' hstrip', readPlain_append_eq hq hq']

end IntegerText

/-! ### The ends of a text -/

theorem Lowers.isWhite_of_head? (h : Lowers cs ds) (hx : x ∈ ds.head?) :
    ∃ c ∈ cs.head?, Text.isWhite x = Text.isWhite c := by
  cases h with
  | nil => cases hx
  | @cons c cs block ds hc _ =>
    obtain ⟨y, r, rfl⟩ := List.exists_cons_of_ne_nil hc.ne_nil
    obtain rfl : y = x := Option.some.inj hx
    exact ⟨c, rfl, hc.isWhite_eq List.mem_cons_self⟩

theorem Lowers.isWhite_of_getLast? (h : Lowers cs ds) (hx : x ∈ ds.getLast?) :
    ∃ c ∈ cs.getLast?, Text.isWhite x = Text.isWhite c := by
  induction h with
  | nil => cases hx
  | @cons c cs block ds hc h ih =>
    cases h with
    | nil =>
      rw [List.append_nil] at hx
      exact ⟨c, rfl, hc.isWhite_eq (List.mem_of_getLast? hx)⟩
    | @cons c' cs block' ds hc' h =>
      have hne : block' ++ ds ≠ [] := List.append_ne_nil_of_left_ne_nil hc'.ne_nil ds
      rw [List.getLast?_append, List.getLast?_eq_some_getLast hne] at hx
      obtain ⟨z, hz, hwhite⟩ := ih (List.getLast?_eq_some_getLast hne ▸ hx)
      exact ⟨z, by rwa [List.getLast?_cons_cons], hwhite⟩

/-- Where no blank is at the ends of a text none is at those of a lowering. -/
theorem Lowers.strip_eq {text : List Char} (h : Lowers (Text.strip Text.isBlank text) ds) :
    Text.strip Text.isWhite ds = ds := by
  refine Text.strip_eq_self (fun x hx => ?_) fun x hx => ?_
  · obtain ⟨c, hc, hwhite⟩ := h.isWhite_of_head? hx
    exact hwhite.trans (Text.isWhite_eq_false_of_isBlank (Text.not_of_head?_strip hc))
  · obtain ⟨c, hc, hwhite⟩ := h.isWhite_of_getLast? hx
    exact hwhite.trans (Text.isWhite_eq_false_of_isBlank (Text.not_of_getLast?_strip hc))

/-! ### Verdicts -/

theorem Lowers.eq_or_opaque {ds' : List Char} (h : Lowers cs ds) (h' : Lowers cs ds') :
    ds = ds' ∨ ∃ p q q', Opaque q ∧ Opaque q' ∧ ds = p ++ q ∧ ds' = p ++ q' := by
  rcases h.cases with ⟨hall, rfl⟩ | ⟨q, hq, ⟨x, hx, hout⟩, rfl⟩
  · rcases h'.cases with ⟨-, rfl⟩ | ⟨q', -, ⟨x, hx, hout⟩, -⟩
    · exact .inl rfl
    · cases (hall x hx).symm.trans hout
  · rcases h'.cases with ⟨hall, -⟩ | ⟨q', hq', -, rfl⟩
    · cases (hall x hx).symm.trans hout
    · exact .inr ⟨_, q, q', hq, hq', rfl, rfl⟩

/-- All lowerings of the text of a variable are judged alike. -/
def JudgedAlike {α : Type} (read : RawValue → Except Problem α) : Prop :=
  ∀ (text ds ds' : List Char), Lowers (Text.strip Text.isBlank text) ds →
    Lowers (Text.strip Text.isBlank text) ds' →
    read (.text (String.ofList ds)) = read (.text (String.ofList ds'))

/-- A text that is not all of ASCII is none of two words that are. -/
theorem readChoice_of_outside {α : Type} {word : α → String} {a b : α} (hx : x ∈ ds) (hout : 128 ≤ x.toNat)
    (ha : (word a).toList.all (·.toNat < 128) = true) (hb : (word b).toList.all (·.toNat < 128) = true) :
    readChoice word a b (.text (String.ofList ds)) = .error (.notAChoice (word a) (word b)) := by
  have hne {w : String} (hw : w.toList.all (·.toNat < 128) = true) :
      RawValue.text (String.ofList ds) ≠ .text w := by
    intro h
    obtain rfl := RawValue.text.inj h
    rw [String.toList_ofList] at hw
    exact absurd hout (Nat.not_le.mpr (of_decide_eq_true (List.all_eq_true.mp hw x hx)))
  rw [readChoice, if_neg (hne ha), if_neg (hne hb)]

theorem judgedAlike_readChoice {α : Type} {word : α → String} {a b : α}
    (ha : (word a).toList.all (·.toNat < 128) = true) (hb : (word b).toList.all (·.toNat < 128) = true) :
    JudgedAlike (readChoice word a b) := by
  intro text ds ds' h h'
  rcases h.eq_or_opaque h' with rfl | ⟨p, q, q', hq, hq', rfl, rfl⟩
  · rfl
  · obtain ⟨x, hx, hout⟩ := hq.outside
    obtain ⟨x', hx', hout'⟩ := hq'.outside
    rw [readChoice_of_outside (List.mem_append_right p hx) hout ha hb,
      readChoice_of_outside (List.mem_append_right p hx') hout' ha hb]

theorem judgedAlike_readIntBits : JudgedAlike readIntBits := by
  intro text ds ds' h h'
  rcases h.eq_or_opaque h' with rfl | ⟨p, q, q', hq, hq', rfl, rfl⟩
  · rfl
  · rw [readIntBits, readIntBits, readInteger, readInteger,
      IntegerText.read_append_eq hq hq' h.strip_eq h'.strip_eq]

/-- What an environment variable gives where `lower` makes the lower case. -/
def ofVariableBy (lower : List Char → List Char) (text : String) : Option RawValue :=
  match Text.strip Text.isBlank text.toList with
  | [] => none
  | cs => some (.text (String.ofList (lower cs)))

/-- The value that is then in effect for a setting. -/
def effectiveBy (lower : List Char → List Char) (env : List (String × String)) (overrides : RawSettings)
    (s : Setting) : Option RawValue :=
  match overrides.lookup s.name with
  | none | some .null => (env.lookup s.variableName).bind (ofVariableBy lower)
  | some v => some v

/-- The verdicts on the values that are then in effect. -/
def verdictsBy (lower : List Char → List Char) (env : List (String × String)) (overrides : RawSettings) :
    Verdicts where
  unknownCharacters := verdict .skip readUnknownCharacters (effectiveBy lower env overrides .unknownCharacters)
  associativity := verdict .left readAssociativity (effectiveBy lower env overrides .associativity)
  intBits := verdict ⟨64, two_le_sixtyFour⟩ readIntBits (effectiveBy lower env overrides .intBits)

theorem verdict_effectiveBy {α : Type} {default : α} {read : RawValue → Except Problem α}
    {lower : List Char → List Char} (hread : JudgedAlike read) (hlower : ∀ cs, Lowers cs (lower cs))
    (env : List (String × String)) (overrides : RawSettings) (s : Setting) :
    verdict default read (effectiveBy lower env overrides s) =
      verdict default read (effective? env overrides s) := by
  have hvariable (text : String) :
      verdict default read (ofVariableBy lower text) = verdict default read (ofVariable text) := by
    have halike := hread text.toList _ _ (hlower _) (lowers_map_lowerChar _)
    unfold ofVariableBy ofVariable
    cases hstrip : Text.strip Text.isBlank text.toList with
    | nil => rfl
    | cons c cs =>
      rw [hstrip] at halike
      exact halike
  have hlookup : verdict default read ((env.lookup s.variableName).bind (ofVariableBy lower)) =
      verdict default read ((env.lookup s.variableName).bind ofVariable) := by
    cases env.lookup s.variableName with
    | none => rfl
    | some text => exact hvariable text
  unfold effectiveBy effective?
  cases overrides.lookup s.name with
  | none => exact hlookup
  | some v =>
    cases v with
    | null => exact hlookup
    | bool | int | decimal | text | list | record => rfl

/-- **However lower case is made of the letters outside, the verdicts are the same**, and they are all that
the environment does to a load. -/
theorem verdictsBy_eq {lower : List Char → List Char} (hlower : ∀ cs, Lowers cs (lower cs))
    (env : List (String × String)) (overrides : RawSettings) :
    verdictsBy lower env overrides = verdicts env overrides := by
  have hunknown : JudgedAlike readUnknownCharacters := judgedAlike_readChoice (by decide) (by decide)
  have hassoc : JudgedAlike readAssociativity := judgedAlike_readChoice (by decide) (by decide)
  rw [verdictsBy, verdicts, verdict_effectiveBy hunknown hlower, verdict_effectiveBy hassoc hlower,
    verdict_effectiveBy judgedAlike_readIntBits hlower]

end IntExpr
