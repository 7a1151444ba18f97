import IntExpr.Proofs.WidthTexts

/-!
# Loading — which configuration is loaded

Each setting has at most one value in effect (`effective?`), and what a load does is settled by the
verdicts on these three values, each judged alone, and by the overrides of unknown names
(`load_spec`).  A valid width that is too long to be written stops the load where the configuration
is put on record, although nothing is wrong with it (`load_of_wide`).

* `verdicts`: the verdicts on the values in effect.
* `lookup_gather`: what is gathered for a setting is its value in effect.
* `filter_details`: of the details, those of a setting come from its own verdict.
-/

namespace IntExpr

open Decimal (Writable)

variable {env env' : List (String × String)} {overrides : RawSettings} {s t : Setting} {c : Config}
  {v : RawValue} {n : Nat}

/-! ### Verdicts -/

/-- The verdict on the value in effect for a setting; where there is none the default stands. -/
def verdict {α : Type} (default : α) (read : RawValue → Except Problem α) :
    Option RawValue → Except Problem α
  | none => .ok default
  | some v => read v

structure Verdicts where
  unknownCharacters : Except Problem UnknownCharacters
  associativity : Except Problem Associativity
  intBits : Except Problem { n : Nat // 2 ≤ n }

namespace Verdicts

/-- What is wrong with the values, in the order of the settings. -/
def details (vs : Verdicts) : List Detail :=
  detailOf .unknownCharacters vs.unknownCharacters ++ detailOf .associativity vs.associativity ++
    detailOf .intBits vs.intBits

/-- The values are all valid, and `c` consists of them. -/
structure Allow (vs : Verdicts) (c : Config) : Prop where
  unknownCharacters : vs.unknownCharacters = .ok c.unknownCharacters
  associativity : vs.associativity = .ok c.associativity
  intBits : vs.intBits = .ok ⟨c.intBits, c.two_le_intBits⟩

end Verdicts

theorem two_le_sixtyFour : 2 ≤ 64 := by decide

/-- The verdicts on the values that are in effect. -/
def verdicts (env : List (String × String)) (overrides : RawSettings) : Verdicts where
  unknownCharacters := verdict .skip readUnknownCharacters (effective? env overrides .unknownCharacters)
  associativity := verdict .left readAssociativity (effective? env overrides .associativity)
  intBits := verdict ⟨64, two_le_sixtyFour⟩ readIntBits (effective? env overrides .intBits)

def unknownOverrides (overrides : RawSettings) : List Detail :=
  (overrides.filter fun v => (Setting.ofName? v.1).isNone && v.2 ≠ .null).map fun v =>
    ⟨v.1, .unknownName⟩

theorem detailOf_eq_nil_iff {α : Type} {r : Except Problem α} : detailOf s r = [] ↔ ∃ x, r = .ok x := by
  cases r with
  | ok x => simp [detailOf]
  | error p => simp [detailOf]

/-- Nothing is wrong with values just if they make a configuration. -/
theorem Verdicts.details_eq_nil_iff {vs : Verdicts} : vs.details = [] ↔ ∃ c, vs.Allow c := by
  simp only [Verdicts.details, List.append_eq_nil_iff, detailOf_eq_nil_iff]
  constructor
  · rintro ⟨⟨⟨u, hu⟩, a, ha⟩, ⟨n, hn⟩, hbits⟩
    exact ⟨⟨u, a, n, hn⟩, hu, ha, hbits⟩
  · rintro ⟨c, h⟩
    exact ⟨⟨⟨_, h.unknownCharacters⟩, _, h.associativity⟩, _, h.intBits⟩

theorem Verdicts.Allow.unique {vs : Verdicts} {c' : Config} (h : vs.Allow c) (h' : vs.Allow c') : c = c' := by
  obtain ⟨u, a, n, hn⟩ := c
  obtain ⟨u', a', n', hn'⟩ := c'
  obtain rfl : u = u' := Except.ok.inj (h.unknownCharacters.symm.trans h'.unknownCharacters)
  obtain rfl : a = a' := Except.ok.inj (h.associativity.symm.trans h'.associativity)
  obtain rfl : n = n' := congrArg Subtype.val (Except.ok.inj (h.intBits.symm.trans h'.intBits))
  rfl

/-! ### What is gathered -/

theorem Setting.name_inj : s.name = t.name ↔ s = t := by
  refine ⟨fun h => ?_, congrArg _⟩
  have hof := congrArg Setting.ofName? h
  rw [ofName?_name, ofName?_name] at hof
  exact Option.some.inj hof

/-- A list of the values that some settings have gives each of these settings its value. -/
theorem lookup_filterMap_name (f : Setting → Option RawValue) (l : List Setting) :
    (l.filterMap fun t => (f t).map (t.name, ·)).lookup s.name = if s ∈ l then f s else none := by
  induction l with
  | nil => rfl
  | cons t l ih =>
    rw [List.filterMap_cons]
    by_cases hst : s = t
    · subst hst
      cases hf : f s with
      | none => simp [ih, hf]
      | some v => simp
    · have hname : (s.name == t.name) = false := by
        simpa using fun h => hst (Setting.name_inj.mp h)
      cases hf : f t with
      | none => simp [ih, hst]
      | some v => simp [List.lookup_cons, hname, ih, hst]

/-- **What is gathered for a setting is its value in effect.** -/
theorem lookup_gather : (gather env overrides).lookup s.name = effective? env overrides s := by
  have hunknown : (overrides.filter fun v => (Setting.ofName? v.1).isNone && v.2 ≠ .null).lookup s.name =
      none := by
    refine List.lookup_eq_none_iff.mpr fun v hv => ?_
    have hnone := (List.mem_filter.mp hv).2
    refine bne_iff_ne.mpr ?_
    rintro hname
    rw [← hname, Setting.ofName?_name] at hnone
    cases hnone
  have hall : s ∈ Setting.all := by cases s <;> decide
  rw [gather, List.lookup_append, lookup_filterMap_name, if_pos hall, hunknown, Option.or_none]

theorem judge_gather {α : Type} (default : α) (read : RawValue → Except Problem α) :
    (gather env overrides).judge s default read = verdict default read (effective? env overrides s) := by
  rw [RawSettings.judge, lookup_gather]
  rfl

theorem unknownNames_gather : (gather env overrides).unknownNames = unknownOverrides overrides := by
  have hknown : (Setting.all.filterMap fun s => (effective? env overrides s).map (s.name, ·)).filter
      (fun v => (Setting.ofName? v.1).isNone) = [] := by
    refine List.filter_eq_nil_iff.mpr fun v hv => ?_
    obtain ⟨s, -, hs⟩ := List.mem_filterMap.mp hv
    obtain ⟨w, -, rfl⟩ := Option.map_eq_some_iff.mp hs
    simp
  rw [RawSettings.unknownNames, gather, List.filter_append, hknown, List.nil_append, List.filter_filter,
    unknownOverrides]
  congr 2
  funext v
  cases (Setting.ofName? v.1).isNone <;> simp

/-! ### The load -/

theorem validate_of_allow (h : (verdicts env overrides).Allow c) (hnames : unknownOverrides overrides = []) :
    (gather env overrides).validate = .ok c := by
  obtain ⟨hu, ha, hn⟩ := h
  simp only [verdicts] at hu ha hn
  rw [RawSettings.validate, judge_gather, judge_gather, judge_gather, unknownNames_gather, hu, ha, hn, hnames]

/-- Whatever is wrong is all in the details. -/
theorem validate_of_details (h : (verdicts env overrides).details ++ unknownOverrides overrides ≠ []) :
    (gather env overrides).validate =
      .error ((verdicts env overrides).details ++ unknownOverrides overrides) := by
  unfold Verdicts.details verdicts at h ⊢
  rw [RawSettings.validate, judge_gather, judge_gather, judge_gather, unknownNames_gather]
  split
  · rename_i hu ha hn hnames
    rw [hu, ha, hn, hnames] at h
    exact absurd rfl h
  · rfl

theorem load_cases (env : List (String × String)) (overrides : RawSettings) :
    ((verdicts env overrides).details ++ unknownOverrides overrides ≠ [] ∧ load env overrides =
        .error (.invalid ((verdicts env overrides).details ++ unknownOverrides overrides))) ∨
      ∃ c, (verdicts env overrides).Allow c ∧ unknownOverrides overrides = [] ∧
        load env overrides = if Writable c.intBits then .ok c else .error (.limit .writing) := by
  by_cases h : (verdicts env overrides).details ++ unknownOverrides overrides = []
  · obtain ⟨hdetails, hnames⟩ := List.append_eq_nil_iff.mp h
    obtain ⟨c, hc⟩ := Verdicts.details_eq_nil_iff.mp hdetails
    refine .inr ⟨c, hc, hnames, ?_⟩
    simp only [load, validate_of_allow hc hnames, Decimal.write]
    split_ifs <;> rfl
  · refine .inl ⟨h, ?_⟩
    rw [load, validate_of_details h]

theorem nothing_wrong_iff : (verdicts env overrides).details ++ unknownOverrides overrides = [] ↔
    ∃ c, (verdicts env overrides).Allow c ∧ unknownOverrides overrides = [] := by
  rw [List.append_eq_nil_iff, Verdicts.details_eq_nil_iff, exists_and_right]

theorem load_eq_ok_iff : load env overrides = .ok c ↔
    (verdicts env overrides).Allow c ∧ unknownOverrides overrides = [] ∧ Writable c.intBits := by
  rcases load_cases env overrides with ⟨hwrong, hload⟩ | ⟨c', hc', hnames, hload⟩
  · rw [hload]
    refine ⟨nofun, ?_⟩
    rintro ⟨hc, hnames, -⟩
    exact absurd (nothing_wrong_iff.mpr ⟨c, hc, hnames⟩) hwrong
  · rw [hload]
    by_cases hwidth : Writable c'.intBits
    · rw [if_pos hwidth]
      refine ⟨?_, fun h => congrArg Except.ok (hc'.unique h.1)⟩
      rintro ⟨⟩
      exact ⟨hc', hnames, hwidth⟩
    · rw [if_neg hwidth]
      refine ⟨nofun, ?_⟩
      rintro ⟨hc, -, hwritable⟩
      exact absurd (hc.unique hc' ▸ hwritable) hwidth

theorem load_eq_invalid_iff {ds : List Detail} : load env overrides = .error (.invalid ds) ↔
    ds ≠ [] ∧ ds = (verdicts env overrides).details ++ unknownOverrides overrides := by
  rcases load_cases env overrides with ⟨hwrong, hload⟩ | ⟨c, hc, hnames, hload⟩
  · rw [hload]
    constructor
    · rintro ⟨⟩
      exact ⟨hwrong, rfl⟩
    · rintro ⟨-, rfl⟩
      rfl
  · have hnothing := nothing_wrong_iff.mpr ⟨c, hc, hnames⟩
    rw [hload, hnothing]
    refine ⟨fun h => ?_, fun h => absurd h.2 h.1⟩
    split_ifs at h
    cases h

theorem load_eq_limit_iff {e : Decimal.LimitError} : load env overrides = .error (.limit e) ↔ e = .writing ∧
    ∃ c, (verdicts env overrides).Allow c ∧ unknownOverrides overrides = [] ∧ ¬ Writable c.intBits := by
  rcases load_cases env overrides with ⟨hwrong, hload⟩ | ⟨c, hc, hnames, hload⟩
  · rw [hload]
    refine ⟨nofun, ?_⟩
    rintro ⟨-, c, hc, hnames, -⟩
    exact absurd (nothing_wrong_iff.mpr ⟨c, hc, hnames⟩) hwrong
  · rw [hload]
    constructor
    · intro h
      split_ifs at h with hwidth
      cases h
      exact ⟨rfl, c, hc, hnames, hwidth⟩
    · rintro ⟨rfl, c', hc', -, hwidth⟩
      rw [if_neg (hc.unique hc' ▸ hwidth)]

/-- A load ends in one of two ways if no width is given but as a text. -/
theorem load_ne_limit (h : ∀ v, effective? env overrides .intBits = some v → ∃ text, v = .text text)
    (e : Decimal.LimitError) : load env overrides ≠ .error (.limit e) := by
  intro hload
  obtain ⟨-, c, hc, -, hlong⟩ := load_eq_limit_iff.mp hload
  have hbits := hc.intBits
  simp only [verdicts] at hbits
  cases hv : effective? env overrides .intBits with
  | none =>
    rw [hv] at hbits
    have hwidth : c.intBits = 64 := (congrArg Subtype.val (Except.ok.inj hbits)).symm
    rw [hwidth] at hlong
    exact hlong (by decide)
  | some v =>
    obtain ⟨text, rfl⟩ := h v hv
    rw [hv] at hbits
    exact hlong (writable_of_readIntBits hbits)

/-! ### What has no part in it -/

/-- The override of a setting counts: there is one, and it is not `null`. -/
def Overrides (overrides : RawSettings) (s : Setting) : Prop :=
  ∃ v, overrides.lookup s.name = some v ∧ v ≠ .null

theorem effective?_of_overrides (h : overrides.lookup s.name = some v) (hv : v ≠ .null) :
    effective? env overrides s = some v := by
  unfold effective?
  split
  · rename_i hnone
    cases h.symm.trans hnone
  · rename_i hnull
    exact absurd (Option.some.inj (h.symm.trans hnull)) hv
  · rename_i w _ hw
    exact hw.symm.trans h

theorem effective?_of_not_overrides (h : ¬ Overrides overrides s) :
    effective? env overrides s = (env.lookup s.variableName).bind ofVariable := by
  unfold effective?
  split
  · rfl
  · rfl
  · rename_i v hnull hv
    exact absurd ⟨v, hv, hnull⟩ h

/-- A load depends on nothing but the values in effect and the overrides of unknown names. -/
theorem load_congr {overrides' : RawSettings}
    (heffective : ∀ s, effective? env overrides s = effective? env' overrides' s)
    (hnames : (overrides.filter fun v => (Setting.ofName? v.1).isNone && v.2 ≠ .null) =
      overrides'.filter fun v => (Setting.ofName? v.1).isNone && v.2 ≠ .null) :
    load env overrides = load env' overrides' := by
  have hgather : gather env overrides = gather env' overrides' := by
    rw [gather, gather, hnames, funext heffective]
  rw [load, load, hgather]

/-- Where no name is given twice, what is found under a name is what is there under it. -/
theorem lookup_eq_some_iff_mem {k : String} (h : (overrides.map Prod.fst).Nodup) :
    overrides.lookup k = some v ↔ (k, v) ∈ overrides := by
  rw [List.lookup_eq_some_iff]
  constructor
  · rintro ⟨before, after, rfl, -⟩
    exact List.mem_append_right before List.mem_cons_self
  · intro hmem
    obtain ⟨before, after, rfl⟩ := List.append_of_mem hmem
    refine ⟨before, after, rfl, fun x hx => bne_iff_ne.mpr ?_⟩
    rintro rfl
    rw [List.map_append, List.nodup_append] at h
    exact h.2.2 x.1 (List.mem_map_of_mem hx) x.1 List.mem_cons_self rfl

/-- Overrides of `null` count as little as none. -/
theorem effective?_filter_ne_null (h : (overrides.map Prod.fst).Nodup) :
    effective? env (overrides.filter (·.2 ≠ .null)) s = effective? env overrides s := by
  have hkept : ((overrides.filter (·.2 ≠ .null)).map Prod.fst).Nodup :=
    h.sublist (List.filter_sublist.map Prod.fst)
  have hlookup (v : RawValue) : (overrides.filter (·.2 ≠ .null)).lookup s.name = some v ↔
      overrides.lookup s.name = some v ∧ v ≠ .null := by
    rw [lookup_eq_some_iff_mem hkept, lookup_eq_some_iff_mem h, List.mem_filter, decide_eq_true_eq]
  by_cases hs : Overrides overrides s
  · obtain ⟨v, hv, hnull⟩ := hs
    rw [effective?_of_overrides hv hnull, effective?_of_overrides ((hlookup v).mpr ⟨hv, hnull⟩) hnull]
  · have hs' : ¬ Overrides (overrides.filter (·.2 ≠ .null)) s := by
      rintro ⟨v, hv, -⟩
      exact hs ⟨v, (hlookup v).mp hv⟩
    rw [effective?_of_not_overrides hs, effective?_of_not_overrides hs']

/-! ### One setting among others -/

theorem filter_detailOf {α : Type} (r : Except Problem α) :
    (detailOf t r).filter (·.name = s.name) = if s = t then detailOf t r else [] := by
  cases r with
  | ok x => simp [detailOf]
  | error p =>
    by_cases h : s = t
    · simp [detailOf, h]
    · have hname : t.name ≠ s.name := fun heq => h (Setting.name_inj.mp heq.symm)
      simp [detailOf, h, hname]

/-- The details of a setting come from its own verdict. -/
theorem filter_details (vs : Verdicts) (s : Setting) : vs.details.filter (·.name = s.name) =
    match s with
    | .unknownCharacters => detailOf .unknownCharacters vs.unknownCharacters
    | .associativity => detailOf .associativity vs.associativity
    | .intBits => detailOf .intBits vs.intBits := by
  simp only [Verdicts.details, List.filter_append, filter_detailOf]
  cases s <;> simp

/-- What a configuration has for a setting. -/
def Config.valueOf (c : Config) : Setting → RawValue
  | .unknownCharacters => .text c.unknownCharacters.word
  | .associativity => .text c.associativity.word
  | .intBits => .int c.intBits

/-- Loads with the same value in effect for a setting agree on it, whatever else is given. -/
theorem same_of_effective {overrides' : RawSettings} {c' : Config}
    (h : effective? env overrides s = effective? env' overrides' s) (hc : (verdicts env overrides).Allow c)
    (hc' : (verdicts env' overrides').Allow c') : c.valueOf s = c'.valueOf s := by
  obtain ⟨hu, ha, hn⟩ := hc
  cases s with
  | unknownCharacters =>
    simp only [verdicts, h] at hu
    have hsame := Except.ok.inj (hu.symm.trans hc'.unknownCharacters)
    rw [Config.valueOf, Config.valueOf, hsame]
  | associativity =>
    simp only [verdicts, h] at ha
    have hsame := Except.ok.inj (ha.symm.trans hc'.associativity)
    rw [Config.valueOf, Config.valueOf, hsame]
  | intBits =>
    simp only [verdicts, h] at hn
    have hsame : c.intBits = c'.intBits :=
      congrArg Subtype.val (Except.ok.inj (hn.symm.trans hc'.intBits))
    rw [Config.valueOf, Config.valueOf, hsame]

/-- Loads with the same value in effect for a setting say the same of it, whatever else is given. -/
theorem details_of_effective {overrides' : RawSettings}
    (h : effective? env overrides s = effective? env' overrides' s) :
    (verdicts env overrides).details.filter (·.name = s.name) =
      (verdicts env' overrides').details.filter (·.name = s.name) := by
  rw [filter_details, filter_details]
  cases s <;> simp only [verdicts, h]

/-! ### All that a load does -/

/-- **What a load does.**  The value in effect for a setting is its override or what the environment gives.
A load succeeds if every value in effect is valid, no other name is given and the width can be written, and
the configuration then consists of these values.  Where a value is not valid or a name unknown, the details
say of each of them what is wrong, the settings first and in their order.  There is no third way to fail but
for a width that is too long, and such a width is never given as a text.  No variable counts that is
overridden, and no override of `null`; and what becomes of a setting depends on its own value in effect
alone. -/
theorem load_spec (env : List (String × String)) (overrides : RawSettings) :
    (∀ s, (∀ v, overrides.lookup s.name = some v → v ≠ .null → effective? env overrides s = some v) ∧
      (¬ Overrides overrides s →
        effective? env overrides s = (env.lookup s.variableName).bind ofVariable)) ∧
    (∀ c, load env overrides = .ok c ↔
      (verdicts env overrides).Allow c ∧ unknownOverrides overrides = [] ∧ Writable c.intBits) ∧
    (∀ ds, load env overrides = .error (.invalid ds) ↔
      ds ≠ [] ∧ ds = (verdicts env overrides).details ++ unknownOverrides overrides) ∧
    (∀ e, load env overrides = .error (.limit e) ↔ e = .writing ∧
      ∃ c, (verdicts env overrides).Allow c ∧ unknownOverrides overrides = [] ∧ ¬ Writable c.intBits) ∧
    (∀ env', (∀ s, ¬ Overrides overrides s → env.lookup s.variableName = env'.lookup s.variableName) →
      load env overrides = load env' overrides) ∧
    ((overrides.map Prod.fst).Nodup →
      load env (overrides.filter (·.2 ≠ .null)) = load env overrides) ∧
    ((∀ v, effective? env overrides .intBits = some v → ∃ text, v = .text text) →
      ∀ e, load env overrides ≠ .error (.limit e)) ∧
    (∀ env' overrides' s, effective? env overrides s = effective? env' overrides' s →
      (verdicts env overrides).details.filter (·.name = s.name) =
        (verdicts env' overrides').details.filter (·.name = s.name) ∧
      ∀ c c', load env overrides = .ok c → load env' overrides' = .ok c' → c.valueOf s = c'.valueOf s) := by
  refine ⟨fun s => ⟨fun v => effective?_of_overrides, effective?_of_not_overrides⟩,
    fun c => load_eq_ok_iff, fun ds => load_eq_invalid_iff, fun e => load_eq_limit_iff,
    fun env' h => ?_, fun h => ?_, load_ne_limit, fun env' overrides' s h => ?_⟩
  · refine load_congr (fun s => ?_) rfl
    by_cases hs : Overrides overrides s
    · obtain ⟨v, hv, hnull⟩ := hs
      rw [effective?_of_overrides hv hnull, effective?_of_overrides hv hnull]
    · rw [effective?_of_not_overrides hs, effective?_of_not_overrides hs, h s hs]
  · refine load_congr (fun s => effective?_filter_ne_null h) ?_
    rw [List.filter_filter]
    refine List.filter_congr fun v _ => ?_
    rw [Bool.and_assoc, Bool.and_self]
  · refine ⟨details_of_effective h, fun c c' hc hc' => ?_⟩
    exact same_of_effective h (load_eq_ok_iff.mp hc).1 (load_eq_ok_iff.mp hc').1

theorem allow_of_width (h : 2 ≤ n) :
    (verdicts [] [(Setting.intBits.name, .int n)]).Allow ⟨.skip, .left, n, h⟩ where
  unknownCharacters := rfl
  associativity := rfl
  intBits := by
    show readIntBits (.int n) = .ok ⟨n, h⟩
    have htwo : (2 : Int) ≤ n := Int.ofNat_le.mpr h
    simp [readIntBits, readInteger, htwo]

/-- A variable that stands for no width does no harm under an override. -/
theorem load_of_masked_variable :
    load [("ARITHTREE_INT_BITS", "wide")] [("int_bits", .int 8)] = .ok { intBits := 8 } := by
  obtain ⟨-, -, -, -, hmasked, -⟩ := load_spec [("ARITHTREE_INT_BITS", "wide")] [("int_bits", .int 8)]
  have hload : load [("ARITHTREE_INT_BITS", "wide")] [("int_bits", .int 8)] =
      load [] [("int_bits", .int 8)] := by
    refine hmasked [] fun s hs => ?_
    cases s with
    | unknownCharacters | associativity => rfl
    | intBits => exact absurd ⟨.int 8, rfl, nofun⟩ hs
  exact hload.trans (load_eq_ok_iff.mpr ⟨allow_of_width (n := 8) (by decide), rfl, by decide⟩)

theorem load_of_long_numeral {text : String} (h : Decimal.IsNumeral text.toList)
    (hzero : text.toList.head? ≠ some '0') (hlong : Decimal.digitLimit < text.length) :
    load [("ARITHTREE_INT_BITS", text)] [] = .error (.invalid [⟨"int_bits", .tooLongText⟩]) := by
  have heffective : effective? [("ARITHTREE_INT_BITS", text)] [] .intBits = some (.text text) :=
    (ofVariable_of_isNumeral h : ofVariable text = some (.text text))
  have hdetails : (verdicts [("ARITHTREE_INT_BITS", text)] []).details = [⟨"int_bits", .tooLongText⟩] := by
    simp only [Verdicts.details, verdicts, heffective, verdict, readIntBits_of_long h hzero hlong]
    rfl
  refine load_eq_invalid_iff.mpr ⟨nofun, ?_⟩
  rw [hdetails]
  rfl

/-- A width with a point and nothing after it is refused, and so is one of two or more that is given in too
many digits.  Given as an integer of as many digits it is valid, but no configuration is loaded, and no detail
is there to tell why. -/
theorem load_of_wide :
    load [("ARITHTREE_INT_BITS", "8.")] [] = .error (.invalid [⟨"int_bits", .notAnIntegerText⟩]) ∧
    (Decimal.IsNumeral (List.replicate 4301 '1') ∧ 2 ≤ Decimal.value (List.replicate 4301 '1') ∧
      ∀ c, load [("ARITHTREE_INT_BITS", String.ofList (List.replicate 4301 '1'))] [] ≠ .ok c) ∧
    ((∃ n, readIntBits (.int Decimal.writeBound) = .ok n) ∧
      (∀ c, load [] [("int_bits", .int Decimal.writeBound)] ≠ .ok c) ∧
      ∀ ds, load [] [("int_bits", .int Decimal.writeBound)] ≠ .error (.invalid ds)) := by
  refine ⟨by decide +kernel, ?_, ?_⟩
  · have hnumeral : Decimal.IsNumeral (List.replicate 4301 '1') := by
      refine ⟨List.cons_ne_nil '1' (List.replicate 4300 '1'), fun x hx => ?_⟩
      rw [List.eq_of_mem_replicate hx]
      rfl
    have hvalue : 2 ≤ Decimal.value (List.replicate 4301 '1') :=
      calc 2 ≤ 10 ^ 1 := by decide
        _ ≤ 10 ^ (List.replicate 4300 '1').length :=
          Nat.pow_le_pow_right (by decide) (List.length_replicate ▸ by decide)
        _ ≤ Decimal.value ('1' :: List.replicate 4300 '1') :=
          Decimal.pow_le_value (by decide) (by decide) (List.replicate 4300 '1')
    refine ⟨hnumeral, hvalue, fun c hload => ?_⟩
    have hhead : (List.replicate 4301 '1').head? ≠ some '0' := by decide
    have hlong : Decimal.digitLimit < (List.replicate 4301 '1').length :=
      List.length_replicate ▸ by decide
    rw [load_of_long_numeral (by rwa [String.toList_ofList]) (by rwa [String.toList_ofList])
      (by rwa [← String.length_toList, String.toList_ofList])] at hload
    cases hload
  · have hlong : ¬ Writable Decimal.writeBound := by
      rw [Writable, Int.natAbs_natCast]
      exact Nat.lt_irrefl _
    have htwo := Decimal.two_le_writeBound
    -- nothing is to compute the number
    generalize Decimal.writeBound = n at hlong htwo ⊢
    have hallow := allow_of_width htwo
    have hload : load [] [("int_bits", .int n)] = .error (.limit .writing) :=
      load_eq_limit_iff.mpr ⟨rfl, _, hallow, rfl, hlong⟩
    refine ⟨⟨_, hallow.intBits⟩, fun c h => ?_, fun ds h => ?_⟩
    · cases hload.symm.trans h
    · cases hload.symm.trans h

end IntExpr
