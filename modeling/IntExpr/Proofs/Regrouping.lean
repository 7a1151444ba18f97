import IntExpr.Proofs.Inorder

/-!
# Regrouping — powers that group to the left, and to the right

A text is refused for the same reason to whichever side powers group, and if it has a tree, its two trees
have the same reading.  They differ if and only if somewhere factors are joined by more than one power
operator (`HasLongChain`).

`PowerScan` looks for such chains from left to right, and needs no tree for it.

* `PowerChain.scan_eq_none`: no scan comes through a long chain, wherever it starts.
* `exists_regroups`: where the two trees of a phrase differ there is a long chain, and where they do not a
  scan comes through.
* `parseReport_regroups`: the outcome for whole texts.
-/

namespace IntExpr

variable {limit : Nat} {a b : Associativity} {ph : Phrase} {o : BinOp} {c : Config} {source : String} {n : Nat}
  {ss us chain : List Symbol} {e e' l r l₁ l₂ r₁ r₂ : Expr}

/-! ### Chains of powers -/

def IsFactor (ss : List Symbol) : Prop := ∃ a e, Derives a .factor ss e

/-- The symbols are those of factors that are joined by `n` power operators. -/
inductive PowerChain : Nat → List Symbol → Prop
  | factor {ss : List Symbol} : IsFactor ss → PowerChain 0 ss
  | link {n : Nat} {ss us : List Symbol} :
    IsFactor ss → PowerChain n us → PowerChain (n + 1) (ss ++ .op .pow :: us)

/-- Somewhere stands a chain of two or more power operators. -/
def HasLongChain (ss : List Symbol) : Prop :=
  ∃ n chain, 2 ≤ n ∧ PowerChain n chain ∧ chain <:+: ss

theorem HasLongChain.mono (h : HasLongChain ss) (hin : ss <:+: us) : HasLongChain us := by
  obtain ⟨n, chain, hn, hchain, hss⟩ := h
  exact ⟨n, chain, hn, hchain, hss.trans hin⟩

theorem PowerChain.snoc (h : PowerChain n ss) (hus : IsFactor us) :
    PowerChain (n + 1) (ss ++ .op .pow :: us) := by
  induction h with
  | factor hss => exact .link hss (.factor hus)
  | link hvs _ ih =>
    rw [List.append_assoc]
    exact .link hvs ih

theorem eq_pow_of_level (h : o.level = .power) : o = .pow := by
  cases o <;> first | rfl | cases h

/-- The chains of powers that the grammar knows are such chains. -/
theorem powerChain_of_derives (h : Derives a (.chain .power) ss e) : ∃ n, PowerChain n ss := by
  generalize hph : Phrase.chain .power = ph at h
  induction h with
  | single hss _ =>
    obtain rfl := Phrase.chain.inj hph
    exact ⟨0, .factor ⟨a, _, hss⟩⟩
  | linkLeft _ _ hr ihl _ =>
    obtain rfl := eq_pow_of_level (Phrase.chain.inj hph).symm
    obtain ⟨n, hn⟩ := ihl rfl
    exact ⟨n + 1, hn.snoc ⟨a, _, hr⟩⟩
  | linkRight _ hl _ _ ihr =>
    obtain rfl := eq_pow_of_level (Phrase.chain.inj hph).symm
    obtain ⟨n, hn⟩ := ihr rfl
    exact ⟨n + 1, .link ⟨a, _, hl⟩ hn⟩
  | plus | minus | number | paren => cases hph

/-! ### A scan for long chains -/

/-- Where a scan for long chains is: `leads` says that an operand comes next, or a sign before one,
`linked` that the chain at hand has its power operator, and `outer` the same of the chains around the
open parentheses, the innermost first. -/
structure PowerScan where
  leads : Bool
  linked : Bool
  outer : List Bool
  deriving DecidableEq, Repr

namespace PowerScan

/-- Go over one symbol; a second power operator in a chain ends the scan. -/
def step (q : PowerScan) : Symbol → Option PowerScan
  | .number _ => some { q with leads := false }
  | .op .pow => if q.linked then none else some { q with leads := true, linked := true }
  | .op o => if q.leads ∧ o.level = .sum then some q else some ⟨true, false, q.outer⟩
  | .leftParen => some ⟨true, false, q.linked :: q.outer⟩
  | .rightParen => some ⟨false, q.outer.headD false, q.outer.tail⟩
  | .newline | .finish => some q

def run (q : PowerScan) (ss : List Symbol) : Option PowerScan := ss.foldlM step q

variable {q q' q₁ q₂ : PowerScan} {s : Symbol} {linked : Bool} {outer : List Bool}

theorem run_append_eq_some_iff : run q (ss ++ us) = some q' ↔
    ∃ q₁, run q ss = some q₁ ∧ run q₁ us = some q' := by
  rw [run, List.foldlM_append]
  exact Option.bind_eq_some_iff

theorem run_cons_eq_some_iff : run q (s :: ss) = some q' ↔
    ∃ q₁, step q s = some q₁ ∧ run q₁ ss = some q' := by
  rw [run, List.foldlM_cons]
  exact Option.bind_eq_some_iff

theorem run_link (hl : run q ss = some q₁) (hop : step q₁ (.op o) = some q₂)
    (hr : run q₂ us = some q') : run q (ss ++ .op o :: us) = some q' :=
  run_append_eq_some_iff.mpr ⟨q₁, hl, run_cons_eq_some_iff.mpr ⟨q₂, hop, hr⟩⟩

theorem run_end (q : PowerScan) (n : Nat) :
    run q (List.replicate n .newline ++ [.finish]) = some q := by
  induction n with
  | zero => rfl
  | succ n ih => exact ih

theorem step_op (h : step ⟨false, linked, outer⟩ (.op o) = some q) :
    ∃ linked', q = ⟨true, linked', outer⟩ := by
  cases o with
  | pow =>
    cases linked with
    | true => cases h
    | false => exact ⟨true, (Option.some.inj h).symm⟩
  | add | sub | mul | div | mod => exact ⟨false, (Option.some.inj h).symm⟩

theorem step_op_of_ne (ho : o ≠ .pow) :
    step ⟨false, linked, outer⟩ (.op o) = some ⟨true, false, outer⟩ := by
  cases o with
  | pow => exact absurd rfl ho
  | add | sub | mul | div | mod => rfl

end PowerScan

open PowerScan (run step run_append_eq_some_iff run_cons_eq_some_iff run_link)

variable {q : PowerScan} {linked : Bool} {outer : List Bool}

/-- Over a phrase a scan leaves the chains around it as they were, and a factor leaves the chain that it
stands in as it was. -/
theorem Derives.scan_keeps (h : Derives a ph ss e) (hrun : run ⟨true, linked, outer⟩ ss = some q) :
    ∃ linked', q = ⟨false, linked', outer⟩ ∧ (ph = .factor → linked' = linked) := by
  induction h generalizing linked outer q with
  | single _ ih =>
    obtain ⟨linked', hq, -⟩ := ih hrun
    exact ⟨linked', hq, nofun⟩
  | linkLeft _ _ _ ihl ihr | linkRight _ _ _ ihl ihr =>
    obtain ⟨q₁, hl, hrest⟩ := run_append_eq_some_iff.mp hrun
    obtain ⟨q₂, hop, hr⟩ := run_cons_eq_some_iff.mp hrest
    obtain ⟨linked₁, rfl, -⟩ := ihl hl
    obtain ⟨linked₂, rfl⟩ := PowerScan.step_op hop
    obtain ⟨linked', hq, -⟩ := ihr hr
    exact ⟨linked', hq, nofun⟩
  | plus _ ih | minus _ ih => exact ih hrun
  | number digits => exact ⟨linked, (Option.some.inj hrun).symm, fun _ => rfl⟩
  | paren _ ih =>
    obtain ⟨q₁, hopen, hrest⟩ := run_cons_eq_some_iff.mp hrun
    obtain rfl := Option.some.inj hopen
    obtain ⟨q₂, hinner, hclose⟩ := run_append_eq_some_iff.mp hrest
    obtain ⟨linked', rfl, -⟩ := ih hinner
    exact ⟨linked, (Option.some.inj hclose).symm, fun _ => rfl⟩

theorem PowerChain.scan_eq_none (h : PowerChain n chain) (hn : 2 ≤ n) (q : PowerScan) :
    run q chain = none := by
  refine Option.eq_none_iff_forall_ne_some.mpr fun q' hrun => ?_
  cases h with
  | factor => omega
  | link _ h =>
    cases h with
    | factor => omega
    | link hmid _ =>
      obtain ⟨q₁, -, hrun⟩ := run_append_eq_some_iff.mp hrun
      obtain ⟨q₂, hfirst, hrun⟩ := run_cons_eq_some_iff.mp hrun
      obtain ⟨q₃, hscan, hrun⟩ := run_append_eq_some_iff.mp hrun
      obtain ⟨q₄, hsecond, -⟩ := run_cons_eq_some_iff.mp hrun
      -- between the two operators stands a factor, and so the second one is in the chain of the first
      obtain ⟨leads, linked, outer⟩ := q₁
      cases linked with
      | true => cases hfirst
      | false =>
        obtain rfl := Option.some.inj hfirst
        obtain ⟨a, e, hmid⟩ := hmid
        obtain ⟨linked', rfl, hkeep⟩ := hmid.scan_keeps hscan
        obtain rfl := hkeep rfl
        cases hsecond

/-! ### Two trees of a phrase -/

theorem Derives.inorder_eq (h : Derives a ph ss e) (h' : Derives b ph ss e') : e.inorder = e'.inorder :=
  List.append_cancel_right ((h.desugar_append []).symm.trans (h'.desugar_append []))

/-- A chain that groups to the right and one more factor: if the chain was no more than a factor, the
two are the operands, and otherwise the first operand is shorter than the chain. -/
theorem Derives.snoc_right (h : Derives .right (.chain .power) ss l) (hus : Derives .right .factor us r) :
    ∃ e, Derives .right (.chain .power) (ss ++ .op .pow :: us) e ∧
      (Derives .right .factor ss l ∧ e = .binary .pow l r ∨
        (∃ f g, e = .binary .pow f g ∧ f.inorder.length < l.inorder.length) ∧
          ∃ n, PowerChain (n + 1) ss) := by
  generalize hph : Phrase.chain .power = ph at h
  induction h with
  | single hss _ =>
    obtain rfl := Phrase.chain.inj hph
    exact ⟨_, .linkRight (o := .pow) rfl hss (.single hus), .inl ⟨hss, rfl⟩⟩
  | @linkLeft o _ _ _ _ hside =>
    obtain rfl := eq_pow_of_level (Phrase.chain.inj hph).symm
    cases hside
  | @linkRight o fs gs f g _ hf hg _ ih =>
    obtain rfl := eq_pow_of_level (Phrase.chain.inj hph).symm
    obtain ⟨g', hg', -⟩ := ih rfl
    obtain ⟨n, hn⟩ := powerChain_of_derives hg
    rw [List.append_assoc]
    have hlt : f.inorder.length < (Tree.binary .pow f g).inorder.length := by
      rw [Tree.inorder, List.length_append, List.length_cons]
      omega
    exact ⟨_, .linkRight (o := .pow) rfl hf hg', .inr ⟨⟨f, g', rfl, hlt⟩, n, .link ⟨_, _, hf⟩ hn⟩⟩
  | plus | minus | number | paren => cases hph

/-- The phrase `ss` has the tree `r` if powers group to the right; `l` is its tree if they group to the
left. -/
structure Regroups (ph : Phrase) (ss : List Symbol) (l r : Expr) : Prop where
  derives : Derives .right ph ss r
  /-- If the trees are equal, a scan comes through, for a factor also within a chain that has its
  operator. -/
  quiet : l = r → ∀ linked outer, (linked = true → ph = .factor) →
    ∃ q, run ⟨true, linked, outer⟩ ss = some q
  long : l ≠ r → HasLongChain ss

/-- If two nodes of one operator are not alike, an operand has a long chain. -/
theorem Regroups.long_of_ne {ph₁ ph₂ : Phrase} (h₁ : Regroups ph₁ ss l₁ r₁) (h₂ : Regroups ph₂ us l₂ r₂)
    (hne : Tree.binary o l₁ l₂ ≠ .binary o r₁ r₂) : HasLongChain (ss ++ .op o :: us) := by
  by_cases heq : l₁ = r₁
  · have hne₂ : l₂ ≠ r₂ := fun heq₂ => hne (by rw [heq, heq₂])
    exact (h₂.long hne₂).mono ((List.suffix_cons _ us).trans (List.suffix_append ss _)).isInfix
  · exact (h₁.long heq).mono (List.prefix_append ss _).isInfix

theorem Regroups.link (ho : o ≠ .pow) (hside : Associativity.right.side o.level = .left)
    (h₁ : Regroups (.chain o.level) ss l₁ r₁) (h₂ : Regroups o.level.joined us l₂ r₂) :
    Regroups (.chain o.level) (ss ++ .op o :: us) (.binary o l₁ l₂) (.binary o r₁ r₂) where
  derives := .linkLeft hside h₁.derives h₂.derives
  quiet heq linked outer hlinked := by
    obtain ⟨-, rfl, rfl⟩ := Tree.binary.inj heq
    obtain ⟨q₁, hl⟩ := h₁.quiet rfl linked outer hlinked
    obtain ⟨linked₁, rfl, -⟩ := h₁.derives.scan_keeps hl
    obtain ⟨q₂, hr⟩ := h₂.quiet rfl false outer nofun
    exact ⟨q₂, run_link hl (PowerScan.step_op_of_ne ho) hr⟩
  long hne := h₁.long_of_ne h₂ hne

theorem Regroups.power (hss : Derives .right .factor ss r₁) (h₁ : Regroups (.chain .power) ss l₁ r₁)
    (h₂ : Regroups .factor us l₂ r₂) :
    Regroups (.chain .power) (ss ++ .op .pow :: us) (.binary .pow l₁ l₂) (.binary .pow r₁ r₂) where
  derives := .linkRight (o := .pow) rfl hss (.single h₂.derives)
  quiet heq linked outer hlinked := by
    obtain ⟨-, rfl, rfl⟩ := Tree.binary.inj heq
    obtain rfl : linked = false := Bool.eq_false_iff.mpr fun htrue => nomatch hlinked htrue
    obtain ⟨q₁, hl⟩ := h₁.quiet rfl false outer hlinked
    obtain ⟨linked₁, rfl, hkeep⟩ := hss.scan_keeps hl
    obtain rfl := hkeep rfl
    obtain ⟨q₂, hr⟩ := h₂.quiet rfl true outer fun _ => rfl
    exact ⟨q₂, run_link hl rfl hr⟩
  long hne := h₁.long_of_ne h₂ hne

/-- A chain of powers and one more factor. -/
theorem Regroups.snoc (hl : Derives .left (.chain .power) ss l₁) (h₁ : Regroups (.chain .power) ss l₁ r₁)
    (h₂ : Regroups .factor us l₂ r₂) :
    ∃ r, Regroups (.chain .power) (ss ++ .op .pow :: us) (.binary .pow l₁ l₂) r := by
  obtain ⟨e, he, ⟨hss, rfl⟩ | ⟨⟨f, g, rfl, hlt⟩, n, hn⟩⟩ := h₁.derives.snoc_right h₂.derives
  · exact ⟨_, .power hss h₁ h₂⟩
  · have hne : Tree.binary .pow l₁ l₂ ≠ .binary .pow f g := by
      intro heq
      obtain ⟨-, rfl, -⟩ := Tree.binary.inj heq
      rw [hl.inorder_eq h₁.derives] at hlt
      exact absurd hlt (Nat.lt_irrefl _)
    have hlong : PowerChain (n + 2) (ss ++ .op .pow :: us) := hn.snoc ⟨_, _, h₂.derives⟩
    exact ⟨_, he, fun heq => absurd heq hne, fun _ => ⟨n + 2, _, by omega, hlong, List.infix_rfl⟩⟩

/-- **Every phrase has a tree to either side**, and where the two differ there is a long chain. -/
theorem exists_regroups (h : Derives .left ph ss l) : ∃ r, Regroups ph ss l r := by
  induction h with
  | single _ ih =>
    obtain ⟨r, hr⟩ := ih
    refine ⟨r, .single hr.derives, fun heq linked outer hlinked => ?_, hr.long⟩
    exact hr.quiet heq linked outer fun htrue => nomatch hlinked htrue
  | @linkLeft o _ _ _ _ _ hl _ ihl ihr =>
    obtain ⟨r₁, h₁⟩ := ihl
    obtain ⟨r₂, h₂⟩ := ihr
    cases o with
    | pow => exact Regroups.snoc hl h₁ h₂
    | add | sub | mul | div | mod => exact ⟨_, .link nofun rfl h₁ h₂⟩
  | @linkRight o _ _ _ _ hside => cases o <;> cases hside
  | plus _ ih =>
    obtain ⟨r, hr⟩ := ih
    exact ⟨r, hr.derives.plus, fun heq linked outer _ => hr.quiet heq linked outer fun _ => rfl,
      fun hne => (hr.long hne).mono (List.suffix_cons _ _).isInfix⟩
  | minus _ ih =>
    obtain ⟨r, hr⟩ := ih
    refine ⟨_, hr.derives.minus, fun heq linked outer _ => ?_, fun hne => ?_⟩
    · exact hr.quiet (Tree.binary.inj heq).2.2 linked outer fun _ => rfl
    · exact (hr.long fun heq => hne (heq ▸ rfl)).mono (List.suffix_cons _ _).isInfix
  | number digits => exact ⟨_, .number digits, fun _ linked outer _ => ⟨_, rfl⟩, fun hne => absurd rfl hne⟩
  | @paren ss _ _ ih =>
    obtain ⟨r, hr⟩ := ih
    refine ⟨r, hr.derives.paren, fun heq linked outer _ => ?_, fun hne => ?_⟩
    · obtain ⟨q, hq⟩ := hr.quiet heq false (linked :: outer) nofun
      exact ⟨_, run_cons_eq_some_iff.mpr ⟨_, rfl, run_append_eq_some_iff.mpr ⟨q, hq, rfl⟩⟩⟩
    · exact (hr.long hne).mono ((List.prefix_append ss _).isInfix.trans (List.suffix_cons _ _).isInfix)

/-! ### Two trees of a text -/

theorem DerivesText.exists_regrouped (h : DerivesText .left ss l) :
    ∃ r, DerivesText .right ss r ∧ (l = r ↔ ¬ HasLongChain ss) := by
  obtain ⟨body, n, hbody, rfl⟩ := h
  obtain ⟨r, hr⟩ := exists_regroups hbody
  rw [List.append_assoc]
  refine ⟨r, ⟨body, n, hr.derives, (List.append_assoc ..).symm⟩, fun heq => ?_, fun hno => ?_⟩
  · rintro ⟨k, chain, hk, hchain, pre, post, hin⟩
    obtain ⟨q, hq⟩ := hr.quiet heq false [] nofun
    have hscan := run_append_eq_some_iff.mpr ⟨q, hq, q.run_end n⟩
    rw [← hin, List.append_assoc] at hscan
    obtain ⟨q₁, -, hrest⟩ := run_append_eq_some_iff.mp hscan
    obtain ⟨q₂, hchain', -⟩ := run_append_eq_some_iff.mp hrest
    cases (hchain.scan_eq_none hk q₁).symm.trans hchain'
  · by_contra hne
    exact hno ((hr.long hne).mono (List.prefix_append body _).isInfix)

/-- What is left of two outcomes without their values shows which errors they are. -/
theorem eq_error_of_map_eq {ε α : Type} {x y : Except ε α} {err : ε} (hx : x = .error err)
    (h : x.map (fun _ => ()) = y.map fun _ => ()) : y = .error err := by
  subst hx
  cases y with
  | ok => cases h
  | error err' => exact congrArg Except.error (Except.error.inj h).symm

theorem parse_error_alike {x : ParseError} (a b : Associativity)
    (h : parse limit { c with associativity := a } source = .error x) :
    parse limit { c with associativity := b } source = .error x := by
  have halike := parseTokens_halts_alike limit a b (scan c.unknownCharacters source).tokens
  rw [parse_eq] at h ⊢
  cases ha : parseTokens limit a (scan c.unknownCharacters source).tokens with
  | ok e =>
    rw [ha] at h
    cases h
  | error halt =>
    rw [ha] at h
    rw [eq_error_of_map_eq ha halike]
    exact h

/-- **The side to which powers group decides no more than how they group.**  A text has one report to
either side, or two trees with one reading, which are the same tree if and only if the text has no long
chain of powers. -/
theorem parseReport_regroups (c : Config) (source : String) :
    (∃ d, parseReport limit { c with associativity := .left } source = .error d ∧
      parseReport limit { c with associativity := .right } source = .error d) ∨
    ∃ ts l r, tokenize c.unknownCharacters source = .ok ts ∧
      parseReport limit { c with associativity := .left } source = .ok l ∧
      parseReport limit { c with associativity := .right } source = .ok r ∧
      l.inorder = r.inorder ∧ (l = r ↔ ¬ HasLongChain (ts.map Token.symbol)) := by
  cases hleft : parse limit { c with associativity := .left } source with
  | error x =>
    have hright := parse_error_alike .left .right hleft
    exact .inl ⟨x.diagnostic source, congrArg (Except.mapError _) hleft,
      congrArg (Except.mapError _) hright⟩
  | ok l =>
    obtain ⟨ts, hlex, htext, hfit⟩ := parse_eq_ok_iff_exists.mp hleft
    obtain ⟨r, htext', hiff⟩ := htext.exists_regrouped
    have hright : parse limit { c with associativity := .right } source = .ok r :=
      parse_eq_ok_iff_exists.mpr ⟨ts, hlex, htext', hfit⟩
    exact .inr ⟨ts, l, r, hlex, congrArg (Except.mapError _) hleft, congrArg (Except.mapError _) hright,
      htext.desugar_eq.symm.trans htext'.desugar_eq, hiff⟩

end IntExpr
