import IntExpr.Location
import Mathlib.Algebra.BigOperators.Group.List.Basic
import Mathlib.Algebra.GroupWithZero.Nat
import Mathlib.Data.Set.Function

/-!
# Places — the lines of a text, and where its offsets lie in them

A text is cut into lines at its newlines, and each offset of the text, the one at its end included, lies
in one line at one column; behind the last character of a line there is one column more, that of the
newline or of the end.  `Location.ofOffset` looks for newlines to the left and to the right of an offset
and never cuts the text.  It finds the line and the column all the same (`ofOffset_bijOn`).

* `IsLine`: a line, with what stands before and after it.
* `LiesAt`: an offset, its line and its column.
* `exists_liesAt`: where `Location.ofOffset` says that an offset lies, it lies.
* `LiesAt.unique`: no other offset lies there, and the offset lies nowhere else.
-/

namespace IntExpr

variable {cs before text text' after : List Char} {n n' k k' p : Nat} {x : Char}

/-- The lines of a text.  A newline ends a line, and nothing else does. -/
def lines (source : String) : List String := (source.toList.splitOn '\n').map String.ofList

def lineStart (ls : List (List Char)) (n : Nat) : Nat := ((ls.take n).map fun l => l.length + 1).sum

/-! ### Cutting at newlines -/

theorem length_splitOn (cs : List Char) : (cs.splitOn '\n').length = cs.count '\n' + 1 := by
  induction cs with
  | nil => rfl
  | cons c cs ih =>
    by_cases hc : c = '\n'
    · subst hc
      simp [List.splitOn_cons_eq_if_modifyHead, ih]
    · simp [List.splitOn_cons_eq_if_modifyHead, hc, ih]

/-- The lines take up the whole text, with one place for the end of each. -/
theorem sum_splitOn (cs : List Char) :
    ((cs.splitOn '\n').map fun l => l.length + 1).sum = cs.length + 1 := by
  induction cs with
  | nil => rfl
  | cons c cs ih =>
    by_cases hc : c = '\n'
    · subst hc
      simp [List.splitOn_cons_eq_if_modifyHead, ih]
      omega
    · obtain ⟨l, ls, hls⟩ := List.exists_cons_of_ne_nil (List.splitOn_ne_nil '\n' cs)
      rw [hls, List.map_cons, List.sum_cons] at ih
      have hcut : (c :: cs).splitOn '\n' = (c :: l) :: ls := by
        simp [List.splitOn_cons_eq_if_modifyHead, hc, hls]
      rw [hcut, List.map_cons, List.sum_cons, List.length_cons, List.length_cons]
      omega

/-- `text` is a line of the characters `cs`, between what stands before it and what stands after it. -/
structure IsLine (cs before text after : List Char) : Prop where
  split : cs = before ++ (text ++ after)
  unbroken : '\n' ∉ text
  begins : before = [] ∨ ∃ bs, before = bs ++ ['\n']
  ends : after = [] ∨ ∃ ds, after = '\n' :: ds

/-- A line is among the lines of the text, after those that stand before it. -/
theorem IsLine.splitOn (h : IsLine cs before text after) :
    ∃ ls ls', cs.splitOn '\n' = ls ++ text :: ls' ∧ ls.length = before.count '\n' ∧
      (ls.map fun l => l.length + 1).sum = before.length := by
  obtain ⟨rfl, hunbroken, hbegins, hends⟩ := h
  have hrest : ∃ ls', (text ++ after).splitOn '\n' = text :: ls' := by
    rcases hends with rfl | ⟨ds, rfl⟩
    · exact ⟨[], by rw [List.append_nil, List.splitOn_eq_singleton hunbroken]⟩
    · exact ⟨_, List.splitOn_append_cons_self_of_not_mem hunbroken ds⟩
  obtain ⟨ls', hls'⟩ := hrest
  rcases hbegins with rfl | ⟨bs, rfl⟩
  · exact ⟨[], ls', hls', rfl, rfl⟩
  · refine ⟨bs.splitOn '\n', ls', ?_, ?_, ?_⟩
    · rw [List.append_assoc, List.singleton_append, List.splitOn_append_cons_self, hls']
    · rw [length_splitOn, List.count_append]
      rfl
    · rw [sum_splitOn, List.length_append]
      rfl

/-- What stands at a column of a line; behind its last character that is no character but a newline. -/
theorem IsLine.getElem?_iff (h : IsLine cs before text after) (hk : k ≤ text.length) :
    text[k]? = some x ↔ cs[before.length + k]? = some x ∧ x ≠ '\n' := by
  obtain ⟨rfl, hunbroken, -, hends⟩ := h
  rw [List.getElem?_append_right (Nat.le_add_right _ _), Nat.add_sub_cancel_left]
  rcases Nat.lt_or_eq_of_le hk with hlt | rfl
  · rw [List.getElem?_append_left hlt]
    refine ⟨fun hget => ⟨hget, ?_⟩, fun hget => hget.1⟩
    rintro rfl
    exact hunbroken (List.mem_of_getElem? hget)
  · rw [List.getElem?_append_right (Nat.le_refl _), Nat.sub_self, List.getElem?_eq_none (Nat.le_refl _)]
    refine ⟨nofun, ?_⟩
    rintro ⟨hget, hx⟩
    rcases hends with rfl | ⟨ds, rfl⟩
    · cases hget
    · exact absurd (Option.some.inj hget).symm hx

/-! ### The line of an offset -/

/-- What comes before the last line of a text ends in a newline, if it is anything at all. -/
theorem exists_before_lastLine (cs : List Char) :
    ∃ before, cs = before ++ Location.lastLine cs ∧ (before = [] ∨ ∃ bs, before = bs ++ ['\n']) := by
  have hsplit : cs.reverse.takeWhile (· ≠ '\n') ++ cs.reverse.dropWhile (· ≠ '\n') = cs.reverse :=
    List.takeWhile_append_dropWhile
  have hhead := List.head?_dropWhile_not (fun c => decide (c ≠ '\n')) cs.reverse
  refine ⟨(cs.reverse.dropWhile (· ≠ '\n')).reverse, ?_, ?_⟩
  · rw [Location.lastLine, ← List.reverse_append, hsplit, List.reverse_reverse]
  · cases hrest : cs.reverse.dropWhile (· ≠ '\n') with
    | nil => exact .inl rfl
    | cons d ds =>
      rw [hrest] at hhead
      obtain rfl : d = '\n' := by simpa using hhead
      exact .inr ⟨ds.reverse, List.reverse_cons⟩

theorem exists_after_firstLine (cs : List Char) :
    ∃ after, cs = Location.firstLine cs ++ after ∧ (after = [] ∨ ∃ ds, after = '\n' :: ds) := by
  have hhead := List.head?_dropWhile_not (fun c => decide (c ≠ '\n')) cs
  refine ⟨cs.dropWhile (· ≠ '\n'), List.takeWhile_append_dropWhile.symm, ?_⟩
  cases hrest : cs.dropWhile (· ≠ '\n') with
  | nil => exact .inl rfl
  | cons d ds =>
    rw [hrest] at hhead
    obtain rfl : d = '\n' := by simpa using hhead
    exact .inr ⟨ds, rfl⟩

/-- The characters to the left of an offset up to a newline and those to the right of it up to a newline
are a line. -/
theorem exists_isLine (cs : List Char) (p : Nat) :
    ∃ before after, cs.take p = before ++ Location.lastLine (cs.take p) ∧
      IsLine cs before (Location.lastLine (cs.take p) ++ Location.firstLine (cs.drop p)) after := by
  obtain ⟨before, hbefore, hbegins⟩ := exists_before_lastLine (cs.take p)
  obtain ⟨after, hafter, hends⟩ := exists_after_firstLine (cs.drop p)
  refine ⟨before, after, hbefore, ?_, ?_, hbegins, hends⟩
  · rw [List.append_assoc, ← hafter, ← List.append_assoc, ← hbefore, List.take_append_drop]
  · rw [List.mem_append, not_or]
    exact ⟨Location.newline_not_mem_lastLine _, Location.newline_not_mem_firstLine _⟩

/-- The offset `p` lies in line number `n` of the characters `cs`, which is `text`, at column `k` of that
line; line and column are counted from zero. -/
structure LiesAt (cs : List Char) (p n k : Nat) (text : List Char) : Prop where
  line : (cs.splitOn '\n')[n]? = some text
  column : k ≤ text.length
  offset : lineStart (cs.splitOn '\n') n + k = p
  /-- A character at the column is that at the offset, if that is no newline. -/
  char : ∀ x, text[k]? = some x ↔ cs[p]? = some x ∧ x ≠ '\n'

/-- An offset lies where the newlines to its left and to its right say. -/
theorem liesAt_of_le (hp : p ≤ cs.length) :
    LiesAt cs p ((cs.take p).count '\n') (Location.lastLine (cs.take p)).length
      (Location.lastLine (cs.take p) ++ Location.firstLine (cs.drop p)) := by
  obtain ⟨before, after, hbefore, hline⟩ := exists_isLine cs p
  obtain ⟨ls, ls', hcut, hlength, hsum⟩ := hline.splitOn
  have hnone : (Location.lastLine (cs.take p)).count '\n' = 0 :=
    List.count_eq_zero.mpr (Location.newline_not_mem_lastLine _)
  -- the newlines in front of the offset all stand before its line
  have hcount : (cs.take p).count '\n' = ls.length := by
    have htake := congrArg (List.count '\n') hbefore
    rw [List.count_append, hnone] at htake
    omega
  have hoffset : before.length + (Location.lastLine (cs.take p)).length = p := by
    have htake := congrArg List.length hbefore
    rw [List.length_take, List.length_append] at htake
    omega
  have hcolumn : (Location.lastLine (cs.take p)).length ≤
      (Location.lastLine (cs.take p) ++ Location.firstLine (cs.drop p)).length := by
    rw [List.length_append]
    exact Nat.le_add_right _ _
  refine ⟨?_, hcolumn, ?_, fun x => ?_⟩
  · rw [hcut, hcount, List.getElem?_append_right (Nat.le_refl _), Nat.sub_self]
    rfl
  · rw [lineStart, hcut, hcount, List.take_left, hsum, hoffset]
  · rw [hline.getElem?_iff hcolumn, hoffset]

/-- Every location is that of an offset in the text. -/
theorem exists_liesAt (source : String) (pos : Int) :
    ∃ n k text, LiesAt source.toList (Location.clamp source.length pos) n k text ∧
      Location.ofOffset source pos = ⟨n + 1, k + 1, some (String.ofList text)⟩ := by
  refine ⟨_, _, _, liesAt_of_le ?_, ?_⟩
  · rw [String.length_toList]
    exact Location.clamp_le _ _
  · rw [← String.length_toList]
    rfl

/-! ### One offset for each place -/

theorem lineStart_succ {ls : List (List Char)} (h : ls[n]? = some text) :
    lineStart ls (n + 1) = lineStart ls n + (text.length + 1) := by
  rw [lineStart, List.take_add_one, h, List.map_append, List.sum_append]
  simp [lineStart]

theorem lineStart_mono (ls : List (List Char)) (h : n ≤ n') : lineStart ls n ≤ lineStart ls n' := by
  obtain ⟨m, rfl⟩ := Nat.exists_eq_add_of_le h
  rw [lineStart, lineStart, List.take_add, List.map_append, List.sum_append]
  omega

theorem lineStart_add_lt {ls : List (List Char)} (h : ls[n]? = some text) (hk : k ≤ text.length)
    (hn : n < n') : lineStart ls n + k < lineStart ls n' := by
  have hle := lineStart_mono ls (Nat.succ_le_of_lt hn)
  rw [lineStart_succ h] at hle
  omega

theorem lineStart_add_le (h : (cs.splitOn '\n')[n]? = some text) (hk : k ≤ text.length) :
    lineStart (cs.splitOn '\n') n + k ≤ cs.length := by
  obtain ⟨hn, -⟩ := List.getElem?_eq_some_iff.mp h
  have hlt := lineStart_add_lt h hk hn
  have hall : lineStart (cs.splitOn '\n') (cs.splitOn '\n').length = cs.length + 1 := by
    rw [lineStart, List.take_length, sum_splitOn]
  omega

/-- An offset lies in one line, at one column. -/
theorem LiesAt.unique (h : LiesAt cs p n k text) (hline : (cs.splitOn '\n')[n']? = some text')
    (hk : k' ≤ text'.length) (hoffset : lineStart (cs.splitOn '\n') n' + k' = p) : n = n' ∧ k = k' := by
  have hstart := h.offset
  rcases Nat.lt_trichotomy n n' with hlt | rfl | hgt
  · have hbefore := lineStart_add_lt h.line h.column hlt
    omega
  · omega
  · have hafter := lineStart_add_lt hline hk hgt
    omega

/-! ### Locations -/

theorem getElem?_lines {source : String} {line : String} :
    (lines source)[n]? = some line ↔ (source.toList.splitOn '\n')[n]? = some line.toList := by
  rw [lines, List.getElem?_map, Option.map_eq_some_iff]
  constructor
  · rintro ⟨text, htext, rfl⟩
    rw [htext, String.toList_ofList]
  · intro h
    exact ⟨_, h, String.ofList_toList⟩

theorem sum_take_lines (source : String) (n : Nat) :
    (((lines source).take n).map fun line => line.length + 1).sum =
      lineStart (source.toList.splitOn '\n') n := by
  simp [lines, lineStart, List.map_take, Function.comp_def]

/-- **Offsets and places.**  Whatever offset is asked for, the location is that of the offset moved into
the text: it gives a line, with the text of that line, and a column of it, and as many characters as the
offset counts stand before that column, newlines included.  And there is one offset for each line and
column. -/
theorem ofOffset_bijOn (source : String) :
    (∀ pos : Int, ∃ (n k : Nat) (text : String),
      Location.ofOffset source pos = { line := n + 1, column := k + 1, snippet := some text } ∧
      (lines source)[n]? = some text ∧ k ≤ text.length ∧
      (((((lines source).take n).map fun line => line.length + 1).sum + k : Nat) : Int) =
        max 0 (min pos source.length)) ∧
    Set.BijOn (fun p : Nat => ((Location.ofOffset source p).line, (Location.ofOffset source p).column))
      {p | p ≤ source.length}
      {place | ∃ (n k : Nat) (text : String), (lines source)[n]? = some text ∧ k ≤ text.length ∧
        place = ((n : Int) + 1, (k : Int) + 1)} := by
  refine ⟨fun pos => ?_, Set.BijOn.mk ?_ ?_ ?_⟩
  · obtain ⟨n, k, text, hlies, hplace⟩ := exists_liesAt source pos
    refine ⟨n, k, String.ofList text, hplace, ?_, ?_, ?_⟩
    · rw [getElem?_lines, String.toList_ofList]
      exact hlies.line
    · rw [String.length_ofList]
      exact hlies.column
    · rw [sum_take_lines, hlies.offset, Location.clamp]
      omega
  · intro p hp
    obtain ⟨n, k, text, hlies, hplace⟩ := exists_liesAt source p
    refine ⟨n, k, String.ofList text, ?_, ?_, ?_⟩
    · rw [getElem?_lines, String.toList_ofList]
      exact hlies.line
    · rw [String.length_ofList]
      exact hlies.column
    · simp only [hplace]
  · intro p hp q hq heq
    obtain ⟨n, k, text, hlies, hplace⟩ := exists_liesAt source p
    obtain ⟨n', k', text', hlies', hplace'⟩ := exists_liesAt source q
    rw [Location.clamp_of_le hp] at hlies
    rw [Location.clamp_of_le hq] at hlies'
    simp only [hplace, hplace', Prod.mk.injEq] at heq
    obtain ⟨rfl, rfl⟩ : n = n' ∧ k = k' := by omega
    rw [← hlies.offset, ← hlies'.offset]
  · rintro place ⟨n, k, text, hline, hk, rfl⟩
    rw [getElem?_lines] at hline
    rw [← String.length_toList] at hk
    have hle := lineStart_add_le hline hk
    rw [String.length_toList] at hle
    obtain ⟨n', k', text', hlies, hplace⟩ :=
      exists_liesAt source (lineStart (source.toList.splitOn '\n') n + k : Nat)
    rw [Location.clamp_of_le hle] at hlies
    obtain ⟨rfl, rfl⟩ := hlies.unique hline hk rfl
    refine ⟨_, hle, ?_⟩
    simp only [hplace]

end IntExpr
