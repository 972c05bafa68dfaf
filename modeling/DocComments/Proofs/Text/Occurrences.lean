import DocComments.Proofs.Text.Lines
import Mathlib.Algebra.GroupWithZero.Nat

/-!
# How often a piece stands in a text

`occurrences` counts the places at which a piece stands in a text. A character that is not in the
piece separates the places in front of it from those behind it (`occurrences_append_cons`). So a
piece without blanks stands as often in a text as on its lines, trimmed or not
(`sum_occurrences_lines`, `occurrences_trim`), and as often in joined lines as on these lines
(`occurrences_joinLines`). What is not blank is therefore neither lost nor gained: `count_trim` and
its neighbours count a character before and after.
-/

set_option autoImplicit false

namespace DocComments

namespace Text

/-- The number of places at which a piece stands in a text. -/
def occurrences (p t : Text) : Nat := t.tails.countP fun rest => p.isPrefixOf rest

variable {c : Char} {p s t w : Text}

theorem occurrences_cons (p t : Text) (c : Char) :
    occurrences p (c :: t) = occurrences p t + if p.isPrefixOf (c :: t) then 1 else 0 := by
  rw [occurrences, List.tails, List.countP_cons, occurrences]

theorem occurrences_nil (hp : p ≠ []) : occurrences p [] = 0 := by
  cases p with
  | nil => exact absurd rfl hp
  | cons c p => rfl

/-- A piece is counted if it stands anywhere. -/
theorem occurrences_eq_zero_iff (hp : p ≠ []) : occurrences p t = 0 ↔ ¬ p <:+: t := by
  induction t with
  | nil =>
    rw [occurrences_nil hp, List.infix_nil]
    exact iff_of_true rfl hp
  | cons c t ih =>
    rw [occurrences_cons, Nat.add_eq_zero_iff, ih, List.infix_cons_iff, not_or, and_comm,
      ← List.isPrefixOf_iff_prefix]
    simp

/-! ## Separators -/

/-- A piece stands in front of a separator or behind it. -/
theorem occurrences_append_cons (hp : p ≠ []) (hc : c ∉ p) (s t : Text) :
    occurrences p (s ++ c :: t) = occurrences p s + occurrences p t := by
  induction s with
  | nil =>
    have hfront : p.isPrefixOf (c :: t) = false := by
      refine eq_false_of_ne_true fun h => hp ?_
      rw [List.isPrefixOf_iff_prefix, ← List.nil_append (c :: t), prefix_append_cons_iff hc] at h
      exact List.prefix_nil.mp h
    rw [List.nil_append, occurrences_cons, hfront, occurrences_nil hp, Nat.zero_add]
    rfl
  | cons d s ih =>
    have hfront : p.isPrefixOf (d :: s ++ c :: t) = p.isPrefixOf (d :: s) := by
      rw [Bool.eq_iff_iff, List.isPrefixOf_iff_prefix, List.isPrefixOf_iff_prefix,
        prefix_append_cons_iff hc]
    rw [List.cons_append] at hfront ⊢
    rw [occurrences_cons, occurrences_cons, hfront, ih]
    omega

theorem occurrences_cons_of_not_mem (hp : p ≠ []) (hc : c ∉ p) (t : Text) :
    occurrences p (c :: t) = occurrences p t := by
  have h := occurrences_append_cons hp hc [] t
  rwa [List.nil_append, occurrences_nil hp, Nat.zero_add] at h

/-- A piece without line feeds stands as often in joined lines as on these lines. -/
theorem occurrences_joinLines (hp : p ≠ []) (hline : '\n' ∉ p) (ls : List Text) :
    occurrences p (joinLines ls) = (ls.map (occurrences p)).sum := by
  induction ls with
  | nil => exact occurrences_nil hp
  | cons line ls ih =>
    by_cases hnil : ls = []
    · subst hnil
      simp [joinLines]
    · rw [joinLines_cons line hnil, occurrences_append_cons hp hline, ih, List.map_cons,
        List.sum_cons]

/-- A piece stands as often on lines as on what each of them was made of. -/
theorem sum_occurrences_map {f : Text → Text}
    (h : ∀ line, occurrences p (f line) = occurrences p line) (ls : List Text) :
    ((ls.map f).map (occurrences p)).sum = (ls.map (occurrences p)).sum := by
  rw [List.map_map]
  exact congrArg List.sum (List.map_congr_left fun line _ => h line)

/-! ## Blanks -/

section Blank

variable (hp : p ≠ []) (hblank : ∀ c ∈ p, isBlank c = false)

include hp hblank in
theorem occurrences_blank_append (hw : allBlank w = true) (t : Text) :
    occurrences p (w ++ t) = occurrences p t := by
  induction w with
  | nil => rw [List.nil_append]
  | cons c w ih =>
    rw [allBlank, List.all_cons, Bool.and_eq_true] at hw
    have hc : c ∉ p := fun h => absurd hw.1 (by rw [hblank c h]; exact Bool.false_ne_true)
    rw [List.cons_append, occurrences_cons_of_not_mem hp hc, ih hw.2]

include hp hblank in
theorem occurrences_append_blank (hw : allBlank w = true) (t : Text) :
    occurrences p (t ++ w) = occurrences p t := by
  cases w with
  | nil => rw [List.append_nil]
  | cons c w =>
    have hc : c ∉ p := fun h => by
      have := List.all_eq_true.mp hw c List.mem_cons_self
      rw [hblank c h] at this
      cases this
    have hback : allBlank w = true :=
      allBlank_of_subset (List.subset_cons_self c w) hw
    have hnone := occurrences_blank_append hp hblank hback []
    rw [List.append_nil, occurrences_nil hp] at hnone
    rw [occurrences_append_cons hp hc, hnone, Nat.add_zero]

include hp hblank in
theorem occurrences_trimEnd (t : Text) : occurrences p (trimEnd t) = occurrences p t := by
  obtain ⟨w, hw, ht⟩ := exists_trimEnd_append t
  conv_rhs => rw [ht, occurrences_append_blank hp hblank hw]

include hp hblank in
theorem occurrences_trimStart (t : Text) : occurrences p (trimStart t) = occurrences p t := by
  obtain ⟨w, hw, ht⟩ := exists_append_trimStart t
  conv_rhs => rw [ht, occurrences_blank_append hp hblank hw]

include hp hblank in
theorem occurrences_trim (t : Text) : occurrences p (trim t) = occurrences p t := by
  rw [trim, occurrences_trimEnd hp hblank, occurrences_trimStart hp hblank]

include hp hblank in
/-- A piece without blanks stands as often in a text as on its lines. -/
theorem sum_occurrences_lines (t : Text) :
    ((lines t).map (occurrences p)).sum = occurrences p t := by
  have hline : '\n' ∉ p := fun h => absurd (hblank _ h) (by decide)
  induction t using induction_lines with
  | line s hs =>
    by_cases hnil : s = []
    · rw [hnil, lines_nil, List.map_nil, List.sum_nil, occurrences_nil hp]
    · rw [lines_of_not_mem hs hnil, List.map_singleton, List.sum_singleton]
  | next s t hs ih =>
    -- a carriage return in front of the line feed is not part of the piece
    have hreturn : occurrences p (dropReturn s) = occurrences p s := by
      by_cases hlast : s.getLast? = some '\r'
      · obtain ⟨front, rfl⟩ := List.getLast?_eq_some_iff.mp hlast
        rw [dropReturn_concat, occurrences_append_blank hp hblank (by decide)]
      · rw [dropReturn_of_ne hlast]
    rw [lines_append_newline hs, List.map_cons, List.sum_cons, hreturn, ih,
      occurrences_append_cons hp hline]

end Blank

/-! ## Characters -/

/-- The places of a single character are those at which it is counted. -/
theorem occurrences_singleton (c : Char) (t : Text) : occurrences [c] t = t.count c := by
  induction t with
  | nil => rfl
  | cons d t ih =>
    rw [occurrences_cons, ih, List.count_cons, List.isPrefixOf_cons_cons,
      List.isPrefixOf_nil_left, Bool.and_true, Bool.beq_comm]

section Count

variable (hc : isBlank c = false)

include hc in
theorem count_eq_zero_of_allBlank (ht : allBlank t = true) : t.count c = 0 := by
  refine List.count_eq_zero.mpr fun hmem => ?_
  rw [List.all_eq_true.mp ht c hmem] at hc
  cases hc

include hc in
theorem count_trimEnd (t : Text) : (trimEnd t).count c = t.count c := by
  rw [← occurrences_singleton, ← occurrences_singleton]
  exact occurrences_trimEnd (List.cons_ne_nil c []) (List.forall_mem_singleton.mpr hc) t

include hc in
theorem count_trimStart (t : Text) : (trimStart t).count c = t.count c := by
  rw [← occurrences_singleton, ← occurrences_singleton]
  exact occurrences_trimStart (List.cons_ne_nil c []) (List.forall_mem_singleton.mpr hc) t

include hc in
theorem count_trim (t : Text) : (trim t).count c = t.count c := by
  rw [trim, count_trimEnd hc, count_trimStart hc]

theorem count_flatten (c : Char) (ls : List Text) :
    ls.flatten.count c = (ls.map (occurrences [c])).sum := by
  rw [List.count_flatten]
  exact congrArg List.sum (List.map_congr_left fun line _ => (occurrences_singleton c line).symm)

include hc in
theorem count_flatten_lines (t : Text) : (lines t).flatten.count c = t.count c := by
  rw [count_flatten, ← occurrences_singleton]
  exact sum_occurrences_lines (List.cons_ne_nil c []) (List.forall_mem_singleton.mpr hc) t

include hc in
theorem count_joinLines (ls : List Text) : (joinLines ls).count c = ls.flatten.count c := by
  have hline : '\n' ∉ [c] := fun h => by
    rw [← List.mem_singleton.mp h] at hc
    exact absurd hc (by decide)
  rw [count_flatten, ← occurrences_singleton]
  exact occurrences_joinLines (List.cons_ne_nil c []) hline ls

end Count

end Text

end DocComments
