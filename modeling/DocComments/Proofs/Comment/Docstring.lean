import DocComments.Proofs.Comment.Margin
import Mathlib.Data.List.Infix

/-!
# Docstrings of docstrings

A docstring that is given as a reply is unwrapped first, so to render it again should change
nothing. `framed` is the form that every docstring has: its lines between triple quotation marks,
the further ones indented. A docstring in this form is read as the literal that it is unless three
quotation marks in a row are left in it, and it comes back with its lines at the margin
(`render_framed`). Two kinds of replies are not kept: those with a run of five quotation marks (or
of eight, eleven and so on), which are escaped and quoted once more, and those with a carriage
return at the end of their first line, which is lost.
-/

set_option autoImplicit false

namespace DocComments

open Text (joinLines allBlank trimStart trimEnd dropReturn)
open Comment (indentLine)

namespace Docstring

variable {indent marker first : Text} {more : List Text}

/-! ## The form of docstrings -/

/-- The blank behind a line that would change the closing quotation marks. -/
def endGuard (line : Text) : Text :=
  match line.getLast? with
  | some '"' | some '\\' => [' ']
  | _ => []

/-- What stands between the quotation marks of a docstring with these lines. -/
def inner (indent first : Text) (more : List Text) : Text :=
  joinLines (first :: more.map (indentLine indent)) ++
    (endGuard (more.getLastD first) ++ if more = [] then [] else '\n' :: indent)

/-- A docstring with these lines, the further ones indented. -/
def framed (indent marker first : Text) (more : List Text) : Text :=
  marker ++ (double ++ (inner indent first more ++ double))

def IsMarker (marker : Text) : Prop := marker = [] ∨ marker = ['r']

theorem guardEnd_eq (t : Text) : guardEnd t = t ++ endGuard t := by
  unfold guardEnd endGuard
  split <;> simp [*]

theorem allBlank_endGuard (line : Text) : allBlank (endGuard line) = true := by
  unfold endGuard
  split <;> decide

theorem newline_not_mem_endGuard (line : Text) : '\n' ∉ endGuard line := by
  unfold endGuard
  split <;> decide

theorem endGuard_congr {s t : Text} (h : s.getLast? = t.getLast?) : endGuard s = endGuard t := by
  rw [endGuard, endGuard, h]

theorem getLast?_framed (indent marker first : Text) (more : List Text) :
    (framed indent marker first more).getLast? = some '"' := by
  have hmarks : (inner indent first more ++ double).getLast? = some '"' := by simp [double]
  rw [framed, List.getLast?_append_of_ne_nil _ (by simp [double]),
    List.getLast?_append_of_ne_nil _ (by simp [double]), hmarks]

theorem trimEnd_framed (indent marker first : Text) (more : List Text) :
    trimEnd (framed indent marker first more) = framed indent marker first more := by
  rw [Text.trimEnd_eq_self_iff, getLast?_framed]
  intro c hc
  rw [← Option.some.inj hc]
  decide

/-- A literal begins without blanks. -/
theorem trimStart_marker_append (hmarker : IsMarker marker) (t : Text) :
    trimStart (marker ++ (double ++ t)) = marker ++ (double ++ t) := by
  rcases hmarker with rfl | rfl
  · exact Text.trimStart_cons_of_not_blank _ (by decide)
  · exact Text.trimStart_cons_of_not_blank _ (by decide)

/-- The blanks between the lines and the closing quotation marks. -/
theorem allBlank_closing (hblank : allBlank indent = true) (line : Text) (more : List Text) :
    allBlank (endGuard line ++ if more = [] then [] else '\n' :: indent) = true := by
  have hrest : allBlank (if more = [] then [] else '\n' :: indent) = true := by
    split
    · rfl
    · rw [allBlank, List.all_cons, ← allBlank, hblank]
      decide
  rw [allBlank, List.all_append, ← allBlank, ← allBlank, allBlank_endGuard, hrest]
  rfl

namespace Flush

/-- A text ends like its last line. -/
theorem getLast?_getLastD (h : Flush first more) :
    (more.getLastD first).getLast? = (joinLines (first :: more)).getLast? := by
  by_cases hnil : more = []
  · rw [hnil, Text.joinLines_singleton, List.getLastD_nil]
  · obtain ⟨line, hline⟩ : ∃ line, more.getLast? = some line :=
      ⟨_, List.getLast?_eq_some_getLast hnil⟩
    have hlines : (first :: more).getLast? = some line := by
      rw [List.getLast?_cons_of_ne_nil hnil, hline]
    rw [List.getLastD_eq_getLast?, hline, Option.getD_some,
      Text.getLast?_joinLines hlines (h.last line hline)]

/-- Lines at the margin in quotation marks. -/
theorem quoted_guardEnd (h : Flush first more) (marker : Text) :
    quoted marker (guardEnd (joinLines (first :: more))) = framed [] marker first more := by
  have hline : (guardEnd (joinLines (first :: more))).contains '\n' = !decide (more = []) := by
    rw [guardEnd_eq, List.contains_eq_mem, Bool.eq_iff_iff, decide_eq_true_iff]
    simp only [Bool.not_eq_true', decide_eq_false_iff_not]
    rw [List.mem_append, or_iff_left (newline_not_mem_endGuard _)]
    by_cases hnil : more = []
    · rw [hnil, Text.joinLines_singleton]
      exact iff_of_false h.newline_first fun hne => hne rfl
    · rw [Text.joinLines_cons first hnil]
      exact iff_of_true (List.mem_append_right _ List.mem_cons_self) hnil
  rw [quoted, hline, guardEnd_eq, ← endGuard_congr h.getLast?_getLastD, framed, inner,
    h.map_indentLine_nil]
  by_cases hnil : more = []
  · simp [hnil]
  · simp [hnil]

end Flush

/-! ## The docstring at a place -/

/-- The text of several lines that a docstring of several lines is. -/
theorem framed_eq_joinLines {front : List Text} {last : Text} (h : Flush first (front ++ [last])) :
    framed indent marker first (front ++ [last]) =
      joinLines ((marker ++ (double ++ first)) ::
        (front ++ [last ++ endGuard last, double]).map (indentLine indent)) := by
  have hlast : last ≠ [] := h.last last (by simp)
  have hstop : trimEnd last = last := h.stop last (by simp)
  have hblank := Comment.allBlank_eq_false hstop hlast
  have hguarded : indentLine indent (last ++ endGuard last) = indent ++ last ++ endGuard last := by
    rw [indentLine, allBlank, List.all_append, ← allBlank, hblank, Bool.false_and]
    exact (List.append_assoc _ _ _).symm
  have hmarks : indentLine indent double = indent ++ double := rfl
  have hsplit : front ++ [last ++ endGuard last, double]
      = (front ++ [last ++ endGuard last]) ++ [double] :=
    List.append_cons front (last ++ endGuard last) [double]
  have hne : front ++ [last] ≠ [] := by simp
  have hjoin : ∀ line,
      joinLines (first :: (front.map (indentLine indent) ++ [line ++ endGuard last]))
      = joinLines (first :: (front.map (indentLine indent) ++ [line])) ++ endGuard last := by
    intro line
    rw [← List.cons_append, ← List.cons_append, Text.joinLines_concat (List.cons_ne_nil _ _),
      Text.joinLines_concat (List.cons_ne_nil _ _), List.append_assoc, List.cons_append]
  calc framed indent marker first (front ++ [last])
      = marker ++ (double ++ (joinLines (first :: (front.map (indentLine indent)
          ++ [indent ++ last])) ++ (endGuard last ++ '\n' :: indent) ++ double)) := by
        rw [framed, inner, if_neg hne, List.map_append, List.map_singleton,
          Comment.indentLine_of_ne_nil indent hstop hlast, List.getLastD_concat]
    _ = joinLines ((marker ++ (double ++ first)) :: (front.map (indentLine indent)
          ++ [indent ++ last ++ endGuard last])) ++ '\n' :: (indent ++ double) := by
        rw [← List.append_assoc marker double first, Text.joinLines_append_cons, hjoin]
        simp
    _ = _ := by
        rw [hsplit, List.map_append, List.map_singleton, hmarks, List.map_append,
          List.map_singleton, hguarded]
        exact (Text.joinLines_concat (List.cons_ne_nil _ _) _).symm

theorem newline_not_mem_opening (hmarker : IsMarker marker) (hfirst : '\n' ∉ first) :
    '\n' ∉ marker ++ (double ++ first) := by
  rcases hmarker with rfl | rfl <;> simp [double, hfirst]

/-- A docstring of one line stays as it is at a place. -/
theorem indentMore_framed_nil (h : Flush first []) (hmarker : IsMarker marker) (indent : Text) :
    Comment.indentMore indent (framed [] marker first [])
      = framed indent marker (dropReturn first) [] := by
  have hline := newline_not_mem_opening hmarker h.newline_first
  have hnone : '\n' ∉ framed [] marker first [] := by
    have hguard := newline_not_mem_endGuard first
    rw [List.mem_append, List.mem_append, not_or, not_or] at hline
    simp [framed, inner, Text.joinLines_singleton, hline, hguard]
  have hne : framed [] marker first [] ≠ [] := by simp [framed, double]
  rw [Comment.indentMore, trimEnd_framed, Text.lines_of_not_mem hnone hne,
    Text.dropReturn_of_trimEnd (h.stop_first rfl)]
  simp only [List.map_nil, Text.joinLines_singleton]
  exact trimStart_marker_append hmarker _

/-- The line in front of the closing marks ends as it did, or with the blank that guards them. -/
theorem dropReturn_append_endGuard {last : Text} (hstop : trimEnd last = last) :
    dropReturn (last ++ endGuard last) = last ++ endGuard last := by
  unfold endGuard
  split
  · exact Text.dropReturn_of_ne (by simp)
  · exact Text.dropReturn_of_ne (by simp)
  · rw [List.append_nil]
    exact Text.dropReturn_of_trimEnd hstop

/-- The further lines of a docstring with the line of the closing marks are lines as they are. -/
theorem Flush.kept_closed {front : List Text} {last : Text} (h : Flush first (front ++ [last])) :
    (front ++ [last ++ endGuard last, double]).map (indentLine [])
        = front ++ [last ++ endGuard last, double] ∧
      ∀ line ∈ front ++ [last ++ endGuard last, double],
        '\n' ∉ line ∧ dropReturn line = line := by
  have hlast : last ≠ [] := h.last last (by simp)
  have hstop : trimEnd last = last := h.stop last (by simp)
  constructor
  · have hrest := h.map_indentLine_nil
    rw [List.map_append, List.map_singleton] at hrest
    have hguarded : indentLine [] (last ++ endGuard last) = last ++ endGuard last := by
      rw [indentLine, allBlank, List.all_append, ← allBlank, Comment.allBlank_eq_false hstop hlast]
      rfl
    rw [List.map_append, (List.append_inj' hrest rfl).1, List.map_cons, hguarded]
    rfl
  · intro line hline
    rcases List.mem_append.mp hline with hline | hline
    · have hmem : line ∈ front ++ [last] := List.mem_append_left _ hline
      exact ⟨h.newline line hmem, Text.dropReturn_of_trimEnd (h.stop line hmem)⟩
    · rcases List.mem_pair.mp hline with rfl | rfl
      · refine ⟨fun hmem => ?_, dropReturn_append_endGuard hstop⟩
        exact (List.mem_append.mp hmem).elim (h.newline last (by simp))
          (newline_not_mem_endGuard last)
      · decide

/-- At a place the further lines are indented, and the first line loses a carriage return at its
end. -/
theorem indentMore_framed (h : Flush first more) (hmarker : IsMarker marker) (indent : Text) :
    Comment.indentMore indent (framed [] marker first more)
      = framed indent marker (dropReturn first) more := by
  rcases List.eq_nil_or_concat more with rfl | ⟨front, last, rfl⟩
  · exact indentMore_framed_nil h hmarker indent
  · rw [List.concat_eq_append] at h ⊢
    have hfirst : first ≠ [] := h.ne_nil (by simp)
    have hclose : ∀ line ∈ (front ++ [last ++ endGuard last, double]).getLast?, line ≠ [] := by
      simp [double]
    obtain ⟨hplain, hkeep⟩ := h.kept_closed
    rw [Comment.indentMore, trimEnd_framed, framed_eq_joinLines h, hplain,
      Text.lines_joinLines (newline_not_mem_opening hmarker h.newline_first) hkeep hclose (by simp),
      framed_eq_joinLines h.dropReturn_first]
    change joinLines (trimStart (dropReturn (marker ++ (double ++ first))) :: _) = _
    rw [← List.append_assoc, Text.dropReturn_append hfirst, List.append_assoc,
      trimStart_marker_append hmarker]

/-! ## The literal that a docstring is -/

/-- A body in quotation marks is read as it is unless it has these marks in it. -/
theorem bodyIn?_append (quote body : Text) :
    bodyIn? quote (quote ++ (body ++ quote))
      = if Text.occursIn quote body then none else some body := by
  rw [bodyIn?, List.isPrefixOf?_eq_some_iff_append_eq.mpr rfl, Option.bind_eq_bind,
    Option.bind_some, List.isSuffixOf?_eq_some_iff_append_eq.mpr rfl]
  rfl

theorem double_infix_inner_iff (h : Flush first more) (hblank : allBlank indent = true) :
    double <:+: inner indent first more ↔ double <:+: joinLines (first :: more) := by
  have hne : double ≠ [] := by decide
  have hmarks : ∀ c ∈ double, Text.isBlank c = false := fun _ => isBlank_of_mem_double
  have hline : '\n' ∉ double := by decide
  rw [inner, Text.infix_append_blank_iff hne hmarks (allBlank_closing hblank _ _),
    Text.infix_joinLines_iff hline (List.cons_ne_nil _ _),
    Text.infix_joinLines_iff hline (List.cons_ne_nil _ _), List.exists_mem_cons_iff,
    List.exists_mem_cons_iff]
  refine or_congr Iff.rfl ?_
  have hindented : ∀ line ∈ more, (double <:+: indentLine indent line ↔ double <:+: line) := by
    intro line hmem
    by_cases hnil : line = []
    · subst hnil
      rfl
    · rw [Comment.indentLine_of_ne_nil indent (h.stop line hmem) hnil,
        Text.infix_blank_append_iff hmarks hblank]
  constructor
  · rintro ⟨line, hmem, hpiece⟩
    obtain ⟨plain, hplain, rfl⟩ := List.mem_map.mp hmem
    exact ⟨plain, hplain, (hindented plain hplain).mp hpiece⟩
  · rintro ⟨line, hmem, hpiece⟩
    exact ⟨_, List.mem_map_of_mem hmem, (hindented line hmem).mpr hpiece⟩

/-- There are no blanks and no code fence around a docstring. -/
theorem strip_framed (hmarker : IsMarker marker) :
    Fence.strip (framed indent marker first more) = framed indent marker first more := by
  have htrim : Text.trim (framed indent marker first more) = framed indent marker first more :=
    Text.trim_eq_self (trimStart_marker_append hmarker _) (trimEnd_framed _ _ _ _)
  have hnone : Fence.body? (framed indent marker first more) = none := by
    have hfront : Fence.mark.isPrefixOf? (framed indent marker first more) = none := by
      rcases hmarker with rfl | rfl <;> rfl
    rw [Fence.body?, hfront]
    rfl
  rw [Fence.strip, htrim, hnone]

/-- Without three quotation marks in a row a docstring is read as the literal that it is. -/
theorem literal?_framed (hmarker : IsMarker marker)
    (hquotes : ¬ double <:+: inner indent first more) :
    literal? (framed indent marker first more) = some ⟨marker, inner indent first more⟩ := by
  have hbody : bodyIn? double (double ++ (inner indent first more ++ double))
      = some (inner indent first more) := by
    rw [bodyIn?_append, if_neg (fun h => hquotes (Text.occursIn_iff.mp h))]
  rcases hmarker with rfl | rfl
  · simp [literal?, markers, framed, hbody, List.isPrefixOf?]
  · -- without the letter in front the text begins with no quotation mark
    have hdouble : ∀ t, bodyIn? double ('r' :: t) = none := fun _ => rfl
    have hsingle : ∀ t, bodyIn? single ('r' :: t) = none := fun _ => rfl
    simp [literal?, markers, framed, hbody, hdouble, hsingle, List.isPrefixOf?]

/-- With three quotation marks in a row in it a docstring is no literal. -/
theorem literal?_framed_eq_none (hquotes : double <:+: inner indent first more) :
    literal? (framed indent [] first more) = none := by
  have hbody : bodyIn? double (double ++ (inner indent first more ++ double)) = none := by
    rw [bodyIn?_append, if_pos (Text.occursIn_iff.mpr hquotes)]
  have hsingle : ∀ t, bodyIn? single (double ++ t) = none := fun _ => rfl
  have hletter : ∀ letter ∈ [['r'], ['R'], ['u'], ['U']], ∀ t,
      letter.isPrefixOf? (double ++ t) = none := by
    simp [List.isPrefixOf?, double]
  have hnil : ∀ t : Text, ([] : Text).isPrefixOf? t = some t := fun _ => rfl
  rw [literal?, List.findSome?_eq_none_iff]
  intro letter hmem
  rcases List.mem_cons.mp hmem with rfl | hmem
  · simp [framed, hnil, hbody, hsingle]
  · simp [framed, hletter letter hmem]

/-! ## What is not blank is kept -/

section Count

variable {c : Char} (hc : Text.isBlank c = false)

include hc in
theorem count_flatten_map_indentLine (hblank : allBlank indent = true) (ls : List Text) :
    (ls.map (indentLine indent)).flatten.count c = ls.flatten.count c := by
  have hline : ∀ line, (indentLine indent line).count c = line.count c := by
    intro line
    unfold indentLine
    split
    · next h => rw [List.count_nil, Text.count_eq_zero_of_allBlank hc h]
    · rw [List.count_append, Text.count_eq_zero_of_allBlank hc hblank, Nat.zero_add]
  rw [List.count_flatten, List.count_flatten, List.map_map]
  exact congrArg List.sum (List.map_congr_left fun line _ => hline line)

include hc in
theorem count_inner (hblank : allBlank indent = true) (first : Text) (more : List Text) :
    (inner indent first more).count c = (joinLines (first :: more)).count c := by
  rw [inner, List.count_append, Text.count_eq_zero_of_allBlank hc (allBlank_closing hblank _ _),
    Text.count_joinLines hc, Text.count_joinLines hc, List.flatten_cons, List.flatten_cons,
    List.count_append, List.count_append, count_flatten_map_indentLine hc hblank, Nat.add_zero]

include hc in
theorem count_indentMore (hblank : allBlank indent = true) (t : Text) :
    (Comment.indentMore indent t).count c = t.count c := by
  have hlines := Text.count_flatten_lines hc (trimEnd t)
  rw [Text.count_trimEnd hc] at hlines
  unfold Comment.indentMore
  split
  · next h => rw [← hlines, h]; rfl
  · next first more h =>
    rw [← hlines, h, Text.count_joinLines hc, List.flatten_cons, List.flatten_cons,
      List.count_append, List.count_append, Text.count_trimStart hc,
      count_flatten_map_indentLine hc hblank]

include hc in
theorem count_dedent (t : Text) : (dedent t).count c = t.count c := by
  rw [← Text.count_flatten_lines hc t]
  unfold dedent
  split
  · next h => rw [h]; rfl
  · next first more h =>
    have hmore : (more.map (cutMargin (margin more))).flatten.count c = more.flatten.count c := by
      rw [List.count_flatten, List.count_flatten, List.map_map]
      exact congrArg List.sum (List.map_congr_left fun line hline => count_cutMargin hc hline)
    rw [h, Text.count_joinLines hc, List.flatten_cons, List.flatten_cons, List.count_append,
      List.count_append, hmore]

end Count

/-- A body gets six quotation marks. -/
theorem count_quoted (hmarker : IsMarker marker) (t : Text) :
    (quoted marker (guardEnd t)).count '"' = t.count '"' + 6 := by
  have hguard := Text.count_eq_zero_of_allBlank (c := '"') (by decide) (allBlank_endGuard t)
  have hletter : marker.count '"' = 0 := by
    rcases hmarker with rfl | rfl <;> rfl
  have hline : (if (guardEnd t).contains '\n' then ['\n'] else []).count '"' = 0 := by
    split <;> rfl
  rw [quoted]
  simp only [List.count_append, hletter, hline]
  rw [guardEnd_eq, List.count_append, hguard, show double.count '"' = 3 from rfl]
  omega

/-! ## Docstrings that are rendered again -/

/-- No three quotation marks in a row are left in the lines of a docstring, and a letter in front
is there for a backslash. -/
structure Settled (marker first : Text) (more : List Text) : Prop extends Flush first more where
  quotes : ¬ double <:+: joinLines (first :: more)
  marker : marker = [] ∨ marker = ['r'] ∧ '\\' ∈ joinLines (first :: more)

namespace Settled

theorem isMarker (h : Settled marker first more) : IsMarker marker :=
  h.marker.imp_right And.left

theorem dropReturn_first (h : Settled marker first more) :
    Settled marker (dropReturn first) more := by
  have hpiece : ∀ p, p ≠ [] → (∀ c ∈ p, Text.isBlank c = false) →
      (p <:+: joinLines (dropReturn first :: more) ↔ p <:+: joinLines (first :: more)) :=
    fun p hp hblank => Text.infix_joinLines_dropReturn_iff hp hblank first more
  refine ⟨h.toFlush.dropReturn_first, ?_, h.marker.imp_right (And.imp_right fun hslash => ?_)⟩
  · rw [hpiece double (by decide) fun _ => isBlank_of_mem_double]
    exact h.quotes
  · rw [← List.singleton_infix_iff, hpiece ['\\'] (by decide) (List.forall_mem_singleton.mpr rfl)]
    exact (List.singleton_infix_iff _ _).mpr hslash

/-- A settled docstring stays what it is, at the margin, but for a carriage return at the end of
the first line. -/
theorem render_framed (h : Settled marker first more) (hblank : allBlank indent = true)
    (hindent : '\n' ∉ indent) :
    render (framed indent marker first more) = framed [] marker (dropReturn first) more := by
  have hflush := h.toFlush
  have hnone : ¬ double <:+: inner indent first more :=
    fun hpiece => h.quotes ((double_infix_inner_iff hflush hblank).mp hpiece)
  have hdedent : dedent (Text.trim (inner indent first more))
      = joinLines (dropReturn first :: more) := by
    rw [inner, Text.trim_append_blank _ (allBlank_closing hblank _ _), hflush.trim_indented,
      dedent_indented hflush hblank hindent]
  rw [render, strip_framed h.isMarker, literal?_framed h.isMarker hnone]
  rcases h.marker with rfl | ⟨rfl, hslash⟩
  · change wrap (inner indent first more) = _
    rw [wrap, hdedent, escapeQuotes_eq_self h.dropReturn_first.quotes,
      hflush.dropReturn_first.quoted_guardEnd]
  · have hstays : Literal.staysRaw ⟨['r'], inner indent first more⟩ = true := by
      have hmem : '\\' ∈ inner indent first more := by
        rw [← List.count_pos_iff] at hslash ⊢
        rwa [count_inner (by decide) hblank]
      have hoccurs : Text.occursIn double (inner indent first more) = false :=
        eq_false_of_ne_true fun h => hnone (Text.occursIn_iff.mp h)
      simp [Literal.staysRaw, hmem, hoccurs]
    change (if Literal.staysRaw _ then wrapRaw (inner indent first more) else _) = _
    rw [hstays, if_pos rfl, wrapRaw, hdedent, hflush.dropReturn_first.quoted_guardEnd]

end Settled

/-- A reply without the marks around it, if it is a literal. -/
def unwrap (raw : Text) : Text :=
  match literal? (Fence.strip raw) with
  | some l => l.body
  | none => Fence.strip raw

/-- What a reply puts between quotation marks, before those in it are escaped. -/
def content (raw : Text) : Text := dedent (Text.trim (unwrap raw))

/-- No piece without a line feed is new in the text when its lines are moved to the margin. -/
theorem infix_of_infix_dedent {p t : Text} (hp : '\n' ∉ p) (h : p <:+: dedent t) : p <:+: t := by
  unfold dedent at h
  split at h
  · exact List.infix_nil.mp h ▸ List.nil_infix
  · next first more hlines =>
    have hmem : ∀ line ∈ first :: more, line <:+: t :=
      fun line hline => Text.infix_of_mem_lines (hlines ▸ hline)
    rw [Text.infix_joinLines_iff hp (List.cons_ne_nil _ _), List.exists_mem_cons_iff] at h
    rcases h with h | ⟨line, hline, h⟩
    · exact h.trans (hmem first List.mem_cons_self)
    · obtain ⟨wide, hwide, rfl⟩ := List.mem_map.mp hline
      exact h.trans ((infix_cutMargin _ wide).trans (hmem wide (List.mem_cons_of_mem _ hwide)))

/-- A literal that stays raw is rendered as it is: it has no three quotation marks in a row. -/
theorem render_of_staysRaw {raw : Text} {l : Literal} (hl : literal? (Fence.strip raw) = some l)
    (hstays : l.staysRaw = true) :
    render raw = quoted ['r'] (guardEnd (content raw)) ∧ ¬ double <:+: content raw ∧
      '\\' ∈ content raw := by
  have hbody : unwrap raw = l.body := by rw [unwrap, hl]
  have hkept := hstays
  simp only [Literal.staysRaw, Bool.and_eq_true, Bool.not_eq_true', List.contains_iff_mem] at hkept
  refine ⟨?_, fun h => ?_, ?_⟩
  · rw [render, hl, content, hbody]
    exact if_pos hstays
  · have hbodyQuotes := infix_of_infix_dedent (by decide) h
    rw [hbody] at hbodyQuotes
    exact Bool.eq_false_iff.mp hkept.2
      (Text.occursIn_iff.mpr (hbodyQuotes.trans (Text.infix_trim _)))
  · rw [← List.count_pos_iff, content, count_dedent (by decide), Text.count_trim (by decide),
      List.count_pos_iff, hbody]
    exact hkept.1.2

/-- Every other reply is escaped. -/
theorem render_of_not_staysRaw {raw : Text}
    (h : ∀ l, literal? (Fence.strip raw) = some l → l.staysRaw ≠ true) :
    render raw = quoted [] (guardEnd (escapeQuotes (content raw))) := by
  rw [content, unwrap, render]
  cases hl : literal? (Fence.strip raw) with
  | none => rfl
  | some l => exact if_neg (h l hl)

/-- Every docstring that is rendered has its lines at the margin. Three quotation marks in a row are
left in it if the reply has loose ones. -/
theorem exists_render_eq (raw : Text) :
    ∃ marker first more, render raw = framed [] marker first more ∧ Flush first more ∧
      (HasLooseMarks (content raw) ∧ marker = [] ∧ double <:+: joinLines (first :: more) ∨
        ¬ HasLooseMarks (content raw) ∧ Settled marker first more) ∧
      ∀ p, '"' ∉ p → '\\' ∉ p → (p <:+: joinLines (first :: more) ↔ p <:+: content raw) := by
  have htrim : Text.trim (Text.trim (unwrap raw)) = Text.trim (unwrap raw) :=
    Text.trim_eq_self (Text.trimStart_trim _) (Text.trimEnd_trim _)
  obtain ⟨first, more, hcontent, hflush⟩ := exists_flush htrim
  rw [← content] at hcontent
  have hloose := double_infix_escapeQuotes_iff (content raw)
  by_cases hraw : ∃ l, literal? (Fence.strip raw) = some l ∧ l.staysRaw = true
  · obtain ⟨l, hl, hstays⟩ := hraw
    obtain ⟨hrender, hquotes, hslash⟩ := render_of_staysRaw hl hstays
    refine ⟨['r'], first, more, ?_, hflush, .inr ⟨?_, hflush, ?_, .inr ⟨rfl, ?_⟩⟩, ?_⟩
    · rw [hrender, hcontent, hflush.quoted_guardEnd]
    · rwa [← hloose, escapeQuotes_eq_self hquotes]
    · rwa [hcontent] at hquotes
    · rwa [hcontent] at hslash
    · intro p _ _
      rw [hcontent]
  · have hrender := render_of_not_staysRaw fun l hl hstays => hraw ⟨l, hl, hstays⟩
    have hescaped : escapeQuotes (content raw)
        = joinLines (escapeQuotes first :: more.map escapeQuotes) := by
      rw [hcontent, escapeQuotes_joinLines, List.map_cons]
    refine ⟨[], escapeQuotes first, more.map escapeQuotes, ?_, hflush.map_escapeQuotes, ?_, ?_⟩
    · rw [hrender, hescaped, hflush.map_escapeQuotes.quoted_guardEnd]
    · rw [← hloose, ← hescaped]
      by_cases h : double <:+: escapeQuotes (content raw)
      · exact .inl ⟨h, rfl, h⟩
      · exact .inr ⟨h, hflush.map_escapeQuotes, hescaped ▸ h, .inl rfl⟩
    · intro p hmark hslash
      rw [← hescaped, infix_escapeQuotes_iff hmark hslash]

/-! ## Which docstrings are kept -/

/-- What the first line is can be read off from a docstring of several lines. -/
theorem framed_inj (hne : more ≠ []) {other : Text} :
    framed indent marker first more = framed indent marker other more ↔ first = other := by
  have hmap : more.map (indentLine indent) ≠ [] := by simpa using hne
  have hlast : more.getLastD first = more.getLastD other := by
    obtain ⟨line, hline⟩ : ∃ line, more.getLast? = some line :=
      ⟨_, List.getLast?_eq_some_getLast hne⟩
    rw [List.getLastD_eq_getLast?, List.getLastD_eq_getLast?, hline]
    rfl
  rw [framed, framed, inner, inner, Text.joinLines_cons _ hmap, Text.joinLines_cons _ hmap, hlast]
  simp

/-- A literal gets six quotation marks, apart from those that its lines have. -/
theorem count_framed (hmarker : IsMarker marker) (hblank : allBlank indent = true) :
    (framed indent marker first more).count '"' = (joinLines (first :: more)).count '"' + 6 := by
  have hletter : marker.count '"' = 0 := by
    rcases hmarker with rfl | rfl <;> rfl
  rw [framed, List.count_append, List.count_append, List.count_append, hletter,
    count_inner (by decide) hblank, show double.count '"' = 3 from rfl]
  omega

/-- A docstring that has three quotation marks in a row is quoted once more. -/
theorem count_render_framed (hflush : Flush first more) (hblank : allBlank indent = true)
    (hquotes : double <:+: joinLines (first :: more)) :
    (render (framed indent [] first more)).count '"'
      = (framed indent [] first more).count '"' + 6 := by
  rw [render, strip_framed (.inl rfl),
    literal?_framed_eq_none ((double_infix_inner_iff hflush hblank).mpr hquotes)]
  change (wrap (framed indent [] first more)).count '"' = _
  rw [wrap, count_quoted (.inl rfl), count_escapeQuotes, count_dedent (by decide),
    Text.count_trim (by decide)]

/-- Rendering its own output changes a docstring if loose quotation marks are left in it, and if its
first line ends with a carriage return, and only then. -/
theorem render_render_eq_iff (raw : Text) :
    render (render raw) = render raw ↔
      ¬ HasLooseMarks (content raw) ∧ ¬ ['\r', '\n'] <:+: content raw := by
  obtain ⟨marker, first, more, hrender, hflush, hcases, hpieces⟩ := exists_render_eq raw
  rw [hrender]
  rcases hcases with ⟨hloose, rfl, hquotes⟩ | ⟨hloose, hsettled⟩
  · refine iff_of_false (fun heq => ?_) fun h => h.1 hloose
    have hcount := count_render_framed hflush (rfl : allBlank [] = true) hquotes
    rw [heq] at hcount
    omega
  · rw [hsettled.render_framed rfl List.not_mem_nil, and_iff_right hloose,
      ← hpieces _ (by decide) (by decide)]
    have hreturn := hflush.infix_newline_iff ['\r'] (by decide) rfl
    rw [List.singleton_append] at hreturn
    rw [hreturn, ← Text.dropReturn_eq_self_iff.not_left]
    by_cases hnil : more = []
    · simp [hnil, Text.dropReturn_of_trimEnd (hflush.stop_first hnil)]
    · rw [framed_inj hnil]
      simp [hnil]

end Docstring

namespace Comment

open Docstring

/-- A docstring for one place that is made anew for another place changes if loose quotation marks
are left in it, and if its first line ends with two carriage returns, and only then. -/
theorem ofReply_ofReply_eq_iff (raw : Text) {a b : Snapshot}
    (ha : allBlank a.indent = true) (hnewline : '\n' ∉ a.indent) (hb : allBlank b.indent = true) :
    ofReply .docstring (ofReply .docstring raw a).text b = ofReply .docstring raw b ↔
      ¬ HasLooseMarks (content raw) ∧ ¬ ['\r', '\r', '\n'] <:+: content raw := by
  obtain ⟨marker, first, more, hrender, hflush, hcases, hpieces⟩ := exists_render_eq raw
  have hdocstring : ∀ t, CommentStyle.render .docstring t = render t := fun _ => rfl
  have htext : ofReply .docstring (ofReply .docstring raw a).text b = ofReply .docstring raw b ↔
      indentMore b.indent (render (indentMore a.indent (render raw)))
        = indentMore b.indent (render raw) := by
    simp only [ofReply, hdocstring, mk.injEq, and_true]
  rw [htext, hrender]
  rcases hcases with ⟨hloose, rfl, hquotes⟩ | ⟨hloose, hsettled⟩
  · refine iff_of_false (fun heq => ?_) fun h => h.1 hloose
    rw [indentMore_framed hflush (.inl rfl), indentMore_framed hflush (.inl rfl)] at heq
    -- the quotation marks that are added are not part of the docstring for the other place
    have hkept : double <:+: joinLines (dropReturn first :: more) :=
      (Text.infix_joinLines_dropReturn_iff (by decide) (fun _ => isBlank_of_mem_double) _ _).mpr
        hquotes
    have hcount := congrArg (List.count '"') heq
    rw [count_indentMore (by decide) hb, count_render_framed hflush.dropReturn_first ha hkept,
      count_framed (.inl rfl) ha, count_framed (.inl rfl) hb] at hcount
    omega
  · rw [indentMore_framed hflush hsettled.isMarker, indentMore_framed hflush hsettled.isMarker,
      hsettled.dropReturn_first.render_framed ha hnewline,
      indentMore_framed hflush.dropReturn_first.dropReturn_first hsettled.isMarker,
      and_iff_right hloose, ← hpieces _ (by decide) (by decide)]
    have hreturn := hflush.infix_newline_iff ['\r', '\r'] (by decide) rfl
    rw [show ['\r', '\r'] ++ ['\n'] = ['\r', '\r', '\n'] from rfl] at hreturn
    rw [hreturn, ← Text.suffix_dropReturn_iff, ← Text.dropReturn_eq_self_iff.not_left]
    by_cases hnil : more = []
    · have hkeep := Text.dropReturn_of_trimEnd (hflush.stop_first hnil)
      simp [hnil, hkeep]
    · rw [framed_inj hnil, Text.dropReturn_dropReturn_eq_iff]
      simp [hnil]

/-- To render a docstring again, and to make the docstring of one place anew for another, changes
nothing unless loose quotation marks are left in it or its first line ends with carriage
returns. -/
theorem docstring_stable_iff (raw : Text) :
    (render (render raw) = render raw ↔
      ¬ HasLooseMarks (content raw) ∧ ¬ ['\r', '\n'] <:+: content raw) ∧
    ∀ (source : Text) (kind : String) (r : ByteRange) (source' : Text) (kind' : String)
      (r' : ByteRange),
      ofReply .docstring (ofReply .docstring raw (.ofRange source kind r)).text
          (.ofRange source' kind' r')
        = ofReply .docstring raw (.ofRange source' kind' r') ↔
      ¬ HasLooseMarks (content raw) ∧ ¬ ['\r', '\r', '\n'] <:+: content raw :=
  ⟨render_render_eq_iff raw, fun source kind r source' kind' r' =>
    ofReply_ofReply_eq_iff raw (Snapshot.allBlank_indent source kind r)
      (Snapshot.newline_not_mem_indent source kind r)
      (Snapshot.allBlank_indent source' kind' r')⟩

/-- Five quotation marks are quoted once more each time, and a carriage return at the end of the
first line is lost. -/
theorem docstring_of_five_marks_unstable :
    render (render (List.replicate 5 '"')) ≠ render (List.replicate 5 '"') ∧
    ofReply .docstring
        (ofReply .docstring (List.replicate 5 '"') (.ofRange "    x".toList "" ⟨4, 5⟩)).text
        (.ofRange "x".toList "" ⟨0, 1⟩)
      ≠ ofReply .docstring (List.replicate 5 '"') (.ofRange "x".toList "" ⟨0, 1⟩) ∧
    render (render "a\r\r\nb".toList) ≠ render "a\r\r\nb".toList := by
  decide

end Comment

end DocComments
