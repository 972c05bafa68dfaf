import DocComments.Proofs.Comment.Indent

/-!
# Slash comments of slash comments

Every line of a slash comment begins with three slashes (`Marked`), whichever of the three kinds of
lines it was made of, and such a line only loses the blanks in front of it when it is made into a
comment line again (`Marked.commentLine_append`). So slash comments are stable (`slashes_stable`).
-/

set_option autoImplicit false

namespace DocComments

open Text (joinLines allBlank trimStart trimEnd)

namespace SlashComment

variable {first line w : Text} {more : List Text}

structure Marked (line : Text) : Prop where
  slashes : mark <+: line
  newline : '\n' ∉ line
  stop : trimEnd line = line

theorem marked_commentLine (h : '\n' ∉ line) : Marked (commentLine line) := by
  unfold commentLine
  split
  · exact ⟨List.prefix_rfl, by decide, by decide⟩
  · next hne =>
    split
    · next hmark =>
      exact ⟨List.isPrefixOf_iff_prefix.mp hmark,
        fun hmem => h ((Text.infix_trim line).subset hmem), Text.trimEnd_trim line⟩
    · -- only the end is trimmed here, but a line that is blank so is blank altogether
      have htext : trimEnd line ≠ [] := by
        intro hnil
        obtain ⟨w, hw, hline⟩ := Text.exists_trimEnd_append line
        rw [hnil, List.nil_append] at hline
        rw [hline, Text.trim, Text.trimStart_eq_nil hw] at hne
        exact hne rfl
      refine ⟨⟨' ' :: trimEnd line, by simp⟩, fun hmem => ?_,
        Text.trimEnd_append_of_ne_nil _ htext (Text.trimEnd_trimEnd line)⟩
      rcases List.mem_append.mp hmem with hmem | hmem
      · exact absurd hmem (by decide)
      · exact h ((Text.prefix_trimEnd line).subset hmem)

namespace Marked

theorem trimStart_eq (h : Marked line) : trimStart line = line := by
  obtain ⟨rest, rfl⟩ := h.slashes
  exact Text.trimStart_cons_of_not_blank _ (by decide)

/-- A line that is marked already only loses the blanks in front of it. -/
theorem commentLine_append (h : Marked line) (hw : allBlank w = true) :
    commentLine (w ++ line) = line := by
  have htrim : Text.trim (w ++ line) = line := by
    rw [Text.trim, Text.trimStart_blank_append _ hw, h.trimStart_eq, h.stop]
  have hmark : mark.isPrefixOf line = true := List.isPrefixOf_iff_prefix.mpr h.slashes
  unfold commentLine
  rw [htrim]
  split
  · exact absurd hmark (by decide)
  · rw [if_pos hmark]

end Marked

theorem solid_of_marked (h : ∀ line ∈ first :: more, Marked line) : Comment.Solid first more := by
  refine ⟨(h first List.mem_cons_self).trimStart_eq, fun line hline => (h line hline).newline,
    fun line hline => (h line hline).stop, fun line hline => ?_⟩
  obtain ⟨rest, rfl⟩ := (h line hline).slashes
  exact List.cons_ne_nil _ _

/-- A slash comment comes back to the margin from any indentation. -/
theorem render_indented (h : ∀ line ∈ first :: more, Marked line) {indent : Text}
    (hblank : allBlank indent = true) (hindent : '\n' ∉ indent) :
    render (joinLines (first :: more.map (indent ++ ·))) = joinLines (first :: more) := by
  have hsolid := (solid_of_marked h).indented hindent
  have hfirst := h first List.mem_cons_self
  have hfence : first.head? ≠ some '\x60' := by
    obtain ⟨rest, rfl⟩ := hfirst.slashes
    exact fun hhead => absurd (Option.some.inj hhead) (by decide)
  have hmore : (more.map (indent ++ ·)).map commentLine = more :=
    Comment.map_map_append_eq fun line hline =>
      (h line (List.mem_cons_of_mem first hline)).commentLine_append hblank
  have hkeep : commentLine first = first := hfirst.commentLine_append (w := []) rfl
  rw [render, hsolid.strip_joinLines hfence, hsolid.lines_joinLines, List.map_cons, hkeep, hmore]

/-- A slash comment is empty, or its lines are marked. -/
theorem render_eq_nil_or_marked (raw : Text) :
    render raw = [] ∨
      ∃ first more, render raw = joinLines (first :: more) ∧
        ∀ line ∈ first :: more, Marked line := by
  unfold render
  cases hlines : Text.lines (Fence.strip raw) with
  | nil => exact .inl rfl
  | cons first more =>
    refine .inr ⟨commentLine first, more.map commentLine, rfl, fun line hline => ?_⟩
    rw [← List.map_cons] at hline
    obtain ⟨inner, hinner, rfl⟩ := List.mem_map.mp hline
    exact marked_commentLine (Text.newline_not_mem_of_mem_lines (hlines ▸ hinner))

end SlashComment

namespace Comment

open SlashComment

/-- To render a slash comment again, and to make the slash comment of one place anew for another,
changes nothing. -/
theorem slashes_stable (raw : Text) :
    render (render raw) = render raw ∧
    ∀ (source : Text) (kind : String) (r : ByteRange) (source' : Text) (kind' : String)
      (r' : ByteRange),
      ofReply .slashes (ofReply .slashes raw (.ofRange source kind r)).text
          (.ofRange source' kind' r')
        = ofReply .slashes raw (.ofRange source' kind' r') := by
  rcases render_eq_nil_or_marked raw with hnil | ⟨first, more, hrender, hmarked⟩
  · refine stable_of_render_indentMore .slashes ?_ fun indent _ _ => ?_
    · change indentMore [] (render raw) = render raw
      rw [hnil]
      rfl
    · change render (indentMore indent (render raw)) = render raw
      rw [hnil]
      rfl
  · exact (solid_of_marked hmarked).stable .slashes hrender fun indent hblank hindent =>
      render_indented hmarked hblank hindent

end Comment

end DocComments
