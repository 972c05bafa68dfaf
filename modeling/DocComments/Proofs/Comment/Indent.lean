import DocComments.Comment.Style
import DocComments.Proofs.Text.Line
import DocComments.Proofs.Text.Lines

/-!
# Comments at a place

A comment for a place is made in two steps: the reply is rendered at the margin, and then the lines
behind the first are indented like the place. A style is stable if rendering takes every indented
comment back to the margin (`stable_of_render_indentMore`). Of block comments and slash comments no
line is blank or ends with a blank (`Solid`): such lines are split again just as they were joined,
however far they are indented, and nothing around them is trimmed.
-/

set_option autoImplicit false

namespace DocComments

open Text (joinLines allBlank trimStart trimEnd)

/-- The indent has no line feed in it whatever stands in front of the piece. -/
theorem Snapshot.newline_not_mem_indent (source : Text) (kind : String) (r : ByteRange) :
    '\n' ∉ (ofRange source kind r).indent := by
  simp only [ofRange]
  split
  · exact Text.newline_not_mem_lastLine _
  · intro h
    exact absurd (List.eq_of_mem_replicate h) (by decide)

namespace Comment

/-! ## Indented lines -/

section Line

variable {indent line : Text}

theorem allBlank_eq_false (hstop : trimEnd line = line) (hne : line ≠ []) :
    allBlank line = false := by
  by_contra hblank
  rw [Bool.not_eq_false] at hblank
  exact hne (hstop.symm.trans (Text.trimEnd_eq_nil hblank))

theorem indentLine_of_ne_nil (indent : Text) (hstop : trimEnd line = line) (hne : line ≠ []) :
    indentLine indent line = indent ++ line := by
  rw [indentLine, allBlank_eq_false hstop hne]
  rfl

/-- An indented line ends as it did. -/
theorem trimEnd_indentLine (hstop : trimEnd line = line) :
    trimEnd (indentLine indent line) = indentLine indent line := by
  by_cases hnil : line = []
  · subst hnil
    rfl
  · rw [indentLine_of_ne_nil indent hstop hnil, Text.trimEnd_append_of_ne_nil _ hnil hstop]

theorem newline_not_mem_indentLine (hindent : '\n' ∉ indent) (hline : '\n' ∉ line) :
    '\n' ∉ indentLine indent line := by
  unfold indentLine
  split
  · exact List.not_mem_nil
  · intro h
    exact (List.mem_append.mp h).elim hindent hline

/-- Lines are as they were if each of them is taken back from behind the indentation. -/
theorem map_map_append_eq {f : Text → Text} {ls : List Text}
    (h : ∀ line ∈ ls, f (indent ++ line) = line) : (ls.map (indent ++ ·)).map f = ls := by
  rw [List.map_map]
  conv_rhs => rw [← List.map_id ls]
  exact List.map_congr_left h

end Line

/-! ## Lines that are not blank -/

/-- Lines of which none is blank or ends with a blank. The first does not begin with one either. -/
structure Solid (first : Text) (more : List Text) : Prop where
  start : trimStart first = first
  newline : ∀ line ∈ first :: more, '\n' ∉ line
  stop : ∀ line ∈ first :: more, trimEnd line = line
  ne_nil : ∀ line ∈ first :: more, line ≠ []

namespace Solid

variable {indent first : Text} {more : List Text}

/-- To indent the further lines keeps them solid. -/
theorem indented (h : Solid first more) (hindent : '\n' ∉ indent) :
    Solid first (more.map (indent ++ ·)) := by
  -- the first line is left alone, and an indented line ends as it did before
  have hline : ∀ line ∈ first :: more.map (indent ++ ·),
      line = first ∨ ∃ inner ∈ more, line = indent ++ inner := by
    intro line hline
    rcases List.mem_cons.mp hline with rfl | hline
    · exact .inl rfl
    · obtain ⟨inner, hinner, rfl⟩ := List.mem_map.mp hline
      exact .inr ⟨inner, hinner, rfl⟩
  have hmore : ∀ inner ∈ more, inner ∈ first :: more := fun _ => List.mem_cons_of_mem first
  refine ⟨h.start, fun line hmem => ?_, fun line hmem => ?_, fun line hmem => ?_⟩
  · rcases hline line hmem with rfl | ⟨inner, hinner, rfl⟩
    · exact h.newline _ List.mem_cons_self
    · intro hbreak
      exact (List.mem_append.mp hbreak).elim hindent (h.newline inner (hmore inner hinner))
  · rcases hline line hmem with rfl | ⟨inner, hinner, rfl⟩
    · exact h.stop _ List.mem_cons_self
    · exact Text.trimEnd_append_of_ne_nil _ (h.ne_nil inner (hmore inner hinner))
        (h.stop inner (hmore inner hinner))
  · rcases hline line hmem with rfl | ⟨inner, hinner, rfl⟩
    · exact h.ne_nil _ List.mem_cons_self
    · exact List.append_ne_nil_of_right_ne_nil _ (h.ne_nil inner (hmore inner hinner))

/-- The lines of the joined text are the lines that were joined. -/
theorem lines_joinLines (h : Solid first more) :
    Text.lines (joinLines (first :: more)) = first :: more := by
  have hkept : ∀ line ∈ first :: more, Text.dropReturn line = line :=
    fun line hline => Text.dropReturn_of_trimEnd (h.stop line hline)
  have hfirst := h.newline first List.mem_cons_self
  by_cases hnil : more = []
  · subst hnil
    rw [Text.joinLines_singleton, Text.lines_of_not_mem hfirst (h.ne_nil _ List.mem_cons_self)]
  · rw [Text.lines_joinLines hfirst ?_ ?_ hnil, hkept first List.mem_cons_self]
    · intro line hline
      have hmem := List.mem_cons_of_mem first hline
      exact ⟨h.newline line hmem, hkept line hmem⟩
    · -- an empty last line would not be split off again
      intro line hline
      exact h.ne_nil line (List.mem_cons_of_mem first (List.mem_of_mem_getLast? hline))

/-- The joined text begins as its first line does. -/
theorem head?_joinLines (h : Solid first more) :
    (joinLines (first :: more)).head? = first.head? := by
  obtain ⟨c, rest, rfl⟩ := List.exists_cons_of_ne_nil (h.ne_nil first List.mem_cons_self)
  rw [show c :: rest = [c] ++ rest from rfl, Text.joinLines_append_cons]
  rfl

theorem trimStart_joinLines (h : Solid first more) :
    trimStart (joinLines (first :: more)) = joinLines (first :: more) := by
  rw [Text.trimStart_eq_self_iff, h.head?_joinLines]
  exact Text.trimStart_eq_self_iff.mp h.start

theorem trimEnd_joinLines (h : Solid first more) :
    trimEnd (joinLines (first :: more)) = joinLines (first :: more) := by
  obtain ⟨last, hlast⟩ : ∃ last, (first :: more).getLast? = some last :=
    ⟨_, List.getLast?_eq_some_getLast (List.cons_ne_nil _ _)⟩
  have hmem := List.mem_of_mem_getLast? hlast
  rw [Text.trimEnd_eq_self_iff, Text.getLast?_joinLines hlast (h.ne_nil last hmem)]
  exact Text.trimEnd_eq_self_iff.mp (h.stop last hmem)

/-- There are no blanks around the text, and there is no code fence if it does not begin with a
backtick. -/
theorem strip_joinLines (h : Solid first more) (hfence : first.head? ≠ some '\x60') :
    Fence.strip (joinLines (first :: more)) = joinLines (first :: more) := by
  have hnone : Fence.body? (joinLines (first :: more)) = none := by
    rw [← h.head?_joinLines] at hfence
    have hfront : Fence.mark.isPrefixOf? (joinLines (first :: more)) = none := by
      refine Option.eq_none_iff_forall_ne_some.mpr fun rest hrest => hfence ?_
      rw [← List.append_eq_of_isPrefixOf?_eq_some hrest]
      rfl
    rw [Fence.body?, hfront]
    rfl
  rw [Fence.strip, Text.trim_eq_self h.trimStart_joinLines h.trimEnd_joinLines, hnone]

/-- At a place all further lines are indented. -/
theorem indentMore_joinLines (h : Solid first more) (indent : Text) :
    indentMore indent (joinLines (first :: more))
      = joinLines (first :: more.map (indent ++ ·)) := by
  have hmore : more.map (indentLine indent) = more.map (indent ++ ·) := by
    refine List.map_congr_left fun line hline => ?_
    have hmem := List.mem_cons_of_mem first hline
    exact indentLine_of_ne_nil indent (h.stop line hmem) (h.ne_nil line hmem)
  rw [indentMore, h.trimEnd_joinLines, h.lines_joinLines]
  change joinLines (trimStart first :: more.map (indentLine indent)) = _
  rw [h.start, hmore]

/-- At the margin nothing is indented. -/
theorem indentMore_nil (h : Solid first more) :
    indentMore [] (joinLines (first :: more)) = joinLines (first :: more) := by
  rw [h.indentMore_joinLines]
  simp

end Solid

/-! ## Stable styles -/

/-- If rendering takes the comment for every place back to the margin, to render it again and to
make the comment of one place anew for another changes nothing. -/
theorem stable_of_render_indentMore (style : CommentStyle) {raw : Text}
    (hmargin : indentMore [] (style.render raw) = style.render raw)
    (h : ∀ indent, allBlank indent = true → '\n' ∉ indent →
      style.render (indentMore indent (style.render raw)) = style.render raw) :
    style.render (style.render raw) = style.render raw ∧
    ∀ (source : Text) (kind : String) (r : ByteRange) (source' : Text) (kind' : String)
      (r' : ByteRange),
      ofReply style (ofReply style raw (.ofRange source kind r)).text (.ofRange source' kind' r')
        = ofReply style raw (.ofRange source' kind' r') := by
  constructor
  · have hself := h [] rfl List.not_mem_nil
    rwa [hmargin] at hself
  · intro source kind r source' kind' r'
    have hback := h _ (Snapshot.allBlank_indent source kind r)
      (Snapshot.newline_not_mem_indent source kind r)
    -- the first place is gone once the comment is back at the margin
    rw [ofReply, ofReply, ofReply, hback]

/-- A style is stable for a reply if rendering takes its solid lines back from any indentation. -/
theorem Solid.stable {first : Text} {more : List Text} (h : Solid first more)
    (style : CommentStyle) {raw : Text} (hrender : style.render raw = joinLines (first :: more))
    (hback : ∀ indent, allBlank indent = true → '\n' ∉ indent →
      style.render (joinLines (first :: more.map (indent ++ ·))) = joinLines (first :: more)) :
    style.render (style.render raw) = style.render raw ∧
    ∀ (source : Text) (kind : String) (r : ByteRange) (source' : Text) (kind' : String)
      (r' : ByteRange),
      ofReply style (ofReply style raw (.ofRange source kind r)).text (.ofRange source' kind' r')
        = ofReply style raw (.ofRange source' kind' r') := by
  refine stable_of_render_indentMore style ?_ fun indent hblank hindent => ?_
  · rw [hrender, h.indentMore_nil]
  · rw [hrender, h.indentMore_joinLines, hback indent hblank hindent]

end Comment

end DocComments
