import DocComments.Proofs.Comment.Indent

/-!
# Blocks of blocks

A reply makes a block in one of two ways: plain text gets its stars, and the lines of a block are
moved into the column of the stars. Both leave the same form, `Aligned`: the first line opens the
block, the further ones begin with a blank and a star, and the last one closes it. A block in this
form is read as a block however far its further lines are indented, and moving them back into their
column gives the block again (`Aligned.render_indented`). So blocks are stable (`block_stable`).
-/

set_option autoImplicit false

namespace DocComments

open Text (joinLines allBlank trimStart trimEnd)

namespace BlockComment

variable {first line t w : Text} {more : List Text}

/-! ## The ends of blocks -/

theorem isBlank_of_mem_closing : ∀ c ∈ closing, Text.isBlank c = false := by
  intro c hc
  rcases List.mem_pair.mp hc with rfl | rfl <;> rfl

/-- A text that begins like a block has no blanks in front. -/
theorem trimStart_of_opening (h : opening <+: t) : trimStart t = t := by
  obtain ⟨rest, rfl⟩ := h
  exact Text.trimStart_cons_of_not_blank _ (by decide)

/-- A text that ends like a block has no blanks at its end. -/
theorem trimEnd_of_closing (h : closing <:+ t) : trimEnd t = t := by
  obtain ⟨front, rfl⟩ := h
  exact Text.trimEnd_append_of_ne_nil front (by decide) (by decide)

/-- A block has something between its ends, or nothing. -/
theorem isBlock_iff : isBlock t = true ↔ ∃ inside, t = opening ++ (inside ++ closing) := by
  unfold isBlock
  constructor
  · intro h
    split at h
    · next rest hrest =>
      obtain ⟨inside, rfl⟩ := List.isSuffixOf_iff_suffix.mp h
      exact ⟨inside, (List.append_eq_of_isPrefixOf?_eq_some hrest).symm⟩
    · cases h
  · rintro ⟨inside, rfl⟩
    rw [List.isPrefixOf?_eq_some_iff_append_eq.mpr rfl]
    exact List.isSuffixOf_iff_suffix.mpr (List.suffix_append inside closing)

theorem opening_prefix_of_isBlock (h : isBlock t = true) : opening <+: t := by
  obtain ⟨inside, rfl⟩ := isBlock_iff.mp h
  exact List.prefix_append opening _

theorem closing_suffix_of_isBlock (h : isBlock t = true) : closing <:+ t := by
  obtain ⟨inside, rfl⟩ := isBlock_iff.mp h
  exact (List.suffix_append inside closing).trans (List.suffix_append opening _)

/-! ## Lines in the column of the stars -/

/-- A line behind the first in a block. -/
structure Starred (line : Text) : Prop where
  star : [' ', '*'] <+: line
  newline : '\n' ∉ line
  stop : trimEnd line = line

theorem starred_empty : Starred [' ', '*'] := ⟨List.prefix_rfl, by decide, by decide⟩

theorem starred_closing : Starred (' ' :: closing) := ⟨⟨['/'], rfl⟩, by decide, by decide⟩

/-- Text behind a star. -/
theorem starred_append (hnewline : '\n' ∉ line) (hne : line ≠ []) (hstop : trimEnd line = line) :
    Starred ([' ', '*', ' '] ++ line) :=
  ⟨⟨' ' :: line, rfl⟩, by simp [hnewline], Text.trimEnd_append_of_ne_nil _ hne hstop⟩

theorem starred_starLine (h : '\n' ∉ line) : Starred (starLine line) := by
  have hnewline : '\n' ∉ trimEnd line := fun hmem => h ((Text.prefix_trimEnd line).subset hmem)
  unfold starLine
  split
  · exact starred_empty
  · next hne => exact starred_append hnewline hne (Text.trimEnd_trimEnd line)

theorem starred_alignLine (h : '\n' ∉ line) : Starred (alignLine line) := by
  have hnewline : '\n' ∉ Text.trim line := fun hmem => h ((Text.infix_trim line).subset hmem)
  have hstop := Text.trimEnd_trim line
  unfold alignLine
  split
  · exact starred_empty
  · next rest htrim =>
    rw [htrim] at hnewline hstop
    refine ⟨⟨rest, rfl⟩, by simpa using hnewline, ?_⟩
    exact Text.trimEnd_append_of_ne_nil [' '] (List.cons_ne_nil '*' rest) hstop
  · next hne _ => exact starred_append hnewline hne hstop

/-- A line in the column of the stars is moved back there from behind any blanks. -/
theorem Starred.alignLine_append (h : Starred line) (hw : allBlank w = true) :
    alignLine (w ++ line) = line := by
  obtain ⟨rest, rfl⟩ := h.star
  have hstart : trimStart (w ++ ([' ', '*'] ++ rest)) = '*' :: rest := by
    rw [Text.trimStart_blank_append _ hw]
    rfl
  have hstop : trimEnd ('*' :: rest) = '*' :: rest := by
    have hlast := Text.trimEnd_eq_self_iff.mp h.stop
    rw [show [' ', '*'] ++ rest = ' ' :: '*' :: rest from rfl, List.getLast?_cons_cons] at hlast
    exact Text.trimEnd_eq_self_iff.mpr hlast
  rw [alignLine, Text.trim, hstart, hstop]
  rfl

/-- What closes a block at the end of a line closes it there when the line is moved. -/
theorem closing_suffix_alignLine (h : closing <:+ line) : closing <:+ alignLine line := by
  have hstart : closing <:+ trimStart line := Text.suffix_trimStart_of_suffix rfl h
  have htrim : closing <:+ Text.trim line := by
    rw [Text.trim, trimEnd_of_closing hstart]
    exact hstart
  unfold alignLine
  split
  · next hnil => exact absurd (List.suffix_nil.mp (hnil ▸ htrim)) (by decide)
  · next rest hstar => exact (hstar ▸ htrim).trans (List.suffix_cons ' ' ('*' :: rest))
  · exact htrim.trans (List.suffix_append _ _)

/-! ## The form of blocks -/

structure Aligned (first : Text) (more : List Text) : Prop where
  opens : opening <+: first
  newline : '\n' ∉ first
  stop : trimEnd first = first
  starred : ∀ line ∈ more, Starred line
  closes : ∀ last ∈ more.getLast?, closing <:+ last
  single : more = [] → isBlock first = true

namespace Aligned

theorem solid (h : Aligned first more) : Comment.Solid first more := by
  refine ⟨trimStart_of_opening h.opens, fun line hline => ?_, fun line hline => ?_,
    fun line hline => ?_⟩
  · rcases List.mem_cons.mp hline with rfl | hline
    · exact h.newline
    · exact (h.starred line hline).newline
  · rcases List.mem_cons.mp hline with rfl | hline
    · exact h.stop
    · exact (h.starred line hline).stop
  · rcases List.mem_cons.mp hline with rfl | hline
    · obtain ⟨rest, rfl⟩ := h.opens
      exact List.cons_ne_nil _ _
    · obtain ⟨back, rfl⟩ := (h.starred line hline).star
      exact List.cons_ne_nil _ _

/-- The lines of a block are a block, at any indentation. -/
theorem isBlock_indented (h : Aligned first more) (indent : Text) :
    isBlock (joinLines (first :: more.map (indent ++ ·))) = true := by
  rcases List.eq_nil_or_concat more with rfl | ⟨front, last, rfl⟩
  · rw [List.map_nil, Text.joinLines_singleton]
    exact h.single rfl
  · -- what opens the block and what closes it stand on different lines, so they cannot overlap
    obtain ⟨rest, rfl⟩ := h.opens
    obtain ⟨back, rfl⟩ := h.closes last (by simp)
    rw [isBlock_iff, Text.joinLines_append_cons]
    refine ⟨joinLines (rest :: front.map (indent ++ ·)) ++ '\n' :: (indent ++ back), ?_⟩
    rw [List.concat_eq_append, List.map_append, List.map_singleton, ← List.cons_append,
      Text.joinLines_concat (List.cons_ne_nil _ _)]
    simp

/-- A block comes back to the margin from any indentation. -/
theorem render_indented (h : Aligned first more) {indent : Text}
    (hblank : allBlank indent = true) (hindent : '\n' ∉ indent) :
    render (joinLines (first :: more.map (indent ++ ·))) = joinLines (first :: more) := by
  have hsolid := h.solid.indented hindent
  have hfence : first.head? ≠ some '\x60' := by
    obtain ⟨rest, rfl⟩ := h.opens
    exact fun hhead => absurd (Option.some.inj hhead) (by decide)
  have hmore : (more.map (indent ++ ·)).map alignLine = more :=
    Comment.map_map_append_eq fun line hline => (h.starred line hline).alignLine_append hblank
  unfold render
  simp only [hsolid.strip_joinLines hfence, h.isBlock_indented, if_true]
  rw [realign, hsolid.lines_joinLines]
  change joinLines (Text.trim first :: (more.map (indent ++ ·)).map alignLine) = _
  rw [Text.trim_eq_self h.solid.start h.stop, hmore]

end Aligned

/-! ## Both ways to make a block -/

theorem exists_ofPlain_eq (t : Text) :
    ∃ first more, ofPlain t = joinLines (first :: more) ∧ Aligned first more := by
  refine ⟨opening, (Text.lines (escapeClosing t)).map starLine ++ [' ' :: closing], rfl, ?_⟩
  refine ⟨List.prefix_rfl, by decide, by decide, fun line hline => ?_, ?_, ?_⟩
  · rcases List.mem_append.mp hline with hline | hline
    · obtain ⟨plain, hplain, rfl⟩ := List.mem_map.mp hline
      exact starred_starLine (Text.newline_not_mem_of_mem_lines hplain)
    · rw [List.mem_singleton.mp hline]
      exact starred_closing
  · intro last hlast
    rw [List.getLast?_concat] at hlast
    obtain rfl := Option.some.inj hlast
    exact List.suffix_cons ' ' closing
  · exact fun hnil => absurd hnil (by simp)

/-- A block on one line stays as it is. -/
theorem realign_of_line (h : isBlock t = true) (hline : '\n' ∉ t) :
    realign t = t ∧ Aligned t [] := by
  have hopens := opening_prefix_of_isBlock h
  have hstop := trimEnd_of_closing (closing_suffix_of_isBlock h)
  have hne : t ≠ [] := by
    rintro rfl
    cases h
  constructor
  · rw [realign, Text.lines_of_not_mem hline hne]
    change joinLines [Text.trim t] = t
    rw [Text.trim_eq_self (trimStart_of_opening hopens) hstop, Text.joinLines_singleton]
  · exact ⟨hopens, hline, hstop, by simp, by simp, fun _ => h⟩

/-- The first line of a block only loses blanks at its end. -/
theorem trim_dropReturn {s : Text} (h : opening <+: trimEnd s) :
    Text.trim (Text.dropReturn s) = trimEnd s := by
  have hprefix : opening <+: Text.dropReturn s := by
    rw [← Text.trimEnd_dropReturn] at h
    exact h.trans (Text.prefix_trimEnd _)
  rw [Text.trim, trimStart_of_opening hprefix, Text.trimEnd_dropReturn]

/-- A block of several lines is aligned line by line. -/
theorem realign_of_lines {s rest : Text} (h : isBlock (s ++ '\n' :: rest) = true)
    (hs : '\n' ∉ s) :
    realign (s ++ '\n' :: rest) = joinLines (trimEnd s :: (Text.lines rest).map alignLine) ∧
      Aligned (trimEnd s) ((Text.lines rest).map alignLine) := by
  -- there is no line feed in either end, so each of them stands on one line
  have hopens : opening <+: trimEnd s :=
    Text.prefix_trimEnd_of_prefix (by decide)
      ((Text.prefix_append_cons_iff (by decide)).mp (opening_prefix_of_isBlock h))
  obtain ⟨last, hlast, hend⟩ := Text.exists_getLast?_lines_of_suffix (by decide)
    isBlank_of_mem_closing
    (Text.suffix_of_suffix_append_cons (by decide) (closing_suffix_of_isBlock h))
  refine ⟨by rw [realign, Text.lines_append_newline hs, ← trim_dropReturn hopens], hopens,
    fun hmem => hs ((Text.prefix_trimEnd s).subset hmem), Text.trimEnd_trimEnd s, ?_, ?_, ?_⟩
  · intro line hmem
    obtain ⟨inner, hinner, rfl⟩ := List.mem_map.mp hmem
    exact starred_alignLine (Text.newline_not_mem_of_mem_lines hinner)
  · intro line hmem
    rw [List.getLast?_map, hlast] at hmem
    obtain rfl := Option.some.inj hmem
    exact closing_suffix_alignLine hend
  · -- what closes the block stands on a line behind the first
    intro hnil
    rw [List.map_eq_nil_iff] at hnil
    rw [hnil] at hlast
    cases hlast

theorem exists_realign_eq (h : isBlock t = true) :
    ∃ first more, realign t = joinLines (first :: more) ∧ Aligned first more := by
  by_cases hline : '\n' ∈ t
  · obtain ⟨s, rest, rfl, hs⟩ := List.eq_append_cons_of_mem hline
    exact ⟨_, _, realign_of_lines h hs⟩
  · obtain ⟨hrealign, haligned⟩ := realign_of_line h hline
    exact ⟨t, [], by rw [hrealign, Text.joinLines_singleton], haligned⟩

/-- Every block that is rendered has its lines in the column of the stars. -/
theorem exists_render_eq (raw : Text) :
    ∃ first more, render raw = joinLines (first :: more) ∧ Aligned first more := by
  unfold render
  by_cases h : isBlock (Fence.strip raw) = true
  · simp only [h, if_true]
    exact exists_realign_eq h
  · simp only [h]
    exact exists_ofPlain_eq _

end BlockComment

namespace Comment

open BlockComment

/-- To render a block again, and to make the block of one place anew for another, changes
nothing. -/
theorem block_stable (raw : Text) :
    render (render raw) = render raw ∧
    ∀ (source : Text) (kind : String) (r : ByteRange) (source' : Text) (kind' : String)
      (r' : ByteRange),
      ofReply .block (ofReply .block raw (.ofRange source kind r)).text (.ofRange source' kind' r')
        = ofReply .block raw (.ofRange source' kind' r') := by
  obtain ⟨first, more, hrender, haligned⟩ := exists_render_eq raw
  exact haligned.solid.stable .block hrender fun indent hblank hindent =>
    haligned.render_indented hblank hindent

end Comment

end DocComments
