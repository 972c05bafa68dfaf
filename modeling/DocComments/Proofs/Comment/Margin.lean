import DocComments.Proofs.Comment.Indent
import DocComments.Proofs.Comment.Quoting
import DocComments.Proofs.Text.Cut
import DocComments.Proofs.Text.Occurrences

/-!
# Lines at the margin

A docstring is kept with its lines behind the first at the margin: `Flush` says that they end
without blanks, that the last of them is not empty, and that one of them begins without blanks. To
move the lines of a trimmed text to the margin leaves such lines (`exists_flush`), and lines that
were indented further come back as they were (`dedent_indented`), but for a carriage return at the
end of the first line: the end of this line is not trimmed.
-/

set_option autoImplicit false

namespace DocComments

open Text (joinLines allBlank trimStart trimEnd dropReturn byteSize)

open Comment (indentLine)

namespace Docstring

/-! ## The margin of lines -/

section Margin

variable {line : Text} {ls : List Text} {n : Nat}

/-- No line that is not blank begins in front of the margin. -/
theorem margin_le_indentOf (hline : line ∈ ls) (hblank : allBlank line = false) :
    margin ls ≤ indentOf line := by
  have hmem : indentOf line ∈ (ls.filter fun line => !allBlank line).map indentOf :=
    List.mem_map_of_mem (List.mem_filter.mpr ⟨hline, by rw [hblank]; rfl⟩)
  unfold margin
  cases hmin : ((ls.filter fun line => !allBlank line).map indentOf).min? with
  | none => exact Nat.zero_le _
  | some m => exact (List.min?_eq_some_iff.mp hmin).2 _ hmem

/-- Some line that is not blank begins at the margin. -/
theorem exists_indentOf_eq_margin (hline : line ∈ ls) (hblank : allBlank line = false) :
    ∃ first ∈ ls, allBlank first = false ∧ indentOf first = margin ls := by
  have hmem : indentOf line ∈ (ls.filter fun line => !allBlank line).map indentOf :=
    List.mem_map_of_mem (List.mem_filter.mpr ⟨hline, by rw [hblank]; rfl⟩)
  unfold margin
  cases hmin : ((ls.filter fun line => !allBlank line).map indentOf).min? with
  | none =>
    rw [List.min?_eq_none_iff] at hmin
    exact absurd hmem (hmin ▸ List.not_mem_nil)
  | some m =>
    obtain ⟨first, hfirst, hm⟩ := List.mem_map.mp (List.min?_eq_some_iff.mp hmin).1
    obtain ⟨hmemFirst, hblankFirst⟩ := List.mem_filter.mp hfirst
    exact ⟨first, hmemFirst, by simpa using hblankFirst, hm⟩

theorem infix_cutMargin (n : Nat) (line : Text) : cutMargin n line <:+: line := by
  refine (Text.prefix_trimEnd _).isInfix.trans ?_
  split
  · conv_rhs => rw [← Text.takeBytes_append_dropBytes n line]
    exact (List.suffix_append _ _).isInfix
  · exact (List.dropWhile_suffix _).isInfix

theorem cutMargin_of_allBlank (n : Nat) (hblank : allBlank line = true) :
    cutMargin n line = [] := by
  have h := Text.allBlank_of_subset ((infix_cutMargin n line).subset) hblank
  rw [← Text.trimEnd_eq_nil h, cutMargin, Text.trimEnd_trimEnd]

theorem takeWhile_append_trimStart (line : Text) :
    line.takeWhile Text.isBlank ++ trimStart line = line :=
  List.takeWhile_append_dropWhile

theorem isBoundary_indentOf (line : Text) : Text.isBoundary (indentOf line) line = true :=
  Text.isBoundary_iff.mpr ⟨_, _, (takeWhile_append_trimStart line).symm, rfl⟩

theorem takeBytes_indentOf (line : Text) :
    Text.takeBytes (indentOf line) line = line.takeWhile Text.isBlank := by
  have h := Text.takeBytes_byteSize_append (line.takeWhile Text.isBlank) (trimStart line)
  rwa [takeWhile_append_trimStart] at h

theorem dropBytes_indentOf (line : Text) :
    Text.dropBytes (indentOf line) line = trimStart line := by
  have h := Text.dropBytes_byteSize_append (line.takeWhile Text.isBlank) (trimStart line)
  rwa [takeWhile_append_trimStart] at h

theorem indentOf_append {indent : Text} (hblank : allBlank indent = true) (line : Text) :
    indentOf (indent ++ line) = byteSize indent + indentOf line := by
  rw [indentOf, List.takeWhile_append_of_pos (List.all_eq_true.mp hblank), Text.byteSize_append,
    indentOf]

/-- A line is cut behind some of its blanks in front. -/
theorem exists_cutMargin_eq (h : n ≤ indentOf line) :
    ∃ w, allBlank w = true ∧ cutMargin n line = trimEnd (w ++ trimStart line) := by
  unfold cutMargin
  split
  · next hboundary =>
    refine ⟨ByteRange.slice ⟨n, indentOf line⟩ line, ?_, ?_⟩
    · -- what is left of the blanks in front is a piece of them
      have hfront := ByteRange.takeBytes_append_slice h hboundary (isBoundary_indentOf line)
      rw [takeBytes_indentOf] at hfront
      have hmem : ByteRange.slice ⟨n, indentOf line⟩ line ⊆ line.takeWhile Text.isBlank := by
        rw [← hfront]
        exact List.subset_append_right _ _
      exact List.all_eq_true.mpr fun c hc => List.mem_takeWhile_imp (hmem hc)
    · rw [← dropBytes_indentOf,
        ByteRange.slice_append_dropBytes h hboundary (isBoundary_indentOf line)]
  · exact ⟨[], rfl, rfl⟩

/-- The line at the margin loses its blanks at both ends. -/
theorem cutMargin_indentOf (line : Text) : cutMargin (indentOf line) line = Text.trim line := by
  rw [cutMargin, if_pos (isBoundary_indentOf line), dropBytes_indentOf, Text.trim]

/-- Only blanks are cut off from a line behind the margin. -/
theorem count_cutMargin {c : Char} (hc : Text.isBlank c = false) (hline : line ∈ ls) :
    (cutMargin (margin ls) line).count c = line.count c := by
  by_cases hblank : allBlank line = true
  · rw [cutMargin_of_allBlank _ hblank, Text.count_eq_zero_of_allBlank hc hblank, List.count_nil]
  · rw [Bool.not_eq_true] at hblank
    obtain ⟨w, hw, hcut⟩ := exists_cutMargin_eq (margin_le_indentOf hline hblank)
    rw [hcut, Text.count_trimEnd hc, List.count_append, Text.count_eq_zero_of_allBlank hc hw,
      Text.count_trimStart hc, Nat.zero_add]

theorem cutMargin_ne_nil (hline : line ∈ ls) (hblank : allBlank line = false) :
    cutMargin (margin ls) line ≠ [] := by
  obtain ⟨c, hmem, hc⟩ := List.all_eq_false.mp hblank
  intro hempty
  have hcount := count_cutMargin (eq_false_of_ne_true hc) hline
  rw [hempty, List.count_nil, eq_comm, List.count_eq_zero] at hcount
  exact hcount hmem

end Margin

/-! ## Lines at the margin -/

/-- The lines of a trimmed text, those behind the first at the margin. -/
structure Flush (first : Text) (more : List Text) : Prop where
  newline_first : '\n' ∉ first
  newline : ∀ line ∈ more, '\n' ∉ line
  /-- the first line begins without blanks -/
  start : trimStart first = first
  ne_nil : more ≠ [] → first ≠ []
  /-- the end of the first line is trimmed if no other line follows -/
  stop_first : more = [] → trimEnd first = first
  stop : ∀ line ∈ more, trimEnd line = line
  last : ∀ line ∈ more.getLast?, line ≠ []
  /-- some line behind the first begins without blanks -/
  edge : more ≠ [] → ∃ line ∈ more, line ≠ [] ∧ trimStart line = line

/-- A text with a trimmed end has a last line, which is not blank and has a trimmed end. -/
theorem exists_last_line {t : Text} (hne : t ≠ []) (ht : trimEnd t = t) :
    ∃ last, (Text.lines t).getLast? = some last ∧ allBlank last = false ∧ trimEnd last = last := by
  obtain ⟨d, hd⟩ : ∃ d, t.getLast? = some d := ⟨_, List.getLast?_eq_some_getLast hne⟩
  have hdblank : Text.isBlank d = false := Text.trimEnd_eq_self_iff.mp ht d hd
  obtain ⟨last, hlast, hend⟩ := Text.exists_getLast?_lines hdblank hd
  refine ⟨last, hlast, List.all_eq_false.mpr ⟨d, List.mem_of_mem_getLast? hend, ?_⟩, ?_⟩
  · rw [hdblank]
    exact Bool.false_ne_true
  · rw [Text.trimEnd_eq_self_iff, hend]
    rintro e he
    rw [← Option.some.inj he]
    exact hdblank

/-- To move the lines of a trimmed text to the margin leaves such lines. -/
theorem exists_flush {t : Text} (ht : Text.trim t = t) :
    ∃ first more, dedent t = joinLines (first :: more) ∧ Flush first more := by
  cases t with
  | nil =>
    refine ⟨[], [], rfl, ?_⟩
    constructor <;> simp
  | cons c t =>
    have hc : Text.isBlank c = false :=
      Text.trimStart_eq_self_iff.mp (ht ▸ Text.trimStart_trim (c :: t)) c rfl
    obtain ⟨first, more, hlines⟩ := Text.exists_lines_eq_cons hc t
    obtain ⟨last, hlast, hlastBlank, hlastStop⟩ :=
      exists_last_line (List.cons_ne_nil c t) (ht ▸ Text.trimEnd_trim (c :: t))
    rw [hlines] at hlast
    have hlastMore : more ≠ [] → last ∈ more := by
      intro hne
      rw [List.getLast?_cons_of_ne_nil hne] at hlast
      exact List.mem_of_mem_getLast? hlast
    have hnone : ∀ line ∈ (c :: first) :: more, '\n' ∉ line :=
      fun line hline => Text.newline_not_mem_of_mem_lines (hlines ▸ hline)
    refine ⟨c :: first, more.map (cutMargin (margin more)), by rw [dedent, hlines], ?_⟩
    refine ⟨hnone _ List.mem_cons_self, ?_, Text.trimStart_cons_of_not_blank _ hc,
      fun _ => List.cons_ne_nil _ _, ?_, ?_, ?_, ?_⟩
    · intro line hline
      obtain ⟨inner, hinner, rfl⟩ := List.mem_map.mp hline
      exact fun h => hnone inner (List.mem_cons_of_mem _ hinner) ((infix_cutMargin _ _).subset h)
    · intro hnil
      rw [List.map_eq_nil_iff] at hnil
      subst hnil
      have hsame : c :: first = last := Option.some.inj hlast
      rw [hsame, hlastStop]
    · intro line hline
      obtain ⟨inner, -, rfl⟩ := List.mem_map.mp hline
      exact Text.trimEnd_trimEnd _
    · intro line hline
      by_cases hnil : more = []
      · subst hnil
        cases hline
      · rw [List.getLast?_cons_of_ne_nil hnil] at hlast
        rw [List.getLast?_map, hlast] at hline
        obtain rfl := Option.some.inj hline
        exact cutMargin_ne_nil (hlastMore hnil) hlastBlank
    · intro hne
      have hnil : more ≠ [] := fun h => hne (by rw [h]; rfl)
      obtain ⟨line, hline, hblank, hmargin⟩ :=
        exists_indentOf_eq_margin (hlastMore hnil) hlastBlank
      refine ⟨_, List.mem_map_of_mem hline, cutMargin_ne_nil hline hblank, ?_⟩
      rw [← hmargin, cutMargin_indentOf, Text.trimStart_trim]

namespace Flush

variable {first : Text} {more : List Text} {indent : Text}

/-- The first line may lose the carriage return at its end. -/
theorem dropReturn_first (h : Flush first more) : Flush (dropReturn first) more := by
  have hstart : ∀ c ∈ (dropReturn first).head?, c ∈ first.head? := by
    intro c hc
    obtain ⟨rest, hrest⟩ := List.head?_eq_some_iff.mp hc
    obtain ⟨tail, htail⟩ := Text.prefix_dropReturn first
    rw [← htail, hrest]
    rfl
  have hblank := Text.trimStart_eq_self_iff.mp h.start
  refine ⟨fun hmem => h.newline_first ((Text.prefix_dropReturn first).subset hmem), h.newline,
    Text.trimStart_eq_self_iff.mpr fun c hc => hblank c (hstart c hc), ?_, ?_, h.stop, h.last,
    h.edge⟩
  · intro hne hempty
    -- a line that begins without blanks is not just a carriage return
    obtain ⟨c, rest, rfl⟩ := List.exists_cons_of_ne_nil (h.ne_nil hne)
    cases rest with
    | nil =>
      have hreturn : c = '\r' := by
        by_contra hc
        rw [Text.dropReturn_of_ne (by simpa using hc)] at hempty
        cases hempty
      have hc := hblank c rfl
      rw [hreturn] at hc
      exact absurd hc (by decide)
    | cons d rest =>
      have hkeep := Text.dropReturn_append (List.cons_ne_nil d rest) [c]
      rw [List.singleton_append, hempty] at hkeep
      cases hkeep
  · intro hnil
    rw [Text.dropReturn_of_trimEnd (h.stop_first hnil)]
    exact h.stop_first hnil

/-- Lines at the margin are kept when quotation marks are escaped. -/
theorem map_escapeQuotes (h : Flush first more) :
    Flush (escapeQuotes first) (more.map escapeQuotes) := by
  have hstop : ∀ line, trimEnd line = line → trimEnd (escapeQuotes line) = escapeQuotes line := by
    intro line hline
    rw [Text.trimEnd_eq_self_iff, getLast?_escapeQuotes]
    exact Text.trimEnd_eq_self_iff.mp hline
  have hnone : ∀ line, '\n' ∉ line → '\n' ∉ escapeQuotes line :=
    fun line hline hmem => hline (mem_of_mem_escapeQuotes (by decide) hmem)
  refine ⟨hnone _ h.newline_first, ?_, trimStart_escapeQuotes h.start, ?_, ?_, ?_, ?_, ?_⟩
  · intro line hline
    obtain ⟨inner, hinner, rfl⟩ := List.mem_map.mp hline
    exact hnone _ (h.newline inner hinner)
  · exact fun hne => escapeQuotes_ne_nil (h.ne_nil fun hnil => hne (by rw [hnil]; rfl))
  · exact fun hnil => hstop _ (h.stop_first (List.map_eq_nil_iff.mp hnil))
  · intro line hline
    obtain ⟨inner, hinner, rfl⟩ := List.mem_map.mp hline
    exact hstop _ (h.stop inner hinner)
  · intro line hline
    rw [List.getLast?_map] at hline
    obtain ⟨inner, hinner, rfl⟩ := Option.map_eq_some_iff.mp hline
    exact escapeQuotes_ne_nil (h.last inner hinner)
  · intro hne
    obtain ⟨line, hline, hnil, hstart⟩ := h.edge fun hnil => hne (by rw [hnil]; rfl)
    exact ⟨_, List.mem_map_of_mem hline, escapeQuotes_ne_nil hnil, trimStart_escapeQuotes hstart⟩

/-- Further lines that are indented have no carriage return to lose. -/
theorem lines_indented (h : Flush first more) (hindent : '\n' ∉ indent) (hne : more ≠ []) :
    Text.lines (joinLines (first :: more.map (indentLine indent)))
      = dropReturn first :: more.map (indentLine indent) := by
  refine Text.lines_joinLines h.newline_first ?_ ?_ (by simpa using hne)
  · intro line hline
    obtain ⟨inner, hinner, rfl⟩ := List.mem_map.mp hline
    exact ⟨Comment.newline_not_mem_indentLine hindent (h.newline inner hinner),
      Text.dropReturn_of_trimEnd (Comment.trimEnd_indentLine (h.stop inner hinner))⟩
  · intro line hline
    rw [List.getLast?_map] at hline
    obtain ⟨inner, hinner, rfl⟩ := Option.map_eq_some_iff.mp hline
    have hnil := h.last inner hinner
    rw [Comment.indentLine_of_ne_nil indent (h.stop inner (List.mem_of_mem_getLast? hinner)) hnil]
    simp [hnil]

theorem map_indentLine_nil (h : Flush first more) : more.map (indentLine []) = more := by
  have hline : ∀ line ∈ more, indentLine [] line = line := by
    intro line hline
    by_cases hnil : line = []
    · subst hnil
      rfl
    · exact Comment.indentLine_of_ne_nil [] (h.stop line hline) hnil
  rw [List.map_congr_left hline, List.map_id']

/-- The text ends with the same character however far its lines are indented. -/
theorem getLast?_indented (h : Flush first more) (indent : Text) :
    (joinLines (first :: more.map (indentLine indent))).getLast?
      = (joinLines (first :: more)).getLast? := by
  by_cases hnil : more = []
  · rw [hnil, List.map_nil]
  · obtain ⟨line, hline⟩ : ∃ line, more.getLast? = some line :=
      ⟨_, List.getLast?_eq_some_getLast hnil⟩
    have hne := h.last line hline
    have hindented := Comment.indentLine_of_ne_nil indent
      (h.stop line (List.mem_of_mem_getLast? hline)) hne
    have hmap : (first :: more.map (indentLine indent)).getLast? = some (indent ++ line) := by
      rw [List.getLast?_cons_of_ne_nil (by simpa using hnil), List.getLast?_map, hline, ← hindented]
      rfl
    have hlast : (first :: more).getLast? = some line := by
      rw [List.getLast?_cons_of_ne_nil hnil, hline]
    rw [Text.getLast?_joinLines hmap (by simp [hne]), Text.getLast?_joinLines hlast hne,
      List.getLast?_append_of_ne_nil _ hne]

/-- Neither end of the text is blank. -/
theorem trim_indented (h : Flush first more) (indent : Text) :
    Text.trim (joinLines (first :: more.map (indentLine indent)))
      = joinLines (first :: more.map (indentLine indent)) := by
  refine Text.trim_eq_self ?_ ?_
  · rw [Text.trimStart_eq_self_iff]
    intro c hc
    refine Text.trimStart_eq_self_iff.mp h.start c ?_
    by_cases hnil : more = []
    · rwa [hnil, List.map_nil, Text.joinLines_singleton] at hc
    · rwa [Text.joinLines_cons _ (by simpa using hnil),
        List.head?_append_of_ne_nil _ (h.ne_nil hnil)] at hc
  · rw [Text.trimEnd_eq_self_iff, h.getLast?_indented]
    by_cases hnil : more = []
    · rw [hnil, Text.joinLines_singleton]
      exact Text.trimEnd_eq_self_iff.mp (h.stop_first hnil)
    · obtain ⟨line, hline⟩ : ∃ line, more.getLast? = some line :=
        ⟨_, List.getLast?_eq_some_getLast hnil⟩
      have hlines : (first :: more).getLast? = some line := by
        rw [List.getLast?_cons_of_ne_nil hnil, hline]
      rw [Text.getLast?_joinLines hlines (h.last line hline)]
      exact Text.trimEnd_eq_self_iff.mp (h.stop line (List.mem_of_mem_getLast? hline))

/-- Carriage returns in front of a line feed stand at the end of the first line. -/
theorem infix_newline_iff (h : Flush first more) (returns : Text) (hline : '\n' ∉ returns)
    (hlast : returns.getLast? = some '\r') :
    returns ++ ['\n'] <:+: joinLines (first :: more) ↔ more ≠ [] ∧ returns <:+ first := by
  have hmem : '\n' ∈ returns ++ ['\n'] := List.mem_append_right _ List.mem_cons_self
  have hnone : ∀ ls : List Text, (∀ line ∈ ls, '\n' ∉ line ∧ trimEnd line = line) →
      ¬ returns ++ ['\n'] <:+: joinLines ls := by
    intro ls hls hpiece
    induction ls with
    | nil => exact absurd (hpiece.subset hmem) List.not_mem_nil
    | cons line ls ih =>
      obtain ⟨hnewline, hstop⟩ := hls line List.mem_cons_self
      by_cases hnil : ls = []
      · rw [hnil, Text.joinLines_singleton] at hpiece
        exact hnewline (hpiece.subset hmem)
      · rw [Text.joinLines_cons line hnil, Text.infix_append_newline_iff hnewline hline] at hpiece
        rcases hpiece with ⟨front, rfl⟩ | hpiece
        · have hblank := Text.trimEnd_eq_self_iff.mp hstop '\r' (by
            rw [List.getLast?_append, hlast]
            rfl)
          exact absurd hblank (by decide)
        · exact ih (fun line hmem => hls line (List.mem_cons_of_mem _ hmem)) hpiece
  by_cases hnil : more = []
  · rw [hnil, Text.joinLines_singleton]
    exact iff_of_false (fun hpiece => h.newline_first (hpiece.subset hmem)) fun hne => hne.1 rfl
  · rw [Text.joinLines_cons first hnil, Text.infix_append_newline_iff h.newline_first hline,
      or_iff_left (hnone more fun line hmem => ⟨h.newline line hmem, h.stop line hmem⟩)]
    exact (and_iff_right hnil).symm

/-- The line that begins without blanks makes the indentation of the others the margin. -/
theorem margin_indented (h : Flush first more) (hblank : allBlank indent = true)
    (hnil : more ≠ []) : margin (more.map (indentLine indent)) = byteSize indent := by
  have hindented : ∀ line ∈ more, line ≠ [] → indent ++ line ∈ more.map (indentLine indent) ∧
      allBlank (indent ++ line) = false := by
    intro line hline hne
    have hstop := h.stop line hline
    refine ⟨Comment.indentLine_of_ne_nil indent hstop hne ▸ List.mem_map_of_mem hline, ?_⟩
    rw [allBlank, List.all_append, ← allBlank, ← allBlank, Comment.allBlank_eq_false hstop hne,
      Bool.and_false]
  obtain ⟨line, hline, hne, hstart⟩ := h.edge hnil
  obtain ⟨hmem, hlineBlank⟩ := hindented line hline hne
  apply Nat.le_antisymm
  · have hzero : indentOf line = 0 := by
      obtain ⟨c, rest, rfl⟩ := List.exists_cons_of_ne_nil hne
      have hc := Text.trimStart_eq_self_iff.mp hstart c rfl
      simp [indentOf, hc]
    have hle := margin_le_indentOf hmem hlineBlank
    rwa [indentOf_append hblank, hzero] at hle
  · obtain ⟨low, hlow, hlowBlank, hlowMargin⟩ := exists_indentOf_eq_margin hmem hlineBlank
    obtain ⟨inner, hinner, rfl⟩ := List.mem_map.mp hlow
    have hinnerNe : inner ≠ [] := by
      rintro rfl
      cases hlowBlank
    rw [← hlowMargin, Comment.indentLine_of_ne_nil indent (h.stop inner hinner) hinnerNe,
      indentOf_append hblank]
    exact Nat.le_add_right _ _

/-- To cut off the indentation of the lines brings them back. -/
theorem map_cutMargin_indented (h : Flush first more) (indent : Text) :
    (more.map (indentLine indent)).map (cutMargin (byteSize indent)) = more := by
  have hcut : ∀ line ∈ more, cutMargin (byteSize indent) (indentLine indent line) = line := by
    intro line hline
    by_cases hempty : line = []
    · subst hempty
      exact cutMargin_of_allBlank _ rfl
    · have hboundary : Text.isBoundary (byteSize indent) (indent ++ line) = true :=
        Text.isBoundary_iff.mpr ⟨_, _, rfl, rfl⟩
      rw [Comment.indentLine_of_ne_nil indent (h.stop line hline) hempty, cutMargin,
        if_pos hboundary, Text.dropBytes_byteSize_append, h.stop line hline]
  rw [List.map_map]
  exact (List.map_congr_left hcut).trans (List.map_id' more)

end Flush

/-- Lines at the margin that were indented further come back, but for a carriage return at the end
of the first line. -/
theorem dedent_indented {first indent : Text} {more : List Text} (h : Flush first more)
    (hblank : allBlank indent = true) (hindent : '\n' ∉ indent) :
    dedent (joinLines (first :: more.map (indentLine indent)))
      = joinLines (dropReturn first :: more) := by
  by_cases hnil : more = []
  · subst hnil
    rw [List.map_nil, Text.joinLines_singleton, Text.joinLines_singleton,
      Text.dropReturn_of_trimEnd (h.stop_first rfl)]
    by_cases hempty : first = []
    · subst hempty
      rfl
    · rw [dedent, Text.lines_of_not_mem h.newline_first hempty]
      exact Text.joinLines_singleton first
  · rw [dedent, h.lines_indented hindent hnil]
    change joinLines (dropReturn first :: (more.map (indentLine indent)).map
      (cutMargin (margin (more.map (indentLine indent))))) = _
    rw [h.margin_indented hblank hnil, h.map_cutMargin_indented]

end Docstring

end DocComments
