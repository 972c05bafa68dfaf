import DocComments.Proofs.Text.Cut
import Mathlib.Data.List.TakeWhile

/-!
# The line of an offset

A text in front of an offset ends with the part of a line, `Text.lead`, which begins at
`Text.lineStart`. Of two offsets, the later one is on the line of the earlier one, and what stands
in front of it there continues what stands in front of the earlier one, or its line begins behind
the earlier one (`same_line_or_behind`).
-/

set_option autoImplicit false

namespace DocComments

namespace Text

/-! ## The last line of a text -/

theorem newline_not_mem_lastLine (t : Text) : '\n' ∉ lastLine t := by
  intro h
  have hmem := List.mem_takeWhile_imp (List.mem_reverse.mp h)
  simp at hmem

/-- A line feed in the back part ends what stands in front of it. -/
theorem lastLine_append_of_mem {s t : Text} (h : '\n' ∈ t) : lastLine (s ++ t) = lastLine t := by
  have hstop : ¬ ((t.reverse.takeWhile (· != '\n')).length = t.reverse.length) := by
    intro hlength
    have hall := (List.takeWhile_prefix _).eq_of_length hlength
    have hmem : '\n' ∈ t.reverse.takeWhile (· != '\n') := by
      rw [hall]
      exact List.mem_reverse.mpr h
    exact newline_not_mem_lastLine t (List.mem_reverse.mpr hmem)
  rw [lastLine, List.reverse_append, List.takeWhile_append, if_neg hstop, lastLine]

theorem lastLine_append_of_not_mem {s t : Text} (h : '\n' ∉ t) :
    lastLine (s ++ t) = lastLine s ++ t := by
  have hall : ∀ c ∈ t.reverse, (c != '\n') = true := by
    intro c hc
    refine bne_iff_ne.mpr fun hline => h ?_
    rw [← hline]
    exact List.mem_reverse.mp hc
  rw [lastLine, List.reverse_append, List.takeWhile_append_of_pos hall, List.reverse_append,
    List.reverse_reverse, lastLine]

/-- The last line is what the text ends with. -/
theorem lastLine_suffix (t : Text) : lastLine t <:+ t := by
  have h : t.reverse.takeWhile (· != '\n') <+: t.reverse := List.takeWhile_prefix _
  rw [← List.reverse_suffix, List.reverse_reverse] at h
  exact h

/-- A text with a line feed is longer than its last line. -/
theorem byteSize_lastLine_lt {t : Text} (h : '\n' ∈ t) : byteSize (lastLine t) < byteSize t := by
  obtain ⟨front, hfront⟩ := lastLine_suffix t
  have hne : front ≠ [] := by
    rintro rfl
    rw [List.nil_append] at hfront
    exact newline_not_mem_lastLine t (hfront.symm ▸ h)
  have hsize := congrArg byteSize hfront
  rw [byteSize_append] at hsize
  have hpos : byteSize front ≠ 0 := fun h0 => hne (eq_nil_of_byteSize_eq_zero h0)
  omega

/-! ## The line of an offset -/

/-- What stands in front of an offset on its line. -/
def lead (n : Nat) (t : Text) : Text := lastLine (takeBytes n t)

/-- The offset at which the line of an offset begins. -/
def lineStart (n : Nat) (t : Text) : Nat := n - byteSize (lead n t)

section Offset

variable {m n : Nat} {t : Text}

/-- What stands in front of the line of an offset, and the beginning of that line. -/
theorem exists_cut_line (hn : isBoundary n t = true) :
    ∃ front back, t = front ++ (lead n t ++ back) ∧ byteSize front = lineStart n t ∧
      byteSize front + byteSize (lead n t) = n := by
  obtain ⟨front, hfront⟩ := lastLine_suffix (takeBytes n t)
  have hsize := congrArg byteSize hfront
  rw [byteSize_append, byteSize_takeBytes hn] at hsize
  refine ⟨front, dropBytes n t, ?_, ?_, hsize⟩
  · rw [lead, ← List.append_assoc, hfront, takeBytes_append_dropBytes]
  · rw [lineStart, lead]
    omega

theorem lineStart_le (n : Nat) (t : Text) : lineStart n t ≤ n := Nat.sub_le _ _

theorem isBoundary_lineStart (hn : isBoundary n t = true) :
    isBoundary (lineStart n t) t = true := by
  obtain ⟨front, back, ht, hstart, -⟩ := exists_cut_line hn
  exact isBoundary_iff.mpr ⟨front, lead n t ++ back, ht, hstart⟩

theorem slice_lineStart (hn : isBoundary n t = true) :
    ByteRange.slice ⟨lineStart n t, n⟩ t = lead n t := by
  obtain ⟨front, back, ht, hstart, hsize⟩ := exists_cut_line hn
  have hslice := ByteRange.slice_of_cut front (lead n t) back
  rwa [← ht, hsize, hstart] at hslice

/-- A later offset is on the same line, or its line begins behind the earlier one. -/
theorem same_line_or_behind (hmn : m ≤ n) (hm : isBoundary m t = true)
    (hn : isBoundary n t = true) :
    (lineStart n t = lineStart m t ∧ lead n t = lead m t ++ ByteRange.slice ⟨m, n⟩ t) ∨
      m < lineStart n t := by
  have hsplit := ByteRange.takeBytes_append_slice hmn hm hn
  have hsize := congrArg byteSize hsplit
  rw [byteSize_append, byteSize_takeBytes hm, byteSize_takeBytes hn] at hsize
  -- is there a line feed between the two offsets?
  by_cases hline : '\n' ∈ ByteRange.slice ⟨m, n⟩ t
  · right
    have hlead : lead n t = lastLine (ByteRange.slice ⟨m, n⟩ t) := by
      rw [lead, ← hsplit, lastLine_append_of_mem hline]
    have hlt := byteSize_lastLine_lt hline
    rw [lineStart, hlead]
    omega
  · left
    have hlead : lead n t = lead m t ++ ByteRange.slice ⟨m, n⟩ t := by
      rw [lead, ← hsplit, lastLine_append_of_not_mem hline, lead]
    refine ⟨?_, hlead⟩
    rw [lineStart, lineStart, hlead, byteSize_append]
    omega

theorem lineStart_mono (hmn : m ≤ n) (hm : isBoundary m t = true) (hn : isBoundary n t = true) :
    lineStart m t ≤ lineStart n t := by
  have hle := lineStart_le m t
  rcases same_line_or_behind hmn hm hn with ⟨hsame, -⟩ | hbehind
  · omega
  · omega

/-- If what stands in front of an offset on its line is not blank, the line of a later offset with
only blanks in front of it begins behind the first offset. -/
theorem lt_lineStart_of_allBlank (hmn : m ≤ n) (hm : isBoundary m t = true)
    (hn : isBoundary n t = true) (hmlead : allBlank (lead m t) = false)
    (hnlead : allBlank (lead n t) = true) : m < lineStart n t := by
  rcases same_line_or_behind hmn hm hn with ⟨-, hlead⟩ | hbehind
  · rw [hlead, allBlank, List.all_append, Bool.and_eq_true] at hnlead
    rw [allBlank, hnlead.1] at hmlead
    cases hmlead
  · exact hbehind

end Offset

end Text

end DocComments
