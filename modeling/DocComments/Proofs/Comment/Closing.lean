import DocComments.Proofs.Comment.Block
import DocComments.Proofs.Text.Occurrences

/-!
# Where a block is closed

In plain text everything that would end the comment is escaped, so the block that is made of it is
closed at its end and nowhere else. The lines of a reply that is a block already are only moved:
nothing in them is escaped, and the block is closed as often as the reply was. So a block comment is
exactly one (`IsOneBlock`) unless the reply begins and ends like a block and is closed before its
end, too (`block_isOneBlock_iff`).
-/

set_option autoImplicit false

namespace DocComments

open Text (joinLines allBlank trimEnd occurrences)

namespace BlockComment

theorem closing_ne_nil : closing ≠ [] := List.cons_ne_nil _ _

/-! ## Lines -/

/-- Between a star and what is put behind it stands a blank. -/
theorem occurrences_append_star (line : Text) :
    occurrences closing ([' ', '*', ' '] ++ line) = occurrences closing line := by
  have h := Text.occurrences_append_cons (c := ' ') closing_ne_nil (by decide) [' ', '*'] line
  rwa [show occurrences closing [' ', '*'] = 0 by decide, Nat.zero_add] at h

theorem occurrences_starLine (line : Text) :
    occurrences closing (starLine line) = occurrences closing line := by
  have htrim := Text.occurrences_trimEnd closing_ne_nil isBlank_of_mem_closing line
  unfold starLine
  split
  · next hnil =>
    rw [← htrim, hnil]
    decide
  · rw [occurrences_append_star, htrim]

theorem occurrences_alignLine (line : Text) :
    occurrences closing (alignLine line) = occurrences closing line := by
  have htrim := Text.occurrences_trim closing_ne_nil isBlank_of_mem_closing line
  unfold alignLine
  split
  · next hnil =>
    rw [← htrim, hnil]
    decide
  · next rest hstar =>
    rw [← htrim, hstar, Text.occurrences_cons_of_not_mem closing_ne_nil (by decide)]
  · rw [occurrences_append_star, htrim]

/-! ## Whole blocks -/

theorem head?_escapeClosing (t : Text) : (escapeClosing t).head? = t.head? := by
  unfold escapeClosing
  split <;> rfl

/-- Nothing in an escaped text ends a comment. -/
theorem occurrences_escapeClosing (t : Text) : occurrences closing (escapeClosing t) = 0 := by
  fun_induction escapeClosing t with
  | case1 => decide
  | case2 rest ih =>
    have hslash : occurrences closing ('\\' :: '/' :: escapeClosing rest) = 0 := by
      rw [Text.occurrences_cons_of_not_mem closing_ne_nil (by decide), Text.occurrences_cons, ih]
      rfl
    rw [Text.occurrences_cons, hslash]
    rfl
  | case3 c rest hrest ih =>
    have hfront : closing.isPrefixOf (c :: escapeClosing rest) = false := by
      refine eq_false_of_ne_true fun h => ?_
      obtain ⟨hc, hslash⟩ := List.cons_prefix_cons.mp (List.isPrefixOf_iff_prefix.mp h)
      obtain ⟨back, hback⟩ := hslash
      -- the slash was there before the text was escaped
      have hhead := head?_escapeClosing rest
      rw [← hback] at hhead
      obtain ⟨tail, htail⟩ := List.head?_eq_some_iff.mp hhead.symm
      exact hrest tail hc.symm htail
    rw [Text.occurrences_cons, ih, hfront]
    rfl

/-- A block of plain text is closed once. -/
theorem occurrences_ofPlain (t : Text) : occurrences closing (ofPlain t) = 1 := by
  have hlines :
      (((Text.lines (escapeClosing t)).map starLine).map (occurrences closing)).sum = 0 := by
    rw [Text.sum_occurrences_map occurrences_starLine,
      Text.sum_occurrences_lines closing_ne_nil isBlank_of_mem_closing, occurrences_escapeClosing]
  rw [ofPlain, Text.occurrences_joinLines closing_ne_nil (by decide), List.map_append,
    List.map_append, List.sum_append, List.sum_append, hlines]
  decide

/-- A block is closed as often as the reply was. -/
theorem occurrences_realign (t : Text) :
    occurrences closing (realign t) = occurrences closing t := by
  have hlines := Text.sum_occurrences_lines closing_ne_nil isBlank_of_mem_closing t
  unfold realign
  split
  · next hnil =>
    rw [← hlines, hnil]
    rfl
  · next first more hcons =>
    rw [← hlines, hcons, Text.occurrences_joinLines closing_ne_nil (by decide), List.map_cons,
      List.map_cons, List.sum_cons, List.sum_cons, Text.sum_occurrences_map occurrences_alignLine,
      Text.occurrences_trim closing_ne_nil isBlank_of_mem_closing]

theorem occurrences_render (raw : Text) :
    occurrences closing (render raw)
      = if isBlock (Fence.strip raw) then occurrences closing (Fence.strip raw) else 1 := by
  unfold render
  by_cases h : isBlock (Fence.strip raw) = true
  · simp only [h, if_true]
    exact occurrences_realign _
  · simp only [h]
    exact occurrences_ofPlain _

/-! ## Exactly one block comment -/

/-- A text is one block comment: it is closed at its end and nowhere else. A slash directly behind
the two stars at the beginning would close it, too. -/
structure IsOneBlock (t : Text) : Prop where
  opens : opening <+: t
  closes : closing <:+ t
  once : occurrences closing t = 1

namespace Aligned

variable {first : Text} {more : List Text}

/-- Lines of a block begin and end like one, at any indentation, and blanks close no comment. -/
theorem ends_indented (h : Aligned first more) {indent : Text} (hblank : allBlank indent = true) :
    opening <+: joinLines (first :: more.map (indent ++ ·)) ∧
    closing <:+ joinLines (first :: more.map (indent ++ ·)) ∧
    occurrences closing (joinLines (first :: more.map (indent ++ ·)))
      = occurrences closing (joinLines (first :: more)) := by
  have hblock := h.isBlock_indented indent
  refine ⟨opening_prefix_of_isBlock hblock, closing_suffix_of_isBlock hblock, ?_⟩
  have hline : ∀ line, occurrences closing (indent ++ line) = occurrences closing line :=
    Text.occurrences_blank_append closing_ne_nil isBlank_of_mem_closing hblank
  rw [Text.occurrences_joinLines closing_ne_nil (by decide),
    Text.occurrences_joinLines closing_ne_nil (by decide), List.map_cons, List.map_cons,
    List.sum_cons, List.sum_cons, Text.sum_occurrences_map hline]

end Aligned

end BlockComment

namespace Comment

open BlockComment

/-- The block comment for a place begins and ends like one. It is exactly one unless the reply is a
block that is closed more than once. -/
theorem block_isOneBlock_iff (raw source : Text) (kind : String) (r : ByteRange) :
    opening <+: (ofReply .block raw (.ofRange source kind r)).text ∧
    closing <:+ (ofReply .block raw (.ofRange source kind r)).text ∧
    (IsOneBlock (ofReply .block raw (.ofRange source kind r)).text ↔
      ¬ (isBlock (Fence.strip raw) = true ∧ 1 < occurrences closing (Fence.strip raw))) := by
  obtain ⟨first, more, hrender, haligned⟩ := exists_render_eq raw
  obtain ⟨hopens, hcloses, hcount⟩ :=
    haligned.ends_indented (Snapshot.allBlank_indent source kind r)
  have htext : (ofReply .block raw (.ofRange source kind r)).text
      = joinLines (first :: more.map ((Snapshot.ofRange source kind r).indent ++ ·)) := by
    rw [← haligned.solid.indentMore_joinLines, ← hrender]
    rfl
  rw [← hrender, occurrences_render] at hcount
  rw [htext]
  -- the comment is closed as often as the reply was if this is a block, and else once
  refine ⟨hopens, hcloses, fun h => ?_, fun h => ⟨hopens, hcloses, ?_⟩⟩
  · rintro ⟨hblock, htwice⟩
    have honce := h.once
    rw [hcount, if_pos hblock] at honce
    omega
  · rw [hcount]
    split
    · next hblock =>
      have hsome : occurrences closing (Fence.strip raw) ≠ 0 := fun hnone =>
        (Text.occurrences_eq_zero_iff closing_ne_nil).mp hnone
          (closing_suffix_of_isBlock hblock).isInfix
      have hfew : ¬ 1 < occurrences closing (Fence.strip raw) := fun htwice => h ⟨hblock, htwice⟩
      omega
    · rfl

/-- Two blocks with code between them begin and end like one, and come out as they are. -/
theorem block_of_two_blocks_not_one :
    (ofReply .block "/** a */ f(); /** b */".toList (.ofRange "g()".toList "" ⟨0, 3⟩)).text
      = "/** a */ f(); /** b */".toList ∧
    ¬ IsOneBlock
      (ofReply .block "/** a */ f(); /** b */".toList (.ofRange "g()".toList "" ⟨0, 3⟩)).text :=
  ⟨by decide, fun h => absurd h.once (by decide)⟩

end Comment

end DocComments
