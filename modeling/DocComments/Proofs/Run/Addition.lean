import DocComments.Run.Treatment
import DocComments.Proofs.Edit.Insertion
import DocComments.Proofs.Text.Line

/-!
# The insertion of new comments

A new comment is inserted in front of its anchor, with a line break and the indentation of the
anchor behind it. Of several comments for one place only the first can be inserted
(`Addition.firsts`). Where only blanks stand in front of the anchor on its line, the insertion is as
good as one of whole lines in front of that line (`weave_map_lineEdit`), and these lines are blank
or begin with the same blanks (`exists_lines_of_lineEdit`).
-/

set_option autoImplicit false

namespace DocComments

/-! ## The lines of a comment -/

theorem Text.joinLines_append_newline {lines : List Text} (h : lines ≠ []) :
    joinLines lines ++ ['\n'] = (lines.map (· ++ ['\n'])).flatten := by
  induction lines with
  | nil => exact absurd rfl h
  | cons line lines ih =>
    cases lines with
    | nil => simp [joinLines]
    | cons next more =>
      have hjoin : joinLines (line :: next :: more) = line ++ '\n' :: joinLines (next :: more) := by
        simp [joinLines]
      rw [hjoin, List.map_cons, List.flatten_cons, ← ih (List.cons_ne_nil _ _)]
      simp

/-- Behind an indentation, a text that is indented further is made of lines that are blank or begin
with that indentation. -/
theorem Comment.exists_lines {indent : Text} (hindent : '\n' ∉ indent) (t : Text) :
    ∃ lines : List Text,
      indent ++ indentMore indent t ++ ['\n'] = (lines.map (· ++ ['\n'])).flatten ∧
      ∀ line ∈ lines, '\n' ∉ line ∧ (Text.allBlank line = true ∨ indent <+: line) := by
  unfold indentMore
  cases hlines : Text.lines (Text.trimEnd t) with
  | nil =>
    refine ⟨[indent], by simp, fun line hline => ?_⟩
    rw [List.mem_singleton.mp hline]
    exact ⟨hindent, .inr List.prefix_rfl⟩
  | cons first more =>
    have hnone : ∀ line ∈ first :: more, '\n' ∉ line :=
      fun line hline => Text.newline_not_mem_of_mem_lines (hlines ▸ hline)
    refine ⟨(indent ++ Text.trimStart first) :: more.map (indentLine indent), ?_, ?_⟩
    · rw [List.append_assoc, Text.joinLines_append_newline (List.cons_ne_nil _ _)]
      simp
    · intro line hline
      rcases List.mem_cons.mp hline with rfl | hline
      · refine ⟨?_, .inr (List.prefix_append _ _)⟩
        intro h
        rcases List.mem_append.mp h with h | h
        · exact hindent h
        · exact hnone first List.mem_cons_self ((List.dropWhile_sublist _).subset h)
      · obtain ⟨inner, hinner, rfl⟩ := List.mem_map.mp hline
        unfold indentLine
        split
        · exact ⟨List.not_mem_nil, .inl rfl⟩
        · refine ⟨?_, .inr (List.prefix_append _ _)⟩
          intro h
          rcases List.mem_append.mp h with h | h
          · exact hindent h
          · exact hnone inner (List.mem_cons_of_mem _ hinner) h

/-- A planned declaration with its new comment. -/
structure Addition where
  planned : Planned
  comment : Comment
  deriving DecidableEq, Repr

namespace Addition

def position (a : Addition) : Nat := a.planned.anchor.range.start

def edit (a : Addition) : Edit := ⟨⟨a.position, a.position⟩, a.comment.insertion⟩

def lead (source : Text) (a : Addition) : Text := Text.lead a.position source

/-- The insertion of the comment as whole lines in front of the line of the anchor, where only
blanks stand in front of the anchor. -/
def lineEdit (source : Text) (a : Addition) : Edit :=
  if Text.allBlank (a.lead source) then
    let start := Text.lineStart a.position source
    ⟨⟨start, start⟩, a.lead source ++ a.comment.text ++ ['\n']⟩
  else a.edit

theorem edits_missing (p : Planned) (comment : Comment) :
    Pass.missing.edits p comment = [edit ⟨p, comment⟩] := rfl

/-- The anchor begins between two characters of the source, and the comment is the one for that
place. -/
structure IsPlaced (style : CommentStyle) (source : Text) (a : Addition) : Prop where
  boundary : Text.isBoundary a.position source = true
  comment : ∃ reply, a.comment = Comment.ofReply style reply a.planned.anchor
  indent : Text.allBlank (a.lead source) = true → a.planned.anchor.indent = a.lead source

/-! ## One comment for each place -/

/-- Of some additions, those that are the first at their place. -/
def firsts : List Addition → List Addition
  | [] => []
  | a :: as => a :: (firsts as).filter fun b => b.position != a.position

theorem firsts_sublist (as : List Addition) : (firsts as).Sublist as := by
  induction as with
  | nil => exact List.Sublist.slnil
  | cons a as ih => exact (List.filter_sublist.trans ih).cons_cons a

/-- Every place that some addition has is the place of a first one. -/
theorem mem_map_position_firsts {as : List Addition} {n : Nat} :
    n ∈ (firsts as).map position ↔ n ∈ as.map position := by
  induction as with
  | nil => rfl
  | cons a as ih =>
    rw [firsts, List.map_cons, List.map_cons, List.mem_cons, List.mem_cons, ← ih]
    by_cases hn : n = a.position
    · simp [hn]
    · simp only [List.mem_map, List.mem_filter, bne_iff_ne, hn, false_or]
      refine exists_congr fun b => ⟨fun h => ⟨h.1.1, h.2⟩, fun h => ⟨⟨h.1, ?_⟩, h.2⟩⟩
      rw [h.2]
      exact hn

/-- One more addition is a first one unless its place is taken. -/
theorem firsts_concat (as : List Addition) (a : Addition) :
    firsts (as ++ [a]) =
      if a.position ∈ as.map position then firsts as else firsts as ++ [a] := by
  induction as with
  | nil => rfl
  | cons b as ih =>
    rw [List.cons_append, firsts, ih]
    by_cases hb : a.position = b.position
    · -- the first of the list takes the place, whatever the others do
      have hdrop : ((if a.position ∈ as.map position then firsts as
          else firsts as ++ [a]).filter fun x => x.position != b.position)
          = (firsts as).filter fun x => x.position != b.position := by
        split
        · rfl
        · simp [List.filter_append, hb]
      rw [hdrop, if_pos (by simp [hb]), firsts]
    · by_cases hmem : a.position ∈ as.map position
      · have hmem' : a.position ∈ (b :: as).map position := List.mem_cons_of_mem _ hmem
        rw [if_pos hmem, if_pos hmem', firsts]
      · have hmem' : a.position ∉ (b :: as).map position := by
          simpa [hb] using hmem
        rw [if_neg hmem, if_neg hmem', firsts, List.filter_append]
        simp [hb]

/-- No two of the first additions have the same place. -/
theorem pairwise_firsts (as : List Addition) :
    (firsts as).Pairwise fun a b => a.position ≠ b.position := by
  induction as with
  | nil => exact List.Pairwise.nil
  | cons a as ih =>
    refine List.pairwise_cons.mpr ⟨fun b hb => ?_, ih.filter _⟩
    have hne : (b.position != a.position) = true := (List.mem_filter.mp hb).2
    exact (bne_iff_ne.mp hne).symm

/-! ## The order of the source -/

/-- Additions at different places can be put in the order in which they stand. -/
theorem exists_sorted {as : List Addition}
    (has : as.Pairwise fun a b => a.position ≠ b.position) :
    ∃ sorted : List Addition, sorted.Perm as ∧
      sorted.Pairwise fun a b => a.position < b.position := by
  let sorted := as.mergeSort fun a b => a.position ≤ b.position
  have hperm : sorted.Perm as := List.mergeSort_perm as _
  have hstarts : sorted.Pairwise fun a b => decide (a.position ≤ b.position) = true := by
    refine List.pairwise_mergeSort ?_ ?_ as
    · intro a b c hab hbc
      simp only [decide_eq_true_eq] at hab hbc ⊢
      omega
    · intro a b
      simp only [Bool.or_eq_true, decide_eq_true_eq]
      omega
  have hdiffer : sorted.Pairwise fun a b => a.position ≠ b.position :=
    hperm.symm.pairwise has fun h => Ne.symm h
  refine ⟨sorted, hperm, (hstarts.and hdiffer).imp fun {a b} hab => ?_⟩
  exact Nat.lt_of_le_of_ne (of_decide_eq_true hab.1) hab.2

section Sorted

variable {style : CommentStyle} {source : Text} {as : List Addition}

theorem inOrder_map_edit (hsorted : as.Pairwise fun a b => a.position < b.position) :
    Edit.InOrder (as.map edit) :=
  List.pairwise_map.mpr (hsorted.imp fun hab => ⟨hab, Nat.le_of_lt hab⟩)

theorem IsPlaced.fits_edit {a : Addition} (ha : a.IsPlaced style source) :
    a.edit.range.fits source = true :=
  ByteRange.fits_iff.mpr ⟨Nat.le_refl _, ha.boundary, ha.boundary⟩

/-- To delete the comments that were inserted is to bring back the source. -/
theorem weave_removals_map_edit (has : ∀ a ∈ as, a.IsPlaced style source)
    (hsorted : as.Pairwise fun a b => a.position < b.position) :
    Edit.weave (Edit.weave source 0 (as.map edit)) 0 (Edit.removals 0 (as.map edit)) = source := by
  refine Edit.weave_removals (inOrder_map_edit hsorted) (fun e he => ?_) fun e he => ?_
  · obtain ⟨a, ha, rfl⟩ := List.mem_map.mp he
    exact (has a ha).fits_edit
  · obtain ⟨a, -, rfl⟩ := List.mem_map.mp he
    rfl

/-! ## Whole lines -/

theorem IsPlaced.insertion_eq {a : Addition} (ha : a.IsPlaced style source)
    (hblank : Text.allBlank (a.lead source) = true) :
    a.comment.insertion = a.comment.text ++ ['\n'] ++ a.lead source := by
  obtain ⟨reply, hreply⟩ := ha.comment
  rw [Comment.insertion, hreply, Comment.ofReply, ha.indent hblank]

/-- The lines that are inserted where only blanks stand in front of the anchor: each of them is
blank or begins with these blanks. -/
theorem IsPlaced.exists_lines_of_lineEdit {a : Addition} (ha : a.IsPlaced style source)
    (hblank : Text.allBlank (a.lead source) = true) :
    ∃ lines : List Text,
      a.lineEdit source = ⟨⟨Text.lineStart a.position source, Text.lineStart a.position source⟩,
        (lines.map (· ++ ['\n'])).flatten⟩ ∧
      ∀ line ∈ lines, '\n' ∉ line ∧ (Text.allBlank line = true ∨ a.lead source <+: line) := by
  obtain ⟨reply, hreply⟩ := ha.comment
  have hlead : '\n' ∉ a.lead source := Text.newline_not_mem_lastLine _
  obtain ⟨lines, htext, hlines⟩ := Comment.exists_lines hlead (style.render reply)
  refine ⟨lines, ?_, hlines⟩
  rw [lineEdit, if_pos hblank, ← htext, hreply, Comment.ofReply, ha.indent hblank]

/-- An edit of whole lines stands no later than the insertion, and on the same line. -/
theorem lineStart_le_lineEdit (source : Text) (a : Addition) :
    Text.lineStart a.position source ≤ (a.lineEdit source).range.start := by
  unfold lineEdit
  split
  · exact Nat.le_refl _
  · exact Text.lineStart_le _ _

/-- The invariant of the move to whole lines: what stands between the beginning of a line and the
place that is reached may be put out in front of the next insertion or behind it. -/
theorem slice_append_weave {l s : Nat} (hls : l ≤ s) (hl : Text.isBoundary l source = true)
    (hs : Text.isBoundary s source = true) (has : ∀ a ∈ as, a.IsPlaced style source)
    (hsorted : as.Pairwise fun a b => a.position < b.position)
    (hbehind : ∀ a ∈ as, s ≤ a.position)
    (hlines : ∀ a ∈ as, l ≤ (a.lineEdit source).range.start) :
    ByteRange.slice ⟨l, s⟩ source ++ Edit.weave source s (as.map edit)
      = Edit.weave source l (as.map (lineEdit source)) := by
  induction as generalizing l s with
  | nil => exact ByteRange.slice_append_dropBytes hls hl hs
  | cons a as ih =>
    obtain ⟨hfirst, hrest⟩ := List.pairwise_cons.mp hsorted
    have ha := has a List.mem_cons_self
    have hplaced : ∀ b ∈ as, b.IsPlaced style source :=
      fun b hb => has b (List.mem_cons_of_mem _ hb)
    have hs' := hbehind a List.mem_cons_self
    have hl' := hlines a List.mem_cons_self
    have hnext : ∀ b ∈ as, a.position ≤ b.position := fun b hb => Nat.le_of_lt (hfirst b hb)
    rw [List.map_cons, List.map_cons, Edit.weave, Edit.weave]
    show ByteRange.slice ⟨l, s⟩ source ++ (ByteRange.slice ⟨s, a.position⟩ source ++
      (a.comment.insertion ++ Edit.weave source a.position (as.map edit))) = _
    rw [← List.append_assoc, ByteRange.slice_append_slice hls hs' hl hs ha.boundary]
    by_cases hblank : Text.allBlank (a.lead source) = true
    · -- the insertion moves to the beginning of its line, and the blanks behind it
      have hstart := Text.isBoundary_lineStart ha.boundary
      have hle := Text.lineStart_le a.position source
      have hmoved : a.lineEdit source = ⟨⟨Text.lineStart a.position source,
          Text.lineStart a.position source⟩, a.lead source ++ a.comment.text ++ ['\n']⟩ := by
        rw [lineEdit, if_pos hblank]
      rw [hmoved] at hl' ⊢
      -- later additions on the same line move to the same place, behind this one
      have hback := ih hle hstart ha.boundary hplaced hrest hnext fun b hb =>
        (Text.lineStart_mono (hnext b hb) ha.boundary (hplaced b hb).boundary).trans
          (lineStart_le_lineEdit source b)
      have hlead : ByteRange.slice ⟨Text.lineStart a.position source, a.position⟩ source
          = a.lead source := Text.slice_lineStart ha.boundary
      rw [← hback, ← ByteRange.slice_append_slice hl' hle hl hstart ha.boundary, hlead,
        ha.insertion_eq hblank]
      simp only [List.append_assoc]
    · -- the insertion stays, and no later one moves in front of it
      have hstays : a.lineEdit source = a.edit := by
        rw [lineEdit, if_neg hblank]
      have hback := ih (Nat.le_refl a.position) ha.boundary ha.boundary hplaced hrest hnext
        fun b hb => by
          unfold lineEdit
          split
          · next hb' =>
            exact Nat.le_of_lt (Text.lt_lineStart_of_allBlank (hnext b hb) ha.boundary
              (hplaced b hb).boundary (Bool.eq_false_iff.mpr hblank) hb')
          · exact hnext b hb
      rw [ByteRange.slice_self, List.nil_append] at hback
      rw [hback, hstays]
      rfl

/-- To insert comments in front of their anchors is to insert whole lines where only blanks stand in
front of the anchor. -/
theorem weave_map_lineEdit (has : ∀ a ∈ as, a.IsPlaced style source)
    (hsorted : as.Pairwise fun a b => a.position < b.position) :
    Edit.weave source 0 (as.map edit) = Edit.weave source 0 (as.map (lineEdit source)) := by
  have hzero := Text.isBoundary_zero source
  have h := slice_append_weave (Nat.le_refl 0) hzero hzero has hsorted (fun a _ => Nat.zero_le _)
    fun a _ => Nat.zero_le _
  rwa [ByteRange.slice_self, List.nil_append] at h

end Sorted

end Addition

end DocComments
