import DocComments.Proofs.Edit.Weave

/-!
# Edits that only insert

An edit with an empty range takes nothing away. Where several such edits are carried out at once,
`Edit.removals` are the edits of the new text that delete what was inserted: they bring back the
text before (`weave_removals`).
-/

set_option autoImplicit false

namespace DocComments

namespace Edit

/-- The deletions of what edits insert, as edits of the text after. The edits stand one behind the
other, and `shift` bytes are inserted in front of them. -/
def removals : Nat → List Edit → List Edit
  | _, [] => []
  | shift, e :: es =>
    let start := e.range.start + shift
    ⟨⟨start, start + Text.byteSize e.replacement⟩, []⟩ ::
      removals (shift + Text.byteSize e.replacement) es

/-- The invariant of the way back: behind any front part, in which `shift` bytes were inserted, the
deletions leave what stood behind it before. -/
theorem weave_removals_append {content : Text} (front : Text) {start : Nat} (shift : Nat)
    {edits : List Edit}
    (hstart : Text.isBoundary start content = true) (h : Chain content start edits)
    (hinsert : ∀ e ∈ edits, e.range.stop = e.range.start)
    (hfront : Text.byteSize front = start + shift) :
    weave (front ++ weave content start edits) (start + shift) (removals shift edits)
      = Text.dropBytes start content := by
  induction edits generalizing start shift front with
  | nil =>
    rw [weave, removals, weave, ← hfront, Text.dropBytes_byteSize_append]
  | cons e es ih =>
    obtain ⟨hle, hfits, htail⟩ := h
    obtain ⟨-, hposition, -⟩ := ByteRange.fits_iff.mp hfits
    have hempty := hinsert e List.mem_cons_self
    rw [hempty] at htail
    obtain ⟨a, gap, back, rfl, rfl, hgap⟩ := Text.exists_cut hle hstart hposition
    have hslice : ByteRange.slice ⟨Text.byteSize a, e.range.start⟩ (a ++ (gap ++ back)) = gap := by
      rw [← hgap, ByteRange.slice_of_cut]
    have hbehind : Text.dropBytes e.range.start (a ++ (gap ++ back)) = back := by
      rw [← hgap, Text.dropBytes_add_append, Text.dropBytes_byteSize_append]
    -- the front part, the gap and what was inserted behind it are the next front part
    have hnext := ih (front ++ gap ++ e.replacement) (shift + Text.byteSize e.replacement)
      hposition htail
      (fun x hx => hinsert x (List.mem_cons_of_mem _ hx)) (by
        rw [Text.byteSize_append, Text.byteSize_append]
        omega)
    rw [weave, hslice, hempty, removals, weave]
    generalize weave (a ++ (gap ++ back)) e.range.start es = rest at hnext ⊢
    have hgapAgain : ByteRange.slice ⟨Text.byteSize a + shift, e.range.start + shift⟩
        (front ++ (gap ++ (e.replacement ++ rest))) = gap := by
      have hends : e.range.start + shift = Text.byteSize front + Text.byteSize gap := by omega
      rw [hends, ← hfront, ByteRange.slice_of_cut]
    have hassoc : front ++ (gap ++ (e.replacement ++ rest))
        = front ++ gap ++ e.replacement ++ rest := by simp
    have hstop : e.range.start + shift + Text.byteSize e.replacement
        = e.range.start + (shift + Text.byteSize e.replacement) := Nat.add_assoc _ _ _
    rw [hgapAgain, List.nil_append, hassoc, hstop, hnext, hbehind, Text.dropBytes_byteSize_append]

/-- To delete what was inserted is to bring back the text. -/
theorem weave_removals {content : Text} {edits : List Edit} (h : InOrder edits)
    (hfits : ∀ e ∈ edits, e.range.fits content = true)
    (hinsert : ∀ e ∈ edits, e.range.stop = e.range.start) :
    weave (weave content 0 edits) 0 (removals 0 edits) = content := by
  have hback := weave_removals_append [] 0 (Text.isBoundary_zero content)
    (h.chain hfits fun e _ => Nat.zero_le _) hinsert rfl
  rwa [List.nil_append, Text.dropBytes_zero] at hback

end Edit

end DocComments
