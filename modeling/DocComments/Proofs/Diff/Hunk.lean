import DocComments.Diff.Unified
import Mathlib.Tactic.Set

/-!
# Diffs without a text form

The header of a hunk counts the lines from the beginning of its first block to the end of its last
one. Where tidying has left blocks out of order there can be no such number of lines; this is the
only reason for a diff to have no text form (`unified?_eq_none_iff`). The diff of a text and itself
has no hunks (`unified?_self`).
-/

set_option autoImplicit false

namespace DocComments

namespace Diff

/-- A hunk ends in front of the line where it begins, in the old text or in the new one. -/
def Reversed (hunk : List Block) : Prop :=
  ∃ first last, hunk.head? = some first ∧ hunk.getLast? = some last ∧
    (last.oldStart + last.oldCount < first.oldStart ∨
      last.newStart + last.newCount < first.newStart)

def hunksOf (before after : Text) : List (List Block) :=
  hunks (blocks (fullLines before).toArray (fullLines after).toArray)

/-- Some hunk of the diff of two texts is reversed. -/
def HasReversedHunk (before after : Text) : Prop := ∃ hunk ∈ hunksOf before after, Reversed hunk

theorem header?_eq_none_iff {first last : Block} :
    header? first last = none ↔
      last.oldStart + last.oldCount < first.oldStart ∨
        last.newStart + last.newCount < first.newStart := by
  rw [← span?_eq_none_iff, ← span?_eq_none_iff, header?]
  cases hold : span? first.oldStart (last.oldStart + last.oldCount) with
  | none => simp
  | some old =>
    cases hnew : span? first.newStart (last.newStart + last.newCount) with
    | none => simp
    | some new => simp

theorem hunkText?_eq_none_iff {old new : Array Text} {hunk : List Block} :
    hunkText? old new hunk = none ↔ Reversed hunk := by
  rw [hunkText?]
  cases hfirst : hunk.head? with
  | none => simp [Reversed, hfirst]
  | some first =>
    cases hlast : hunk.getLast? with
    | none => simp [Reversed, hlast]
    | some last => simp [Reversed, hfirst, hlast, header?_eq_none_iff]

/-- A list is mapped to nothing if one of its members is. -/
theorem mapM_eq_none_iff {α β : Type} {f : α → Option β} {l : List α} :
    l.mapM f = none ↔ ∃ a ∈ l, f a = none := by
  induction l with
  | nil => simp [pure]
  | cons a l ih =>
    rw [List.mapM_cons]
    cases ha : f a with
    | none => simp [ha]
    | some b =>
      cases hl : l.mapM f with
      | none => simpa [ha, hl] using ih.mp hl
      | some bs =>
        have hsome : ¬ ∃ x ∈ l, f x = none := fun h => by simp [ih.mpr h] at hl
        simpa [ha, hl] using hsome

/-- A diff has no text form exactly if one of its hunks is reversed. -/
theorem unified?_eq_none_iff {before after : Text} :
    unified? before after = none ↔ HasReversedHunk before after := by
  simp only [unified?, Option.map_eq_none_iff, mapM_eq_none_iff, hunkText?_eq_none_iff]
  rfl

/-! ## Equal texts -/

theorem commonFront_self (lines : Array Text) (n i : Nat) : commonFront lines lines n i i = n := by
  induction n generalizing i with
  | zero => rfl
  | succ n ih => simp [commonFront, ih]

/-- The script of a text and itself is one block of equal lines. -/
theorem script_self (lines : Array Text) :
    script lines lines ⟨0, lines.size, 0, lines.size⟩ = equalBlock 0 0 lines.size := by
  have hstrip : (⟨0, lines.size, 0, lines.size⟩ : Window).strip lines lines
      = (lines.size, ⟨lines.size, lines.size, lines.size, lines.size⟩, 0) := by
    simp [Window.strip, Window.oldSize, Window.newSize, commonFront_self, commonBack]
  rw [script, hstrip]
  simp [Window.oldSize, Window.newSize, equalBlock]

theorem slideEach_equalBlock (lines : Array Text) (tag : Tag) (htag : tag ≠ .equal) (fuel n : Nat) :
    slideEach lines lines tag (fuel + 2) [] (equalBlock 0 0 n) = equalBlock 0 0 n := by
  by_cases hn : n = 0
  · simp [equalBlock, hn, slideEach]
  · simp [equalBlock, hn, slideEach, htag.symm]

theorem blocks_self (lines : Array Text) : blocks lines lines = equalBlock 0 0 lines.size := by
  have hpasses : ∀ bs, passes lines lines bs
      = 2 * (lines.size + lines.size + bs.length) + 2 := fun bs => rfl
  rw [blocks, script_self, slideAll]
  simp only [hpasses]
  rw [slideEach_equalBlock lines .delete (by decide),
    slideEach_equalBlock lines .insert (by decide)]
  by_cases hn : lines.size = 0
  · simp [equalBlock, hn, joinFrom, changeOf]
  · simp [equalBlock, hn, joinFrom, changeOf, join?]

/-- Equal lines alone make no hunk: only a few of them are left to be shown around changes. -/
theorem hunks_singleton {b : Block} (h : b.tag = .equal) : hunks [b] = [] := by
  have hfirst : trimFirst [b]
      = [(b.down (b.oldCount - context)).shrink (b.oldCount - context)] := by
    simp [trimFirst, h]
  set first := (b.down (b.oldCount - context)).shrink (b.oldCount - context) with hdef
  have hequal : first.tag = .equal := h
  have hlast : trimLast [first] = [first.shrink (first.oldCount - context)] := by
    simp [trimLast, hequal]
  have hshort : (first.shrink (first.oldCount - context)).oldCount ≤ context := by
    simp only [Block.shrink, hequal, reduceCtorEq, if_false]
    omega
  have hsplit : ¬ ((first.shrink (first.oldCount - context)).tag = .equal ∧
      2 * context < (first.shrink (first.oldCount - context)).oldCount) := by
    rintro ⟨-, hlong⟩
    omega
  rw [hunks, hfirst, hlast, splitHunks, if_neg hsplit, List.nil_append, splitHunks, hunkOf, if_pos]
  exact hequal

theorem hunksOf_self (t : Text) : hunksOf t t = [] := by
  rw [hunksOf, blocks_self, equalBlock]
  split
  · rfl
  · exact hunks_singleton rfl

/-- A text does not differ from itself. -/
theorem unified?_self (t : Text) : unified? t t = some [] := by
  have h : hunks (blocks (fullLines t).toArray (fullLines t).toArray) = [] := hunksOf_self t
  simp only [unified?, h]
  rfl

end Diff

end DocComments
