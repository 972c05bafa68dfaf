import DocComments.Proofs.Comment.Slashes
import DocComments.Proofs.Diff.Lines

/-!
# Carriage returns in slash comments

A slash comment is made line by line, and a line feed ends a line. To those who read source code a
carriage return ends a line, too, with or without a line feed behind it (`Diff.fullLines`). What
stands behind one in the middle of a line is kept as it is and begins a line of its own, so the
lines of a slash comment are all marked exactly if three slashes stand behind every carriage return
that is kept (`slashes_marked_iff`).
-/

set_option autoImplicit false

namespace DocComments

open Text (joinLines trimEnd trim)

namespace Diff

variable {p s t : Text}

/-! ## What the lines begin with -/

/-- The text begins with a piece, and so does what stands behind each carriage return in it. -/
def BeginsWith (p s : Text) : Prop := p <+: s ∧ ∀ after, '\r' :: after <:+ s → p <+: after

theorem beginsWith_iff_of_not_mem (hs : '\r' ∉ s) : BeginsWith p s ↔ p <+: s :=
  and_iff_left fun _ h => absurd (h.subset List.mem_cons_self) hs

theorem beginsWith_append_return_iff (hp : '\r' ∉ p) (hs : '\r' ∉ s) :
    BeginsWith p (s ++ '\r' :: t) ↔ p <+: s ∧ BeginsWith p t := by
  have hsuffix : ∀ after, '\r' :: after <:+ s ++ '\r' :: t ↔ after = t ∨ '\r' :: after <:+ t := by
    intro after
    rw [Text.cons_suffix_append_iff hs, List.suffix_cons_iff, List.cons_inj_right]
  rw [BeginsWith, BeginsWith, Text.prefix_append_cons_iff hp]
  simp only [hsuffix, or_imp, forall_and, forall_eq]

/-- All lines begin with a piece if the first does, the lines behind carriage returns do, and those
behind the first line feed do. -/
theorem forall_fullLines_iff (hpfeed : '\n' ∉ p) (hpreturn : '\r' ∉ p) (hfeed : '\n' ∉ s)
    (hlast : s.getLast? ≠ some '\r') (hne : s ≠ []) (ht : ∀ c ∈ t.head?, c = '\n') :
    (∀ line ∈ fullLines (s ++ t), p <+: line) ↔
      BeginsWith p s ∧ ∀ line ∈ fullLines t.tail, p <+: line := by
  induction s using Text.induction_pieces '\r' with
  | piece s hs =>
    rw [beginsWith_iff_of_not_mem hs]
    cases t with
    | nil => simp [fullLines_of_not_mem hfeed hs hne, fullLines]
    | cons c t =>
      obtain rfl := ht c rfl
      rw [fullLines_append_end hfeed hs rfl, List.forall_mem_cons,
        Text.prefix_append_cons_iff hpfeed]
      rfl
  | next s u hs ih =>
    rw [List.mem_append, List.mem_cons, not_or, not_or] at hfeed
    have hu : u ≠ [] := by
      rintro rfl
      exact hlast List.getLast?_concat
    have hhead : (u ++ t).head? ≠ some '\n' := by
      rw [List.head?_append_of_ne_nil _ hu]
      exact fun h => hfeed.2.2 (List.mem_of_mem_head? h)
    rw [beginsWith_append_return_iff hpreturn hs, List.append_assoc, List.cons_append,
      fullLines_append_end hfeed.1 hs (fullLines_return_cons hhead), List.forall_mem_cons,
      Text.prefix_append_cons_iff hpreturn, and_assoc]
    refine and_congr_right fun _ => ih hfeed.2.2 ?_ hu
    rwa [List.append_cons, List.getLast?_append_of_ne_nil _ hu] at hlast

end Diff

namespace SlashComment

open Diff (BeginsWith)

variable {line : Text}

/-- What a comment line has of a line of a reply: blanks are cut off at the end, and in front of
slashes. -/
def kept (line : Text) : Text := if mark.isPrefixOf (trim line) then trim line else trimEnd line

/-- A comment line is in order if there are three slashes behind each carriage return that it has
of the reply. -/
theorem beginsWith_commentLine_iff :
    BeginsWith mark (commentLine line) ↔
      ∀ after, '\r' :: after <:+ kept line → mark <+: after := by
  unfold commentLine kept
  split
  · next hnil =>
    rw [hnil, if_neg (by decide), Text.trimEnd_eq_nil (Text.allBlank_of_trim_eq_nil hnil)]
    exact iff_of_true ⟨List.prefix_rfl, by simp [mark, List.suffix_cons_iff]⟩ (by simp)
  · split
    · next hmark => exact and_iff_right (List.isPrefixOf_iff_prefix.mp hmark)
    · have hfront : '\r' ∉ mark ++ [' '] := by decide
      rw [BeginsWith, and_iff_right ⟨_, (List.append_assoc _ _ _).symm⟩]
      simp only [Text.cons_suffix_append_iff hfront]

/-- The lines of a comment are marked for a reader if each comment line is in order. -/
theorem forall_fullLines_joinLines_iff {ls : List Text} (h : ∀ line ∈ ls, Marked line) :
    (∀ line ∈ Diff.fullLines (joinLines ls), mark <+: line) ↔
      ∀ line ∈ ls, BeginsWith mark line := by
  induction ls with
  | nil => exact iff_of_true (fun _ h => by cases h) (fun _ h => by cases h)
  | cons line ls ih =>
    have hline := h line List.mem_cons_self
    have hrest := ih fun other hother => h other (List.mem_cons_of_mem line hother)
    have hne : line ≠ [] := by
      obtain ⟨rest, rfl⟩ := hline.slashes
      exact List.cons_ne_nil _ _
    have hlast : line.getLast? ≠ some '\r' := fun hlast =>
      absurd (Text.trimEnd_eq_self_iff.mp hline.stop _ hlast) (by decide)
    have hiff := fun t => Diff.forall_fullLines_iff (p := mark) (t := t) (by decide) (by decide)
      hline.newline hlast hne
    rw [List.forall_mem_cons, ← hrest]
    by_cases hnil : ls = []
    · subst hnil
      have hone := hiff [] (by simp)
      rw [List.append_nil] at hone
      rw [Text.joinLines_singleton]
      exact hone
    · rw [Text.joinLines_cons line hnil]
      exact hiff _ (by simp)

/-- Every line of a slash comment that a line feed ends is marked. The lines that a reader sees, to
whom a carriage return ends a line, too, are all marked if and only if there are three slashes
behind every carriage return that is kept of the reply. -/
theorem slashes_marked_iff (raw : Text) :
    (∀ line ∈ Text.lines (render raw), mark <+: line) ∧
    ((∀ line ∈ Diff.fullLines (render raw), mark <+: line) ↔
      ∀ line ∈ Text.lines (Fence.strip raw), ∀ after, '\r' :: after <:+ kept line →
        mark <+: after) := by
  have hmarked : ∀ line ∈ (Text.lines (Fence.strip raw)).map commentLine, Marked line := by
    intro line hline
    obtain ⟨inner, hinner, rfl⟩ := List.mem_map.mp hline
    exact marked_commentLine (Text.newline_not_mem_of_mem_lines hinner)
  refine ⟨?_, ?_⟩
  · rcases render_eq_nil_or_marked raw with hnil | ⟨first, more, hrender, hmarked⟩
    · rw [hnil]
      exact fun line hline => by cases hline
    · rw [hrender, (solid_of_marked hmarked).lines_joinLines]
      exact fun line hline => (hmarked line hline).slashes
  · rw [render, forall_fullLines_joinLines_iff hmarked, List.forall_mem_map]
    simp only [beginsWith_commentLine_iff]

/-- What stands behind a carriage return in a reply is a line of its own outside of the comment. -/
theorem slashes_with_return_not_marked :
    Diff.fullLines (render "Adds.\rf();".toList) = ["/// Adds.\r".toList, "f();".toList] ∧
    ¬ ∀ line ∈ Diff.fullLines (render "Adds.\rf();".toList), mark <+: line := by
  constructor
  · decide
  · decide

end SlashComment

end DocComments
