import DocComments.Edit.Commit
import DocComments.Proofs.Text.Cut

/-!
# Edits carried out at once

`Edit.weave` says what it means to carry out several edits of one text at once: the pieces between
their ranges and their replacements are put together in the order of the text. A commit carries
edits out one after the other on a text that changes under them. On edits that stand one behind the
other this comes to the same (`applyAll_eq_weave`), because the last edit is carried out first.
-/

set_option autoImplicit false

namespace DocComments

namespace Edit

/-- The text from an offset on with the ranges of edits replaced: the piece in front of each edit,
its replacement, and so on, up to the piece behind the last one. -/
def weave (content : Text) : Nat → List Edit → Text
  | start, [] => Text.dropBytes start content
  | start, e :: es =>
    ByteRange.slice ⟨start, e.range.start⟩ content ++
      (e.replacement ++ weave content e.range.stop es)

/-- An edit begins and ends in front of another. -/
def Before (a b : Edit) : Prop :=
  a.range.start < b.range.start ∧ a.range.stop ≤ b.range.start

instance (a b : Edit) : Decidable (a.Before b) := inferInstanceAs (Decidable (_ ∧ _))

/-- Every edit of a list stands in front of the later ones. -/
def InOrder (edits : List Edit) : Prop := edits.Pairwise Before

instance (edits : List Edit) : Decidable (InOrder edits) :=
  inferInstanceAs (Decidable (edits.Pairwise Before))

/-- The edits stand one behind the other from an offset on, on ranges that fit a text. -/
def Chain (content : Text) : Nat → List Edit → Prop
  | _, [] => True
  | start, e :: es =>
    start ≤ e.range.start ∧ e.range.fits content = true ∧ Chain content e.range.stop es

/-! ## Order -/

theorem Before.not_collides {a b : Edit} (h : a.Before b) : a.range.collides b.range = false := by
  obtain ⟨hstart, hstop⟩ := h
  simp only [ByteRange.collides, Bool.or_eq_false_iff, Bool.and_eq_false_iff,
    decide_eq_false_iff_not, beq_eq_false_iff_ne]
  exact ⟨.inr (by omega), by omega⟩

/-- Of two edits that do not collide the one that begins first stands in front of the other. -/
theorem before_of_not_collides {a b : Edit} (hb : b.range.start ≤ b.range.stop)
    (hle : a.range.start ≤ b.range.start) (h : a.range.collides b.range = false) : a.Before b := by
  simp only [ByteRange.collides, Bool.or_eq_false_iff, Bool.and_eq_false_iff,
    decide_eq_false_iff_not, beq_eq_false_iff_ne] at h
  obtain ⟨hshare, hne⟩ := h
  exact ⟨by omega, by omega⟩

theorem InOrder.not_collides {edits : List Edit} (h : InOrder edits) :
    edits.Pairwise fun a b => a.range.collides b.range = false :=
  h.imp Before.not_collides

/-- Edits in order are told apart by where they begin. -/
theorem InOrder.eq_of_start_eq {edits : List Edit} (h : InOrder edits) {a b : Edit} (ha : a ∈ edits)
    (hb : b ∈ edits) (hab : a.range.start = b.range.start) : a = b := by
  have hpairs : edits.Pairwise fun x y => x.range.start = y.range.start → x = y := by
    refine h.imp fun {x y} hxy hstart => ?_
    have := hxy.1
    omega
  have hflip : edits.Pairwise (flip fun x y => x.range.start = y.range.start → x = y) :=
    hpairs.imp fun {x y} hxy hyx => (hxy hyx.symm).symm
  exact hpairs.forall_of_forall_of_flip (fun x _ _ => rfl) hflip ha hb hab

/-- Edits in order on ranges that fit a text are a chain from its beginning. -/
theorem InOrder.chain {edits : List Edit} {content : Text} (h : InOrder edits)
    (hfits : ∀ e ∈ edits, e.range.fits content = true) {start : Nat}
    (hstart : ∀ e ∈ edits, start ≤ e.range.start) : Chain content start edits := by
  induction edits generalizing start with
  | nil => trivial
  | cons e es ih =>
    obtain ⟨hhead, htail⟩ := List.pairwise_cons.mp h
    refine ⟨hstart e (by simp), hfits e (by simp), ?_⟩
    exact ih htail (fun x hx => hfits x (by simp [hx])) (fun x hx => (hhead x hx).2)

/-! ## One after the other -/

/-- The invariant of a commit: when the edits from some place on have been carried out, the text in
front of that place is what it was, and behind it stand the gaps and the replacements. -/
theorem foldr_apply_eq {content : Text} {start : Nat} {edits : List Edit}
    (hstart : Text.isBoundary start content = true) (h : Chain content start edits) :
    edits.foldr (fun e t => e.apply t) content
      = Text.takeBytes start content ++ weave content start edits := by
  induction edits generalizing start with
  | nil => exact (Text.takeBytes_append_dropBytes start content).symm
  | cons e es ih =>
    obtain ⟨hle, hfits, htail⟩ := h
    obtain ⟨hrange, hfront, hback⟩ := ByteRange.fits_iff.mp hfits
    rw [List.foldr_cons, ih hback htail, apply,
      Text.takeBytes_takeBytes_append hrange hfront hback, Text.dropBytes_takeBytes_append hback,
      ← ByteRange.takeBytes_append_slice hle hstart hfront, weave]
    simp only [List.append_assoc]

/-- Edits that stand one behind the other can be carried out from the last to the first. -/
theorem applyAll_eq_weave {content : Text} {edits : List Edit} (h : InOrder edits)
    (hfits : ∀ e ∈ edits, e.range.fits content = true) :
    Changeset.applyAll edits.reverse content = weave content 0 edits := by
  have hchain : Chain content 0 edits := h.chain hfits fun e _ => Nat.zero_le _
  rw [Changeset.applyAll, List.foldl_reverse, foldr_apply_eq (Text.isBoundary_zero content) hchain,
    Text.takeBytes_zero, List.nil_append]

/-- Nothing but the ranges changes: if every replacement is the text of its range, the text stays
what it is. -/
theorem weave_self {content : Text} {start : Nat} {edits : List Edit}
    (hstart : Text.isBoundary start content = true) (h : Chain content start edits)
    (hself : ∀ e ∈ edits, e.replacement = e.range.slice content) :
    weave content start edits = Text.dropBytes start content := by
  induction edits generalizing start with
  | nil => rfl
  | cons e es ih =>
    obtain ⟨hle, hfits, htail⟩ := h
    obtain ⟨hrange, hfront, hback⟩ := ByteRange.fits_iff.mp hfits
    rw [weave, ih hback htail fun x hx => hself x (by simp [hx]), hself e (by simp)]
    rw [ByteRange.slice_append_dropBytes hrange hfront hback,
      ByteRange.slice_append_dropBytes hle hstart hfront]

end Edit

end DocComments
