import DocComments.Run.Treatment
import DocComments.Proofs.Declaration.Plan
import DocComments.Proofs.Edit.Staging
import DocComments.Proofs.Edit.Weave

/-!
# The edits of an update

An update brings a new comment into a file by a batch of edits: the first comment node of the
declaration is replaced, and every further one is removed together with what stands between it and
the one in front of it. `weave_flatMap_batch` says what the batches of several declarations come to:
for each declaration one piece of the source is replaced by the comment, from the beginning of its
first comment node to the end of its last one.
-/

set_option autoImplicit false

namespace DocComments

open Edit (InOrder weave)

namespace Planned

/-! ## The comment nodes of one declaration -/

section Clearings

variable {source : Text} {first : Snapshot} {more : List Snapshot}

theorem stop_le_last (hwide : ∀ s ∈ more, s.range.start < s.range.stop)
    (hordered : (first :: more).Pairwise fun a b => a.range.stop ≤ b.range.start) :
    first.range.stop ≤ (more.getLastD first).range.stop := by
  induction more generalizing first with
  | nil => exact Nat.le_refl _
  | cons second more ih =>
    have hrest := ih (fun s hs => hwide s (by simp [hs])) (List.pairwise_cons.mp hordered).2
    have hsecond := hwide second (by simp)
    have hgap := (List.pairwise_cons.mp hordered).1 second (by simp)
    rw [List.getLastD_cons]
    omega

/-- A removal takes away something behind the first comment node, and nothing behind the last. -/
theorem bounds_of_mem_clearings (hwide : ∀ s ∈ more, s.range.start < s.range.stop)
    (hordered : (first :: more).Pairwise fun a b => a.range.stop ≤ b.range.start) {e : Edit}
    (he : e ∈ clearings (first :: more)) :
    first.range.stop ≤ e.range.start ∧ e.range.start < e.range.stop ∧
      e.range.stop ≤ (more.getLastD first).range.stop := by
  induction more generalizing first with
  | nil => cases he
  | cons second more ih =>
    have hmore : ∀ s ∈ more, s.range.start < s.range.stop := fun s hs => hwide s (by simp [hs])
    obtain ⟨hgaps, hrest⟩ := List.pairwise_cons.mp hordered
    have hsecond := hwide second (by simp)
    have hgap := hgaps second (by simp)
    have hlast := stop_le_last hmore hrest
    rw [List.getLastD_cons]
    rw [clearings] at he
    rcases List.mem_cons.mp he with rfl | he
    · refine ⟨Nat.le_refl _, ?_, hlast⟩
      show first.range.stop < second.range.stop
      omega
    · have := ih hmore hrest he
      omega

theorem inOrder_clearings (hwide : ∀ s ∈ more, s.range.start < s.range.stop)
    (hordered : (first :: more).Pairwise fun a b => a.range.stop ≤ b.range.start) :
    InOrder (clearings (first :: more)) := by
  induction more generalizing first with
  | nil => exact List.Pairwise.nil
  | cons second more ih =>
    have hmore : ∀ s ∈ more, s.range.start < s.range.stop := fun s hs => hwide s (by simp [hs])
    obtain ⟨hgaps, hrest⟩ := List.pairwise_cons.mp hordered
    have hsecond := hwide second (by simp)
    have hgap := hgaps second (by simp)
    rw [clearings]
    refine List.pairwise_cons.mpr ⟨fun e he => ?_, ih hmore hrest⟩
    have hbounds := bounds_of_mem_clearings hmore hrest he
    constructor
    · show first.range.stop < e.range.start
      omega
    · show second.range.stop ≤ e.range.start
      omega

theorem fits_of_mem_clearings
    (hordered : (first :: more).Pairwise fun a b => a.range.stop ≤ b.range.start)
    (hfits : ∀ s ∈ first :: more, s.range.fits source = true) {e : Edit}
    (he : e ∈ clearings (first :: more)) : e.range.fits source = true := by
  induction more generalizing first with
  | nil => cases he
  | cons second more ih =>
    obtain ⟨hgaps, hrest⟩ := List.pairwise_cons.mp hordered
    have hgap := hgaps second (by simp)
    rw [clearings] at he
    rcases List.mem_cons.mp he with rfl | he
    · have hfront := ByteRange.fits_iff.mp (hfits first (by simp))
      have hback := ByteRange.fits_iff.mp (hfits second (by simp))
      refine ByteRange.fits_iff.mpr ⟨?_, hfront.2.2, hback.2.2⟩
      show first.range.stop ≤ second.range.stop
      omega
    · exact ih hrest (fun s hs => hfits s (List.mem_cons_of_mem _ hs)) he

/-- The removals come to one removal from the end of the first comment node to the end of the
last. -/
theorem weave_clearings (source : Text) (first : Snapshot) (more : List Snapshot)
    (rest : List Edit) :
    weave source first.range.stop (clearings (first :: more) ++ rest)
      = weave source (more.getLastD first).range.stop rest := by
  induction more generalizing first with
  | nil => rfl
  | cons second more ih =>
    rw [clearings, List.cons_append, weave, ih, List.getLastD_cons, ByteRange.slice_self]
    rfl

end Clearings

/-! ## The batch of one declaration -/

section Batch

variable {source : Text} {p : Planned} {comment : Comment}

theorem IsCommented.exists_comments_eq (hp : p.IsCommented source) :
    ∃ more, p.comments = p.anchor :: more :=
  List.head?_eq_some_iff.mp hp.anchor

/-- The comment nodes are wide and stand in order. -/
theorem IsCommented.wide_and_ordered (hp : p.IsCommented source) {more : List Snapshot}
    (hmore : p.comments = p.anchor :: more) :
    p.anchor.range.start < p.anchor.range.stop ∧
      (∀ s ∈ more, s.range.start < s.range.stop) ∧
      (p.anchor :: more).Pairwise fun a b => a.range.stop ≤ b.range.start := by
  have hwide := hp.wide
  have hordered := hp.ordered
  rw [hmore] at hwide hordered
  exact ⟨hwide p.anchor (by simp), fun s hs => hwide s (by simp [hs]), hordered⟩

theorem edits_update (p : Planned) (comment : Comment) :
    Pass.update.edits p comment = ⟨p.anchor.range, comment.text⟩ :: clearings p.comments := rfl

theorem IsCommented.start_lt_stop (hp : p.IsCommented source) :
    p.commented.start < p.commented.stop := by
  obtain ⟨more, hmore⟩ := hp.exists_comments_eq
  obtain ⟨hanchor, hrest, hordered⟩ := hp.wide_and_ordered hmore
  have hlast := stop_le_last hrest hordered
  rw [commented, hmore, List.getLastD_cons]
  show p.anchor.range.start < (more.getLastD p.anchor).range.stop
  omega

/-- The edits of a batch change something, and nothing outside of the comments. -/
theorem IsCommented.bounds_of_mem_edits (hp : p.IsCommented source) {e : Edit}
    (he : e ∈ Pass.update.edits p comment) :
    p.commented.start ≤ e.range.start ∧ e.range.start < e.range.stop ∧
      e.range.stop ≤ p.commented.stop := by
  obtain ⟨more, hmore⟩ := hp.exists_comments_eq
  obtain ⟨hanchor, hrest, hordered⟩ := hp.wide_and_ordered hmore
  have hlast := stop_le_last hrest hordered
  rw [commented, hmore, List.getLastD_cons]
  rw [edits_update, hmore] at he
  show p.anchor.range.start ≤ _ ∧ _ ∧ _ ≤ (more.getLastD p.anchor).range.stop
  rcases List.mem_cons.mp he with rfl | he
  · exact ⟨Nat.le_refl _, hanchor, hlast⟩
  · have := bounds_of_mem_clearings hrest hordered he
    omega

theorem IsCommented.inOrder_edits (hp : p.IsCommented source) :
    InOrder (Pass.update.edits p comment) := by
  obtain ⟨more, hmore⟩ := hp.exists_comments_eq
  obtain ⟨hanchor, hrest, hordered⟩ := hp.wide_and_ordered hmore
  rw [edits_update, hmore]
  refine List.pairwise_cons.mpr ⟨fun e he => ?_, inOrder_clearings hrest hordered⟩
  have hbounds := bounds_of_mem_clearings hrest hordered he
  constructor
  · show p.anchor.range.start < e.range.start
    omega
  · exact hbounds.1

theorem IsCommented.fits_of_mem_edits (hp : p.IsCommented source) {e : Edit}
    (he : e ∈ Pass.update.edits p comment) : e.range.fits source = true := by
  obtain ⟨more, hmore⟩ := hp.exists_comments_eq
  have hfits := hp.fits
  have hordered := hp.ordered
  rw [hmore] at hfits hordered
  rw [edits_update, hmore] at he
  rcases List.mem_cons.mp he with rfl | he
  · exact hfits p.anchor (by simp)
  · exact fits_of_mem_clearings hordered hfits he

/-- A batch comes to one replacement, from the beginning of the first comment node to the end of the
last. -/
theorem IsCommented.weave_edits (hp : p.IsCommented source) (start : Nat) (rest : List Edit) :
    weave source start (Pass.update.edits p comment ++ rest)
      = weave source start (⟨p.commented, comment.text⟩ :: rest) := by
  obtain ⟨more, hmore⟩ := hp.exists_comments_eq
  rw [edits_update, List.cons_append, weave, weave, hmore, weave_clearings, commented, hmore,
    List.getLastD_cons]

end Batch

end Planned

/-! ## Several declarations -/

/-- A declaration whose new comment is accepted. -/
structure Renewal where
  planned : Planned
  comment : Comment

namespace Renewal

def batch (r : Renewal) : List Edit := Pass.update.edits r.planned r.comment

/-- The comment in place of everything from the first comment node to the last. -/
def edit (r : Renewal) : Edit := ⟨r.planned.commented, r.comment.text⟩

variable {source : Text} {rs : List Renewal}

/-- The batches of declarations whose comments are apart can all be staged. -/
theorem apart_flatMap_batch (hrs : ∀ r ∈ rs, r.planned.IsCommented source)
    (hapart : rs.Pairwise fun a b => a.planned.ApartFrom b.planned) :
    Changeset.Apart (rs.flatMap batch) := by
  refine List.pairwise_flatMap.mpr ⟨fun r hr => (hrs r hr).inOrder_edits.not_collides, ?_⟩
  refine hapart.imp_of_mem fun {a b} ha hb hab x hx y hy => ?_
  have hx := (hrs a ha).bounds_of_mem_edits hx
  have hy := (hrs b hb).bounds_of_mem_edits hy
  rcases hab with hab | hab
  -- collisions are the same in either direction
  · have hbefore : x.Before y := ⟨by omega, by omega⟩
    exact hbefore.not_collides
  · have hbefore : y.Before x := ⟨by omega, by omega⟩
    rw [ByteRange.collides_comm]
    exact hbefore.not_collides

/-- The comments of one declaration begin in front of those of another, or at the same place. -/
def startsFirst (a b : Renewal) : Bool :=
  a.planned.commented.start ≤ b.planned.commented.start

/-- Declarations whose comments are apart can be put in the order in which the comments stand. -/
theorem exists_sorted (hrs : ∀ r ∈ rs, r.planned.IsCommented source)
    (hapart : rs.Pairwise fun a b => a.planned.ApartFrom b.planned) :
    ∃ sorted : List Renewal, sorted.Perm rs ∧
      sorted.Pairwise fun a b => a.planned.commented.stop ≤ b.planned.commented.start := by
  have hperm : (rs.mergeSort startsFirst).Perm rs := List.mergeSort_perm rs startsFirst
  have hstarts : (rs.mergeSort startsFirst).Pairwise fun a b => startsFirst a b = true := by
    refine List.pairwise_mergeSort ?_ ?_ rs
    · intro a b c hab hbc
      simp only [startsFirst, decide_eq_true_eq] at hab hbc ⊢
      omega
    · intro a b
      simp only [startsFirst, Bool.or_eq_true, decide_eq_true_eq]
      omega
  have hsame : (rs.mergeSort startsFirst).Pairwise fun a b => a.planned.ApartFrom b.planned :=
    hperm.symm.pairwise hapart fun h => Or.symm h
  refine ⟨_, hperm, (hstarts.and hsame).imp_of_mem fun {a b} _ hb hab => ?_⟩
  obtain ⟨hstart, hab⟩ := hab
  simp only [startsFirst, decide_eq_true_eq] at hstart
  rcases hab with hab | hab
  · exact hab
  · have hb := (hrs b (hperm.mem_iff.mp hb)).start_lt_stop
    omega

section Sorted

variable (hrs : ∀ r ∈ rs, r.planned.IsCommented source)
  (hsorted : rs.Pairwise fun a b => a.planned.commented.stop ≤ b.planned.commented.start)

include hrs hsorted in
theorem inOrder_flatMap_batch : InOrder (rs.flatMap batch) := by
  refine List.pairwise_flatMap.mpr ⟨fun r hr => (hrs r hr).inOrder_edits, ?_⟩
  refine hsorted.imp_of_mem fun {a b} ha hb hab x hx y hy => ?_
  have hx := (hrs a ha).bounds_of_mem_edits hx
  have hy := (hrs b hb).bounds_of_mem_edits hy
  exact ⟨by omega, by omega⟩

include hrs hsorted in
theorem inOrder_map_edit : InOrder (rs.map edit) := by
  refine List.pairwise_map.mpr (hsorted.imp_of_mem fun {a b} ha _ hab => ?_)
  have ha := (hrs a ha).start_lt_stop
  exact ⟨Nat.lt_of_lt_of_le ha hab, hab⟩

include hrs in
/-- The batches come to one replacement for each declaration. -/
theorem weave_flatMap_batch (start : Nat) :
    weave source start (rs.flatMap batch) = weave source start (rs.map edit) := by
  induction rs generalizing start with
  | nil => rfl
  | cons r rs ih =>
    rw [List.flatMap_cons, batch, (hrs r (by simp)).weave_edits, List.map_cons, weave, weave,
      ih fun x hx => hrs x (by simp [hx])]
    rfl

end Sorted

theorem fits_of_mem_flatMap_batch (hrs : ∀ r ∈ rs, r.planned.IsCommented source) {e : Edit}
    (he : e ∈ rs.flatMap batch) : e.range.fits source = true := by
  obtain ⟨r, hr, he⟩ := List.mem_flatMap.mp he
  exact (hrs r hr).fits_of_mem_edits he

end Renewal

end DocComments
