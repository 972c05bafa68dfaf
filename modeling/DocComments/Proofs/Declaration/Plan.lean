import DocComments.Declaration.Plan
import DocComments.Proofs.Declaration.Comments
import DocComments.Proofs.Text.Cut

/-!
# What an update plans

A plan keeps the comments of a declaration as snapshots. Where the comments can be cut out of the
source (`WellCommented`), the snapshots have the ranges of the nodes, those of one declaration stand
one behind the other (`isCommented_of_mem_planned`), and what the comments of different declarations
cover is apart (`pairwise_planned`).
-/

set_option autoImplicit false

namespace DocComments

open Node (On AllApart)

/-- A snapshot of a node that can be cut out of the source has the range of the node. -/
theorem Snapshot.range_ofNode {source : Text} {n : Node} (h : n.range.fits source = true) :
    (ofNode source n).range = n.range := by
  obtain ⟨hle, -, hstop⟩ := ByteRange.fits_iff.mp h
  have hsize := Text.le_byteSize_of_isBoundary hstop
  show clamp n.range (Text.byteSize source) = n.range
  rw [clamp]
  have hfront : min n.range.start (Text.byteSize source) = n.range.start := by omega
  have hback : max n.range.start (min n.range.stop (Text.byteSize source)) = n.range.stop := by
    omega
  simp only [hfront, hback]

namespace Planned

/-- The piece of the source from the first comment node to the last. -/
def commented (p : Planned) : ByteRange :=
  ⟨p.anchor.range.start, (p.comments.getLastD p.anchor).range.stop⟩

/-- The comment nodes have a width and stand in the source one behind the other, the anchor
first. -/
structure IsCommented (source : Text) (p : Planned) : Prop where
  anchor : p.comments.head? = some p.anchor
  wide : ∀ s ∈ p.comments, s.range.start < s.range.stop
  fits : ∀ s ∈ p.comments, s.range.fits source = true
  ordered : p.comments.Pairwise fun a b => a.range.stop ≤ b.range.start

/-- What the comments of one declaration cover is apart from what those of the other cover. -/
def ApartFrom (p q : Planned) : Prop :=
  p.commented.stop ≤ q.commented.start ∨ q.commented.stop ≤ p.commented.start

end Planned

/-- The comments of the selected declarations stand in the source as a parser finds them: on a tree
that is laid out, each with a width and between two characters at either end, and none with a
selected declaration inside. -/
structure WellCommented (style : CommentStyle) (source : Text) (t : Tree) (matched : List Node) :
    Prop where
  laidOut : t.LaidOut
  wide : ∀ n ∈ matched, ∀ c ∈ style.commentNodes source n, c.range.start < c.range.stop
  fits : ∀ n ∈ matched, ∀ c ∈ style.commentNodes source n, c.range.fits source = true
  plain : ∀ n ∈ matched, ∀ c ∈ style.commentNodes source n, ∀ m ∈ matched, m ∉ c.descendants

section Planned

variable {style : CommentStyle} {source : Text} {n : Node} {p : Planned}

/-- An update plans a declaration with the snapshots of its comments, the first of them as the
anchor. -/
theorem Planned.exists_of_ofNode?_eq_some (h : Planned.ofNode? style .update source n = some p) :
    ∃ first more, style.commentNodes source n = first :: more ∧
      p.anchor = Snapshot.ofNode source first ∧
      p.comments = (first :: more).map (Snapshot.ofNode source) := by
  rw [Planned.ofNode?, Option.map_eq_some_iff] at h
  obtain ⟨⟨comments, anchor⟩, hplace, rfl⟩ := h
  simp only [Planned.place?] at hplace
  cases hnodes : style.commentNodes source n with
  | nil =>
    rw [hnodes] at hplace
    cases hplace
  | cons first more =>
    rw [hnodes] at hplace
    cases hplace
    exact ⟨first, more, rfl, rfl, rfl⟩

/-- The comments of a planned declaration cover the source from the first comment node of the
declaration to the last. -/
theorem Planned.exists_commented_eq (h : Planned.ofNode? style .update source n = some p)
    (hfits : ∀ c ∈ style.commentNodes source n, c.range.fits source = true) :
    ∃ first last, (style.commentNodes source n).head? = some first ∧
      (style.commentNodes source n).getLast? = some last ∧
      p.commented = ⟨first.range.start, last.range.stop⟩ := by
  obtain ⟨first, more, hnodes, hanchor, hcomments⟩ := Planned.exists_of_ofNode?_eq_some h
  rw [hnodes] at hfits ⊢
  have hlast : (first :: more).getLast? = some (more.getLastD first) := by
    rw [List.getLast?_cons, List.getLastD_eq_getLast?]
  refine ⟨first, more.getLastD first, rfl, hlast, ?_⟩
  have hmem : more.getLastD first ∈ first :: more := List.mem_of_getLast? hlast
  have hsnapshot : p.comments.getLastD p.anchor
      = Snapshot.ofNode source (more.getLastD first) := by
    rw [hcomments, hanchor, List.getLastD_eq_getLast?, List.getLast?_map, hlast]
    rfl
  rw [Planned.commented, hsnapshot, hanchor, Snapshot.range_ofNode (hfits first (by simp)),
    Snapshot.range_ofNode (hfits _ hmem)]

end Planned

section Update

variable {style : CommentStyle} {request : Request} {lang : Language} {source : Text} {t : Tree}
  {matched : List Node}
  (hmatched : (Pass.update.rule style request).search lang source t = .ok matched)
  (hcomments : WellCommented style source t matched)

include hmatched hcomments

theorem isCommented_of_mem_planned {p : Planned}
    (hp : p ∈ matched.filterMap (Planned.ofNode? style .update source)) : p.IsCommented source := by
  obtain ⟨n, hn, hof⟩ := List.mem_filterMap.mp hp
  obtain ⟨first, more, hnodes, hanchor, hsnapshots⟩ := Planned.exists_of_ofNode?_eq_some hof
  have hwide := hcomments.wide n hn
  have hfits := hcomments.fits n hn
  have hordered := CommentStyle.pairwise_commentNodes hcomments.laidOut style source
    (Rule.on_of_mem_search hmatched hn)
  rw [hnodes] at hwide hfits hordered
  refine ⟨?_, ?_, ?_, ?_⟩
  · rw [hsnapshots, hanchor]
    rfl
  · intro s hs
    rw [hsnapshots] at hs
    obtain ⟨c, hc, rfl⟩ := List.mem_map.mp hs
    rw [Snapshot.range_ofNode (hfits c hc)]
    exact hwide c hc
  · intro s hs
    rw [hsnapshots] at hs
    obtain ⟨c, hc, rfl⟩ := List.mem_map.mp hs
    rw [Snapshot.range_ofNode (hfits c hc)]
    exact hfits c hc
  · rw [hsnapshots, List.pairwise_map]
    refine hordered.imp_of_mem fun {a b} ha hb hab => ?_
    rw [Snapshot.range_ofNode (hfits a ha), Snapshot.range_ofNode (hfits b hb)]
    exact hab

/-- What the comments of different declarations cover is apart. -/
theorem pairwise_planned :
    (matched.filterMap (Planned.ofNode? style .update source)).Pairwise Planned.ApartFrom := by
  rw [List.pairwise_filterMap]
  refine (Rule.nodup_search hmatched).imp_of_mem fun {m n} hm hn hne p hp q hq => ?_
  have hapart := CommentStyle.apart_commentNodes hcomments.laidOut
    (Rule.on_of_mem_search hmatched hm) (Rule.on_of_mem_search hmatched hn) hne
    (CommentStyle.kind_mem_of_mem_search hmatched hm)
    (CommentStyle.kind_mem_of_mem_search hmatched hn)
    (fun c hc => hcomments.plain m hm c hc n hn) (fun c hc => hcomments.plain n hn c hc m hm)
  obtain ⟨first, last, hfirst, hlast, hcommented⟩ :=
    Planned.exists_commented_eq hp (hcomments.fits m hm)
  obtain ⟨first', last', hfirst', hlast', hcommented'⟩ :=
    Planned.exists_commented_eq hq (hcomments.fits n hn)
  rw [Planned.ApartFrom, hcommented, hcommented']
  rcases hapart with h | h
  · exact .inl (h last (List.mem_of_getLast? hlast) first' (List.mem_of_mem_head? hfirst'))
  · exact .inr (h last' (List.mem_of_getLast? hlast') first (List.mem_of_mem_head? hfirst))

end Update

end DocComments
