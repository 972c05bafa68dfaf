import DocComments.Proofs.Declaration.Comments
import Mathlib.Data.List.Chain
import Mathlib.Data.List.DropRight
import Mathlib.Data.List.TakeWhile

/-!
# Runs of comments in front of a node

The comments in front of a node are collected by a walk backwards over its earlier siblings, which
stops at the first one that is not an accepted comment, or when there are enough. What a walk has
found is a run of accepted comments that ends at the node (`Walk.Follows`), and when it stops no
run is longer. A longest run is the only one (`IsLongestRun.eq`), so this is what the comments in
front of the node are (`precedingComments_longest`).
-/

set_option autoImplicit false

namespace DocComments

open Node (On)

namespace Declaration

variable {limit : Option Nat} {accept : Node → Bool} {n c : Node} {run other near : List Node}

/-! ## Siblings in a row -/

/-- Siblings in a row, the last one directly in front of the node. -/
def InRow (run : List Node) (n : Node) : Prop :=
  (run ++ [n]).IsChain fun a b => b.previous? = some a

theorem inRow_cons_iff : InRow (c :: run) n ↔ (run.headD n).previous? = some c ∧ InRow run n := by
  have hhead : (run ++ [n]).head? = some (run.headD n) := by cases run <;> rfl
  rw [InRow, List.cons_append, List.isChain_cons, hhead]
  exact and_congr_left fun _ => by simp

theorem isChain_previous?_iff :
    (n :: near).IsChain (fun a b => a.previous? = some b) ↔ near <+: n.earlierSiblings := by
  induction near generalizing n with
  | nil => exact iff_of_true (List.isChain_singleton n) List.nil_prefix
  | cons s near ih =>
    rw [List.isChain_cons_cons, ih]
    constructor
    · rintro ⟨hs, hnear⟩
      rw [Node.earlierSiblings_of_previous? hs]
      exact List.cons_prefix_cons.mpr ⟨rfl, hnear⟩
    · intro h
      have hs : n.previous? = some s := by
        obtain ⟨rest, hrest⟩ := h
        rw [Node.previous?, ← hrest]
        rfl
      rw [Node.earlierSiblings_of_previous? hs, List.cons_prefix_cons] at h
      exact ⟨hs, h.2⟩

/-- Siblings in a row are the nearest of the earlier siblings, read backwards. -/
theorem inRow_iff_nearest : InRow run n ↔ run.reverse <+: n.earlierSiblings := by
  rw [← isChain_previous?_iff, ← List.reverse_concat, List.isChain_reverse]
  rfl

/-! ## Runs of accepted comments -/

def IsAccepted (accept : Node → Bool) (c : Node) : Prop := c.kind = commentKind ∧ accept c = true

/-- Accepted comments in a row, the last one directly in front of the node, and no more of them than
the limit. -/
structure IsRun (limit : Option Nat) (accept : Node → Bool) (n : Node) (run : List Node) :
    Prop where
  inRow : InRow run n
  accepted : ∀ c ∈ run, IsAccepted accept c
  within : ∀ most ∈ limit, run.length ≤ most

/-- A run that has reached the limit, or in front of which there is nothing, or nothing that is an
accepted comment. -/
structure IsLongestRun (limit : Option Nat) (accept : Node → Bool) (n : Node) (run : List Node) :
    Prop extends IsRun limit accept n run where
  ends : limit = some run.length ∨
    ∀ c, (run.headD n).previous? = some c → ¬ IsAccepted accept c

/-- Every run is the end of a longest one. -/
theorem IsLongestRun.suffix_of_isRun (h : IsLongestRun limit accept n run)
    (hother : IsRun limit accept n other) : other <:+ run := by
  have hrun := inRow_iff_nearest.mp h.inRow
  have hrow := inRow_iff_nearest.mp hother.inRow
  rcases Nat.lt_or_ge run.length other.length with hlt | hle
  · have hsuffix : run <:+ other := by
      refine List.reverse_prefix.mp (List.prefix_of_prefix_length_le hrun hrow ?_)
      simpa using Nat.le_of_lt hlt
    obtain ⟨front, rfl⟩ := hsuffix
    rcases List.eq_nil_or_concat front with rfl | ⟨front, c, rfl⟩
    · exact absurd hlt (Nat.lt_irrefl _)
    · -- the other run goes on with a comment where this one ends
      have hc : (run.headD n).previous? = some c := by
        have hall : (front ++ (c :: run ++ [n])).IsChain fun a b => b.previous? = some a := by
          simpa [InRow] using hother.inRow
        exact (inRow_cons_iff.mp (List.isChain_append.mp hall).2.1).1
      rcases h.ends with hlimit | hends
      · exact absurd (hother.within _ hlimit) (Nat.not_le.mpr hlt)
      · exact absurd (hother.accepted c (by simp)) (hends c hc)
  · refine List.reverse_prefix.mp (List.prefix_of_prefix_length_le hrow hrun ?_)
    simpa using hle

theorem IsLongestRun.eq (h : IsLongestRun limit accept n run)
    (hother : IsLongestRun limit accept n other) : run = other :=
  (hother.suffix_of_isRun h.toIsRun).eq_of_length_le (h.suffix_of_isRun hother.toIsRun).length_le

theorem isAccepted_iff :
    IsAccepted accept c ↔ (c.kind == commentKind && accept c) = true := by
  simp [IsAccepted]

/-- Accepted comments in a row are a part of all that can be collected. -/
theorem InRow.nearest_takeWhile (h : InRow run n) (haccepted : ∀ c ∈ run, IsAccepted accept c) :
    run.reverse <+: n.earlierSiblings.takeWhile fun s => s.kind == commentKind && accept s := by
  obtain ⟨rest, hrest⟩ := inRow_iff_nearest.mp h
  rw [← hrest, List.takeWhile_append_of_pos]
  · exact List.prefix_append _ _
  · intro c hc
    exact isAccepted_iff.mp (haccepted c (List.mem_reverse.mp hc))

theorem isRun_precedingComments (limit : Option Nat) (accept : Node → Bool) (n : Node) :
    IsRun limit accept n (precedingComments limit accept n) := by
  have hnear := nearest_precedingComments limit accept n
  refine ⟨inRow_iff_nearest.mpr (hnear.trans (List.takeWhile_prefix _)), ?_, ?_⟩
  · intro c hc
    have hmem := List.mem_takeWhile_imp (hnear.subset (List.mem_reverse.mpr hc))
    exact isAccepted_iff.mpr hmem
  · rintro most rfl
    rw [precedingComments, List.length_reverse]
    exact List.length_take_le _ _

/-- The comments in front of a node are a longest run. -/
theorem isLongestRun_precedingComments (limit : Option Nat) (accept : Node → Bool) (n : Node) :
    IsLongestRun limit accept n (precedingComments limit accept n) := by
  have hrun := isRun_precedingComments limit accept n
  refine ⟨hrun, Classical.or_iff_not_imp_left.mpr fun hlimit c hc haccepted => ?_⟩
  -- with one comment more the run would still be a part of all that can be collected
  have hrow : InRow (c :: precedingComments limit accept n) n := inRow_cons_iff.mpr ⟨hc, hrun.inRow⟩
  have hlength := (hrow.nearest_takeWhile
    (List.forall_mem_cons.mpr ⟨haccepted, hrun.accepted⟩)).length_le
  rw [List.length_reverse, List.length_cons] at hlength
  cases limit with
  | none =>
    rw [precedingComments, List.length_reverse] at hlength
    exact Nat.lt_irrefl _ hlength
  | some most =>
    simp only [precedingComments, Option.elim_some, List.length_reverse, List.length_take,
      Option.some.injEq] at hlength hlimit
    omega

/-! ## The walk backwards -/

/-- A walk over earlier siblings: the one it has come to, and what it has found on the way, the
nearest first. -/
structure Walk where
  next? : Option Node
  found : List Node

namespace Walk

variable {w w' : Walk}

def start (n : Node) : Walk := ⟨n.previous?, []⟩

/-- A round of the walk: an accepted comment is taken along unless there are enough. Otherwise the
walk stops. -/
def step? (limit : Option Nat) (accept : Node → Bool) (w : Walk) : Option Walk :=
  match w.next? with
  | some s =>
    if s.kind == commentKind && accept s && limit.all (w.found.length < ·) then
      some ⟨s.previous?, w.found ++ [s]⟩
    else none
  | none => none

/-- The walk stops after some rounds, with these comments in document order. -/
inductive EndsWith (limit : Option Nat) (accept : Node → Bool) : Walk → List Node → Prop where
  | stop {w : Walk} (h : w.step? limit accept = none) : EndsWith limit accept w w.found.reverse
  | step {w w' : Walk} {run : List Node} (h : w.step? limit accept = some w')
      (hrun : EndsWith limit accept w' run) : EndsWith limit accept w run

/-- The siblings that are left to be looked at, counted. -/
def ahead (w : Walk) : Nat := w.next?.elim 0 fun s => s.earlierSiblings.length + 1

theorem step?_eq_some_iff :
    w.step? limit accept = some w' ↔ ∃ s, w.next? = some s ∧ IsAccepted accept s ∧
      (∀ most ∈ limit, w.found.length < most) ∧ ⟨s.previous?, w.found ++ [s]⟩ = w' := by
  have hlimit : limit.all (w.found.length < ·) = true ↔ ∀ most ∈ limit, w.found.length < most := by
    cases limit <;> simp
  rw [step?]
  cases w.next? with
  | none => simp
  | some s =>
    simp only [Option.ite_none_right_eq_some, Bool.and_eq_true, beq_iff_eq, hlimit,
      Option.some.injEq, exists_eq_left', IsAccepted, and_assoc]

theorem step?_eq_none_iff :
    w.step? limit accept = none ↔ ∀ s, w.next? = some s → IsAccepted accept s →
      ∃ most ∈ limit, most ≤ w.found.length := by
  rw [Option.eq_none_iff_forall_ne_some]
  simp only [ne_eq, step?_eq_some_iff]
  constructor
  · intro h s hs haccepted
    by_contra hmost
    simp only [not_exists, not_and, Nat.not_le] at hmost
    exact h _ ⟨s, hs, haccepted, hmost, rfl⟩
  · rintro h _ ⟨s, hs, haccepted, hmost, -⟩
    obtain ⟨most, hmem, hle⟩ := h s hs haccepted
    exact absurd (hmost most hmem) (Nat.not_lt.mpr hle)

theorem ahead_lt_of_step? (h : w.step? limit accept = some w') : w'.ahead < w.ahead := by
  obtain ⟨s, hs, -, -, rfl⟩ := step?_eq_some_iff.mp h
  rw [ahead, ahead, hs]
  cases hprevious : s.previous? with
  | none => exact Nat.zero_lt_succ _
  | some r =>
    rw [Option.elim_some, Option.elim_some, Node.earlierSiblings_of_previous? hprevious,
      List.length_cons]
    omega

/-- What a walk has found so far is a run that ends at the node, and the walk has come to what stands
in front of the run. -/
structure Follows (limit : Option Nat) (accept : Node → Bool) (n : Node) (w : Walk) : Prop where
  isRun : IsRun limit accept n w.found.reverse
  next : w.next? = (w.found.reverse.headD n).previous?

theorem follows_start (limit : Option Nat) (accept : Node → Bool) (n : Node) :
    (start n).Follows limit accept n := by
  refine ⟨⟨List.isChain_singleton n, ?_, ?_⟩, rfl⟩
  · intro c hc
    cases hc
  · intro most _
    exact Nat.zero_le most

theorem Follows.step (hw : w.Follows limit accept n) (h : w.step? limit accept = some w') :
    w'.Follows limit accept n := by
  obtain ⟨s, hs, haccepted, hmost, rfl⟩ := step?_eq_some_iff.mp h
  have hreverse : (w.found ++ [s]).reverse = s :: w.found.reverse := List.reverse_concat
  refine ⟨⟨?_, ?_, ?_⟩, ?_⟩
  · rw [hreverse]
    exact inRow_cons_iff.mpr ⟨hw.next ▸ hs, hw.isRun.inRow⟩
  · rw [hreverse]
    exact List.forall_mem_cons.mpr ⟨haccepted, hw.isRun.accepted⟩
  · intro most hmem
    have hlt := hmost most hmem
    rw [hreverse, List.length_cons, List.length_reverse]
    omega
  · rw [hreverse]
    rfl

/-- When a walk stops, no longer run ends at the node. -/
theorem Follows.isLongestRun (hw : w.Follows limit accept n) (h : w.step? limit accept = none) :
    IsLongestRun limit accept n w.found.reverse := by
  refine ⟨hw.isRun, Classical.or_iff_not_imp_left.mpr fun hlimit c hc haccepted => hlimit ?_⟩
  obtain ⟨most, hmem, hle⟩ := step?_eq_none_iff.mp h c (hw.next.trans hc) haccepted
  have hwithin := hw.isRun.within most hmem
  rw [hmem, List.length_reverse]
  rw [List.length_reverse] at hwithin
  exact congrArg some (Nat.le_antisymm hle hwithin)

/-- A walk comes to its end, for every round leaves fewer siblings to be looked at, and then it has
found a longest run. -/
theorem Follows.exists_endsWith {w : Walk} (hw : w.Follows limit accept n) :
    ∃ run, w.EndsWith limit accept run ∧ IsLongestRun limit accept n run := by
  cases h : w.step? limit accept with
  | none => exact ⟨_, .stop h, hw.isLongestRun h⟩
  | some w' =>
    have hless := ahead_lt_of_step? h
    obtain ⟨run, hends, hlongest⟩ := (hw.step h).exists_endsWith
    exact ⟨run, .step h hends, hlongest⟩
termination_by w.ahead

theorem EndsWith.eq (h : w.EndsWith limit accept run) (hother : w.EndsWith limit accept other) :
    run = other := by
  induction h with
  | stop h =>
    cases hother with
    | stop => rfl
    | step h' => cases h.symm.trans h'
  | step h _ ih =>
    cases hother with
    | stop h' => cases h.symm.trans h'
    | step h' hother =>
      obtain rfl := Option.some.inj (h.symm.trans h')
      exact ih hother

end Walk

/-! ## The comments -/

/-- A node and the run in front of it are neighbouring children of the node above. -/
theorem InRow.infix_children {t : Tree} {p : Node} (hn : On t n) (hp : n.parent? = some p)
    (h : InRow run n) : run ++ [n] <:+: p.children := by
  cases hn with
  | root => cases hp
  | @child _ earlier later d _ hd =>
    cases hp
    obtain ⟨front, hfront⟩ : run <:+ (Node.child p earlier d).earlierSiblings.reverse := by
      rw [← List.reverse_prefix, List.reverse_reverse]
      exact inRow_iff_nearest.mp h
    rw [Node.children_eq_append hd, ← hfront]
    exact ⟨front, Node.placeForward p (d :: earlier) later, by simp⟩

/-- The walk backwards from a node of a tree comes to its end, and what it has found then are the
comments in front of the node. These are the only longest run of accepted comments that ends at the
node, and every other one is the end of this run; with a limit they are the nearest ones of all that
there are without. Together with the node they are neighbouring children of the node above, in order
and each of them once, so that on the tree of a source they stand in the order of the source. -/
theorem precedingComments_longest {t : Tree} (hn : On t n) (limit : Option Nat)
    (accept : Node → Bool) :
    let comments := precedingComments limit accept n
    (∀ run, (Walk.start n).EndsWith limit accept run ↔ run = comments) ∧
    (∀ run, IsLongestRun limit accept n run ↔ run = comments) ∧
    (∀ run, IsRun limit accept n run → run <:+ comments) ∧
    (∀ most, limit = some most → comments = (precedingComments none accept n).rtake most) ∧
    (∀ p, n.parent? = some p → comments ++ [n] <:+: p.children) ∧
    comments.Nodup ∧
    (t.LaidOut → comments.Pairwise fun a b => a.range.stop ≤ b.range.start) := by
  intro comments
  have hlongest : IsLongestRun limit accept n comments :=
    isLongestRun_precedingComments limit accept n
  obtain ⟨run, hends, hrun⟩ := (Walk.follows_start limit accept n).exists_endsWith
  obtain rfl := hrun.eq hlongest
  refine ⟨fun other => ⟨fun h => h.eq hends, fun h => h ▸ hends⟩,
    fun other => ⟨fun h => h.eq hlongest, fun h => h ▸ hlongest⟩,
    fun other h => hlongest.suffix_of_isRun h, ?_, fun p hp => hlongest.inRow.infix_children hn hp,
    ?_, fun ht => pairwise_precedingComments ht hn⟩
  · rintro most rfl
    rw [List.rtake_eq_reverse_take_reverse, precedingComments, List.reverse_reverse]
    rfl
  · rw [← List.nodup_reverse]
    exact (Node.nodup_earlierSiblings n).sublist (inRow_iff_nearest.mp hlongest.inRow).sublist

/-- Of three comments in front of a method the first is none that is accepted. -/
theorem precedingComments_longest_of_method :
    let source : Text := "//a\n///b\n///c\nd".toList
    let plain : Tree := .node "comment" true ⟨0, 3⟩ []
    let upper : Tree := .node "comment" true ⟨4, 8⟩ []
    let lower : Tree := .node "comment" true ⟨9, 13⟩ []
    let method : Tree := .node "method_declaration" true ⟨14, 15⟩ []
    let t : Tree := .node "declaration_list" true ⟨0, 15⟩ [plain, upper, lower, method]
    let n : Node := .child (.root t) [lower, upper, plain] method
    On t n ∧ t.LaidOut ∧
      (Walk.start n).EndsWith none (isSlashComment source)
        [.child (.root t) [plain] upper, .child (.root t) [upper, plain] lower] ∧
      (precedingComments none (isSlashComment source) n).Pairwise
        fun a b => a.range.stop ≤ b.range.start := by
  intro source plain upper lower method t n
  have hn : On t n := .child .root rfl
  have ht : t.LaidOut := ⟨by decide, by decide⟩
  obtain ⟨hwalk, -, -, -, -, -, hordered⟩ :=
    precedingComments_longest hn none (isSlashComment source)
  exact ⟨hn, ht, (hwalk _).mpr rfl, hordered ht⟩

end Declaration

end DocComments
