import DocComments.Declaration.Locate
import DocComments.Proofs.Declaration.Select
import DocComments.Proofs.Syntax.Layout

/-!
# Where the comments of declarations stand

The comments of a declaration are neighbours in the tree, in the order of the source
(`pairwise_commentNodes`). The comments of two declarations are apart (`apart_commentNodes`), unless
one declaration is below a comment of the other: a run of comments in front of a declaration ends at
the sibling declaration before it, and a docstring belongs to one declaration only.
-/

set_option autoImplicit false

namespace DocComments

open Node (On AllApart AllBefore)

namespace Declaration

/-! ## Comments in front of a declaration -/

section Preceding

variable {t : Tree} {limit : Option Nat} {accept : Node → Bool}

/-- The comments in front of a node are the nearest of its earlier siblings, read backwards. -/
theorem nearest_precedingComments (limit : Option Nat) (accept : Node → Bool) (n : Node) :
    (precedingComments limit accept n).reverse
      <+: n.earlierSiblings.takeWhile fun s => s.kind == commentKind && accept s := by
  rw [precedingComments, List.reverse_reverse]
  cases limit with
  | none => exact List.prefix_rfl
  | some count => exact List.take_prefix _ _

theorem mem_earlierSiblings_of_mem_precedingComments {n c : Node}
    (h : c ∈ precedingComments limit accept n) : c ∈ n.earlierSiblings :=
  (List.takeWhile_sublist _).subset
    ((nearest_precedingComments limit accept n).subset (List.mem_reverse.mpr h))

/-- The comments in front of a child are neighbouring children of the same node. -/
theorem neighbours_precedingComments {p : Node} {earlier later : List Tree} {c : Tree}
    (hc : p.tree.children = earlier.reverse ++ c :: later) :
    precedingComments limit accept (.child p earlier c) <:+: p.children := by
  have hprefix : (precedingComments limit accept (.child p earlier c)).reverse
      <+: (Node.child p earlier c).earlierSiblings :=
    (nearest_precedingComments limit accept _).trans (List.takeWhile_prefix _)
  rw [Node.children_eq_append hc]
  have hsuffix : precedingComments limit accept (.child p earlier c)
      <:+ (Node.child p earlier c).earlierSiblings.reverse := by
    rw [← List.reverse_prefix, List.reverse_reverse]
    exact hprefix
  exact hsuffix.isInfix.trans (List.prefix_append _ _).isInfix

/-- The comments in front of a node stand in the order of the source, one behind the other. -/
theorem pairwise_precedingComments (ht : t.LaidOut) {n : Node} (hn : On t n) :
    (precedingComments limit accept n).Pairwise fun a b => a.range.stop ≤ b.range.start := by
  rw [← List.reverse_reverse (precedingComments limit accept n), List.pairwise_reverse]
  refine (Node.pairwise_earlierSiblings ht hn).sublist ?_
  exact (nearest_precedingComments limit accept n).sublist.trans (List.takeWhile_sublist _)

/-- A run of comments ends at an earlier sibling that is no comment. -/
theorem allBefore_of_mem_earlierSiblings (ht : t.LaidOut) {m n : Node} (hn : On t n)
    (hm : m ∈ n.earlierSiblings) (hkind : m.kind ≠ commentKind) :
    AllBefore (precedingComments limit accept m) (precedingComments limit accept n) := by
  intro a ha b hb
  obtain ⟨between, hbetween⟩ := Node.exists_earlierSiblings_eq hm
  have hordered := Node.pairwise_earlierSiblings ht hn
  -- the run in front of `n` stops at `m` at the latest, the one in front of `m` begins behind it
  have hb : b ∈ between := by
    have hrun := (nearest_precedingComments limit accept n).subset (List.mem_reverse.mpr hb)
    rw [hbetween, List.takeWhile_append] at hrun
    split at hrun
    · have hstop : (m.kind == commentKind && accept m) = false := by simp [hkind]
      rw [List.takeWhile_cons_of_neg (by simp [hstop]), List.append_nil] at hrun
      exact hrun
    · exact (List.takeWhile_sublist _).subset hrun
  rw [hbetween] at hordered
  refine (List.pairwise_append.mp hordered).2.2 b hb a ?_
  exact List.mem_cons_of_mem _ (mem_earlierSiblings_of_mem_precedingComments ha)

/-- The comments in front of two declarations are apart. -/
theorem apart_precedingComments (ht : t.LaidOut) {m n : Node} (hm : On t m) (hn : On t n)
    (hne : m ≠ n) (hmkind : m.kind ≠ commentKind) (hnkind : n.kind ≠ commentKind)
    (hmn : ∀ c ∈ precedingComments limit accept m, n ∉ c.descendants)
    (hnm : ∀ c ∈ precedingComments limit accept n, m ∉ c.descendants) :
    AllApart (precedingComments limit accept m) (precedingComments limit accept n) := by
  cases hm with
  | root =>
    left
    intro a ha
    cases mem_earlierSiblings_of_mem_precedingComments ha
  | @child p earlier later c hp hc =>
    cases hn with
    | root =>
      right
      intro a ha
      cases mem_earlierSiblings_of_mem_precedingComments ha
    | @child q earlier' later' c' hq hc' =>
      -- a declaration and its comments have the same parent
      refine Node.apart_of_neighbours ht hp hq (neighbours_precedingComments hc)
        (neighbours_precedingComments hc') ?_ ?_ ?_
      · rintro rfl
        rcases (On.child hp hc).mem_earlierSiblings (On.child hp hc') hne with h | h
        · exact .inl (allBefore_of_mem_earlierSiblings ht (.child hp hc') h hmkind)
        · exact .inr (allBefore_of_mem_earlierSiblings ht (.child hp hc) h hnkind)
      · intro x hx hqx
        exact hmn x hx (Node.mem_descendants_of_mem_children hqx
          (Node.mem_children_iff.mpr ⟨_, _, _, hc', rfl⟩))
      · intro x hx hpx
        exact hnm x hx (Node.mem_descendants_of_mem_children hpx
          (Node.mem_children_iff.mpr ⟨_, _, _, hc, rfl⟩))

end Preceding

/-! ## Docstrings -/

section Docstring

variable {t : Tree}

/-- A docstring stands in a statement of the body of its declaration. -/
theorem exists_of_docstring?_eq_some {n s : Node} (h : docstring? n = some s) :
    ∃ body statement, body ∈ n.children ∧ statement ∈ body.children ∧ s ∈ statement.children ∧
      body.kind = "block" ∧ statement.kind = "expression_statement" ∧ s.kind = "string" := by
  simp only [docstring?, Option.bind_eq_bind, Option.bind_eq_some_iff] at h
  obtain ⟨body, hbody, statement, hstatement, h⟩ := h
  by_cases hkind : (statement.kind == "expression_statement") = true
  · rw [if_pos hkind] at h
    have hbodyKind : body.kind = "block" := by simpa using List.find?_some hbody
    have hsKind : s.kind = "string" := by simpa using List.find?_some h
    exact ⟨body, statement, List.mem_of_find?_eq_some hbody, List.mem_of_find?_eq_some hstatement,
      List.mem_of_find?_eq_some h, hbodyKind, beq_iff_eq.mp hkind, hsKind⟩
  · rw [if_neg hkind] at h
    cases h

/-- The statement of a docstring is not below a string, unless its declaration is. -/
theorem statement_not_mem_walk {n body statement c : Node} (hn : On t n)
    (hbody : body ∈ n.children) (hstatement : statement ∈ body.children)
    (hbodyKind : body.kind = "block") (hstatementKind : statement.kind = "expression_statement")
    (hkind : n.kind ≠ "string") (hc : c.kind = "string") (hdecl : n ∉ c.descendants) :
    statement ∉ c.walk := by
  intro h
  rcases Node.eq_or_mem_ancestors_of_mem_walk h with rfl | h
  · rw [hc] at hstatementKind
    exact absurd hstatementKind (by decide)
  · rw [Node.ancestors_of_mem_children hstatement, Node.ancestors_of_mem_children hbody] at h
    rcases List.mem_cons.mp h with rfl | h
    · rw [hc] at hbodyKind
      exact absurd hbodyKind (by decide)
    · rcases List.mem_cons.mp h with rfl | h
      · exact hkind hc
      · exact hdecl (hn.mem_descendants_of_mem_ancestors h)

/-- The docstrings of two declarations are apart. -/
theorem apart_docstring? (ht : t.LaidOut) {m n r s : Node} (hm : On t m) (hn : On t n)
    (hne : m ≠ n) (hmkind : m.kind ≠ "string") (hnkind : n.kind ≠ "string")
    (hr : docstring? m = some r) (hs : docstring? n = some s) (hmn : n ∉ r.descendants)
    (hnm : m ∉ s.descendants) : AllApart [r] [s] := by
  obtain ⟨b, p, hb, hp, hrp, hbkind, hpkind, hrkind⟩ := exists_of_docstring?_eq_some hr
  obtain ⟨b', q, hb', hq, hsq, hb'kind, hqkind, hskind⟩ := exists_of_docstring?_eq_some hs
  have hpon : On t p := (hm.of_mem_children hb).of_mem_children hp
  have hqon : On t q := (hn.of_mem_children hb').of_mem_children hq
  have hsingle : ∀ {x y : Node}, x ∈ y.children → [x] <:+: y.children := by
    intro x y hx
    obtain ⟨front, back, h⟩ := List.append_of_mem hx
    exact ⟨front, back, by simp [h]⟩
  refine Node.apart_of_neighbours ht hpon hqon (hsingle hrp) (hsingle hsq) ?_ ?_ ?_
  · rintro rfl
    -- the statement leads back to one declaration
    have hbody := (Node.parent?_of_mem_children hp).symm.trans (Node.parent?_of_mem_children hq)
    obtain rfl := Option.some.inj hbody
    have hdecl := (Node.parent?_of_mem_children hb).symm.trans (Node.parent?_of_mem_children hb')
    exact absurd (Option.some.inj hdecl) hne
  · intro c hc
    obtain rfl := List.mem_singleton.mp hc
    exact statement_not_mem_walk hn hb' hq hb'kind hqkind hnkind hrkind hmn
  · intro c hc
    obtain rfl := List.mem_singleton.mp hc
    exact statement_not_mem_walk hm hb hp hbkind hpkind hmkind hskind hnm

end Docstring

end Declaration

namespace CommentStyle

open Declaration

section Styles

variable {t : Tree}

/-- The comments of a declaration stand in the order of the source, one behind the other. -/
theorem pairwise_commentNodes (ht : t.LaidOut) (style : CommentStyle) (source : Text) {n : Node}
    (hn : On t n) :
    (style.commentNodes source n).Pairwise fun a b => a.range.stop ≤ b.range.start := by
  cases style with
  | block => exact pairwise_precedingComments ht hn
  | docstring =>
    rw [commentNodes]
    cases docstring? n with
    | none => exact List.Pairwise.nil
    | some s => exact List.pairwise_singleton _ _
  | slashes => exact pairwise_precedingComments ht hn

/-- The comments of two declarations are apart, unless one of the declarations is below a comment of
the other. -/
theorem apart_commentNodes (ht : t.LaidOut) {style : CommentStyle} {source : Text} {m n : Node}
    (hm : On t m) (hn : On t n) (hne : m ≠ n) (hmkind : m.kind ∈ style.declarationKinds)
    (hnkind : n.kind ∈ style.declarationKinds)
    (hmn : ∀ c ∈ style.commentNodes source m, n ∉ c.descendants)
    (hnm : ∀ c ∈ style.commentNodes source n, m ∉ c.descendants) :
    AllApart (style.commentNodes source m) (style.commentNodes source n) := by
  have hcomment : ∀ {x : Node}, x.kind ∈ style.declarationKinds → x.kind ≠ commentKind :=
    fun hx h => style.comment_not_mem_declarationKinds (h ▸ hx)
  have hstring : ∀ {x : Node}, x.kind ∈ style.declarationKinds → x.kind ≠ "string" :=
    fun hx h => style.string_not_mem_declarationKinds (h ▸ hx)
  cases style with
  | block =>
    exact apart_precedingComments ht hm hn hne (hcomment hmkind) (hcomment hnkind) hmn hnm
  | docstring =>
    simp only [commentNodes] at hmn hnm ⊢
    cases hr : docstring? m with
    | none =>
      left
      intro a ha
      cases ha
    | some r =>
      cases hs : docstring? n with
      | none =>
        right
        intro a ha
        cases ha
      | some s =>
        rw [hr] at hmn
        rw [hs] at hnm
        exact apart_docstring? ht hm hn hne (hstring hmkind) (hstring hnkind) hr hs
          (hmn r (by simp)) (hnm s (by simp))
  | slashes =>
    exact apart_precedingComments ht hm hn hne (hcomment hmkind) (hcomment hnkind) hmn hnm

end Styles

end CommentStyle

end DocComments
