import DocComments.Proofs.Syntax.Place

/-!
# Where nodes stand in the source

A parser gives the children of a node ranges inside of the range of the node, one behind the other
(`Tree.LaidOut`). Of two nodes on such a tree one is below the other or they cover different pieces
of the source (`below_or_apart`). The pieces that matter for editing are those of neighbours:
neighbouring children of one node and neighbouring children of another are apart unless one of the
two nodes is below such a child (`apart_of_neighbours`).
-/

set_option autoImplicit false

namespace DocComments

/-- Children cover pieces of what their parent covers, one behind the other. -/
structure Tree.LaidOut (t : Tree) : Prop where
  /-- a child begins and ends within its parent -/
  within : ∀ n ∈ (Node.root t).walk, ∀ c ∈ n.children,
    n.range.start ≤ c.range.start ∧ c.range.stop ≤ n.range.stop
  /-- a child ends before a later one begins -/
  ordered : ∀ n ∈ (Node.root t).walk,
    n.children.Pairwise fun a b => a.range.stop ≤ b.range.start

namespace Node

/-- Every node of a list ends before every node of another begins. -/
def AllBefore (as bs : List Node) : Prop := ∀ a ∈ as, ∀ b ∈ bs, a.range.stop ≤ b.range.start

/-- Two lists of nodes cover different pieces of the source. -/
def AllApart (as bs : List Node) : Prop := AllBefore as bs ∨ AllBefore bs as

theorem AllApart.symm {as bs : List Node} (h : AllApart as bs) : AllApart bs as := Or.symm h

section LaidOut

variable {t : Tree}

/-- A node covers a piece of what a node above it covers. -/
theorem range_within_of_mem_walk (ht : t.LaidOut) {m n : Node} (hn : On t n) (h : m ∈ n.walk) :
    n.range.start ≤ m.range.start ∧ m.range.stop ≤ n.range.stop := by
  induction n using induction_below with
  | step n ih =>
    rcases mem_walk_iff_of_children.mp h with rfl | ⟨c, hc, hmc⟩
    · omega
    · have hchild := ht.within n (mem_walk_root_iff.mpr hn) c hc
      have hbelow := ih c hc (hn.of_mem_children hc) hmc
      omega

/-- Earlier siblings end before nearer ones begin. -/
theorem pairwise_earlierSiblings (ht : t.LaidOut) {n : Node} (hn : On t n) :
    n.earlierSiblings.Pairwise fun a b => b.range.stop ≤ a.range.start := by
  cases hn with
  | root => exact List.Pairwise.nil
  | child hp hc =>
    have hordered := ht.ordered _ (mem_walk_root_iff.mpr hp)
    rw [children_eq_append hc] at hordered
    exact List.pairwise_reverse.mp (List.pairwise_append.mp hordered).1

/-- Two children of a node cover different pieces of the source. -/
theorem apart_of_mem_children (ht : t.LaidOut) {p a b : Node} (hp : On t p) (ha : a ∈ p.children)
    (hb : b ∈ p.children) (hne : a ≠ b) :
    a.range.stop ≤ b.range.start ∨ b.range.stop ≤ a.range.start := by
  have hpairs : p.children.Pairwise fun a b =>
      a ≠ b → a.range.stop ≤ b.range.start ∨ b.range.stop ≤ a.range.start :=
    (ht.ordered p (mem_walk_root_iff.mpr hp)).imp fun h _ => .inl h
  have hflip : p.children.Pairwise (flip fun a b =>
      a ≠ b → a.range.stop ≤ b.range.start ∨ b.range.stop ≤ a.range.start) :=
    hpairs.imp fun h hne => (h hne.symm).symm
  exact hpairs.forall_of_forall_of_flip (fun x _ hx => absurd rfl hx) hflip ha hb hne

/-- Of two nodes on a tree one is below a child of the other, or they cover different pieces of the
source. -/
theorem below_or_apart (ht : t.LaidOut) {p q : Node} (hp : On t p) (hq : On t q) :
    p = q ∨ (∃ x ∈ p.children, q ∈ x.walk) ∨ (∃ x ∈ q.children, p ∈ x.walk) ∨
      p.range.stop ≤ q.range.start ∨ q.range.stop ≤ p.range.start := by
  induction hp with
  | root =>
    rcases mem_walk_iff_of_children.mp (mem_walk_root_iff.mpr hq) with h | h
    · exact .inl h.symm
    · exact .inr (.inl h)
  | @child p earlier later c hp hc ih =>
    have hchild : child p earlier c ∈ p.children := mem_children_iff.mpr ⟨_, _, _, hc, rfl⟩
    have hwithin := ht.within p (mem_walk_root_iff.mpr hp) _ hchild
    rcases ih with rfl | ⟨x, hx, hqx⟩ | ⟨x, hx, hpx⟩ | h | h
    · exact .inr (.inr (.inl ⟨_, hchild, mem_walk_self _⟩))
    · -- `q` is below the child itself or below another child of the same node
      by_cases hxc : x = child p earlier c
      · rw [hxc] at hqx
        rcases mem_walk_iff_of_children.mp hqx with rfl | h
        · exact .inl rfl
        · exact .inr (.inl h)
      · have hq := range_within_of_mem_walk ht (hp.of_mem_children hx) hqx
        rcases apart_of_mem_children ht hp hx hchild hxc with h | h
        · right; right; right; right
          omega
        · right; right; right; left
          omega
    · refine .inr (.inr (.inl ⟨x, hx, mem_walk_trans hpx ?_⟩))
      exact mem_walk_iff_of_children.mpr (.inr ⟨_, hchild, mem_walk_self _⟩)
    · right; right; right; left
      omega
    · right; right; right; right
      omega

/-! ## Neighbours -/

/-- A child is one of some neighbours, or it stands in front of all of them or behind. -/
theorem mem_or_apart_of_neighbours (ht : t.LaidOut) {p x : Node} {cs : List Node} (hp : On t p)
    (hcs : cs <:+: p.children) (hx : x ∈ p.children) :
    x ∈ cs ∨ AllBefore [x] cs ∨ AllBefore cs [x] := by
  obtain ⟨before, after, hchildren⟩ := hcs
  have hordered := ht.ordered p (mem_walk_root_iff.mpr hp)
  rw [← hchildren] at hordered hx
  obtain ⟨hfront, -, hback⟩ := List.pairwise_append.mp hordered
  obtain ⟨-, -, hmiddle⟩ := List.pairwise_append.mp hfront
  rcases List.mem_append.mp hx with hx | hx
  · rcases List.mem_append.mp hx with hx | hx
    · right; left
      intro a ha b hb
      rw [List.mem_singleton.mp ha]
      exact hmiddle x hx b hb
    · exact .inl hx
  · right; right
    intro a ha b hb
    rw [List.mem_singleton.mp hb]
    exact hback a (List.mem_append.mpr (.inr ha)) x hx

/-- What is below a child of a node is apart from neighbouring children of the node, unless it is
below one of them. -/
theorem apart_of_below_neighbour (ht : t.LaidOut) {p q x : Node} {cs ds : List Node} (hp : On t p)
    (hcs : cs <:+: p.children) (hx : x ∈ p.children) (hqx : q ∈ x.walk)
    (hds : ∀ d ∈ ds, d ∈ q.children) (hq : ∀ c ∈ cs, q ∉ c.walk) : AllApart cs ds := by
  have hon : On t x := hp.of_mem_children hx
  have hwithin : ∀ d ∈ ds, x.range.start ≤ d.range.start ∧ d.range.stop ≤ x.range.stop := by
    intro d hd
    refine range_within_of_mem_walk ht hon (mem_walk_trans hqx ?_)
    exact mem_walk_iff_of_children.mpr (.inr ⟨d, hds d hd, mem_walk_self d⟩)
  rcases mem_or_apart_of_neighbours ht hp hcs hx with hmem | h | h
  · exact absurd hqx (hq x hmem)
  · right
    intro d hd c hc
    have hx := h x (by simp) c hc
    have hd := hwithin d hd
    omega
  · left
    intro c hc d hd
    have hx := h c hc x (by simp)
    have hd := hwithin d hd
    omega

/-- Neighbouring children of a node and neighbouring children of another are apart, unless one of
the nodes is below such a child of the other. -/
theorem apart_of_neighbours (ht : t.LaidOut) {p q : Node} {cs ds : List Node} (hp : On t p)
    (hq : On t q) (hcs : cs <:+: p.children) (hds : ds <:+: q.children)
    (hsame : p = q → AllApart cs ds) (hqc : ∀ c ∈ cs, q ∉ c.walk) (hpd : ∀ d ∈ ds, p ∉ d.walk) :
    AllApart cs ds := by
  have hcmem : ∀ c ∈ cs, c ∈ p.children := fun c hc => hcs.subset hc
  have hdmem : ∀ d ∈ ds, d ∈ q.children := fun d hd => hds.subset hd
  rcases below_or_apart ht hp hq with h | ⟨x, hx, hqx⟩ | ⟨x, hx, hpx⟩ | h | h
  · exact hsame h
  · exact apart_of_below_neighbour ht hp hcs hx hqx hdmem hqc
  · exact (apart_of_below_neighbour ht hq hds hx hpx hcmem hpd).symm
  · left
    intro c hc d hd
    have hcp := ht.within p (mem_walk_root_iff.mpr hp) c (hcmem c hc)
    have hdq := ht.within q (mem_walk_root_iff.mpr hq) d (hdmem d hd)
    omega
  · right
    intro d hd c hc
    have hcp := ht.within p (mem_walk_root_iff.mpr hp) c (hcmem c hc)
    have hdq := ht.within q (mem_walk_root_iff.mpr hq) d (hdmem d hd)
    omega

end LaidOut

end Node

end DocComments
