import DocComments.Syntax.Tree
import Mathlib.Data.List.Nodup

/-!
# Places in a tree

A `Node` carries its place with it, but nothing ties that place to a tree. `Node.On` does: the
nodes on a tree are its root and, below every node on it, the children of that node. They are
exactly what a walk of the tree lists (`mem_walk_root_iff`), each of them once (`nodup_walk`), and
no neighbour of a node on a tree leads off it.
-/

set_option autoImplicit false

namespace DocComments

namespace Node

/-- The node stands on the tree. -/
inductive On (t : Tree) : Node → Prop where
  /-- The root stands on the tree. -/
  | root : On t (.root t)
  /-- A child of a node on the tree stands on it, behind the children in front of it. -/
  | child {p : Node} {earlier later : List Tree} {c : Tree} (hp : On t p)
      (hc : p.tree.children = earlier.reverse ++ c :: later) : On t (.child p earlier c)

/-! ## Children -/

theorem mem_placeForward_iff {p n : Node} {earlier ts : List Tree} :
    n ∈ placeForward p earlier ts ↔
      ∃ before c later, ts = before ++ c :: later ∧ n = child p (before.reverse ++ earlier) c := by
  induction ts generalizing earlier with
  | nil => simp [placeForward]
  | cons t ts ih =>
    rw [placeForward, List.mem_cons, ih]
    constructor
    · rintro (rfl | ⟨before, c, later, rfl, rfl⟩)
      · exact ⟨[], t, ts, rfl, rfl⟩
      · exact ⟨t :: before, c, later, rfl, by simp⟩
    · rintro ⟨before, c, later, h, rfl⟩
      cases before with
      | nil =>
        cases h
        exact .inl rfl
      | cons b before =>
        cases h
        exact .inr ⟨before, c, later, rfl, by simp⟩

/-- A child stands behind the children in front of it. -/
theorem mem_children_iff {p n : Node} :
    n ∈ p.children ↔
      ∃ earlier c later, p.tree.children = earlier.reverse ++ c :: later ∧
        n = child p earlier c := by
  rw [children, mem_placeForward_iff]
  constructor
  · rintro ⟨before, c, later, h, rfl⟩
    exact ⟨before.reverse, c, later, by simpa using h, by simp⟩
  · rintro ⟨earlier, c, later, h, rfl⟩
    exact ⟨earlier.reverse, c, later, h, by simp⟩

theorem parent?_of_mem_children {p n : Node} (h : n ∈ p.children) : n.parent? = some p := by
  obtain ⟨earlier, c, later, -, rfl⟩ := mem_children_iff.mp h
  rfl

theorem tree_mem_of_mem_children {p n : Node} (h : n ∈ p.children) : n.tree ∈ p.tree.children := by
  obtain ⟨earlier, c, later, hc, rfl⟩ := mem_children_iff.mp h
  rw [hc]
  simp

theorem mem_placeBackward_iff {p n : Node} {ts : List Tree} :
    n ∈ placeBackward p ts ↔
      ∃ after c earlier, ts = after ++ c :: earlier ∧ n = child p earlier c := by
  induction ts with
  | nil => simp [placeBackward]
  | cons t ts ih =>
    rw [placeBackward, List.mem_cons, ih]
    constructor
    · rintro (rfl | ⟨after, c, earlier, rfl, rfl⟩)
      · exact ⟨[], t, ts, rfl, rfl⟩
      · exact ⟨t :: after, c, earlier, rfl, rfl⟩
    · rintro ⟨after, c, earlier, h, rfl⟩
      cases after with
      | nil =>
        cases h
        exact .inl rfl
      | cons a after =>
        cases h
        exact .inr ⟨after, c, earlier, rfl, rfl⟩

/-! ## Siblings -/

theorem placeForward_append (p : Node) (earlier ts us : List Tree) :
    placeForward p earlier (ts ++ us)
      = placeForward p earlier ts ++ placeForward p (ts.reverse ++ earlier) us := by
  induction ts generalizing earlier with
  | nil => rfl
  | cons t ts ih => simp [placeForward, ih]

theorem placeForward_reverse (p : Node) (earlier : List Tree) :
    placeForward p [] earlier.reverse = (placeBackward p earlier).reverse := by
  induction earlier with
  | nil => rfl
  | cons t earlier ih =>
    rw [List.reverse_cons, placeForward_append, ih, placeBackward, List.reverse_cons]
    simp [placeForward]

/-- A child stands between its earlier siblings and its later ones. -/
theorem children_eq_append {p : Node} {earlier later : List Tree} {c : Tree}
    (hc : p.tree.children = earlier.reverse ++ c :: later) :
    p.children = (child p earlier c).earlierSiblings.reverse ++
      child p earlier c :: placeForward p (c :: earlier) later := by
  rw [children, hc, placeForward_append, placeForward_reverse]
  simp [placeForward, earlierSiblings]

/-- The earlier siblings of a node that are behind one of them come first, and then that one with
its own earlier siblings. -/
theorem exists_earlierSiblings_eq {m n : Node} (h : m ∈ n.earlierSiblings) :
    ∃ between, n.earlierSiblings = between ++ m :: m.earlierSiblings := by
  have hplaced : ∀ (p : Node) (after earlier : List Tree) (c : Tree), ∃ between,
      placeBackward p (after ++ c :: earlier)
        = between ++ child p earlier c :: placeBackward p earlier := by
    intro p after earlier c
    induction after with
    | nil => exact ⟨[], rfl⟩
    | cons a after ih =>
      obtain ⟨between, hbetween⟩ := ih
      exact ⟨child p (after ++ c :: earlier) a :: between, by simp [placeBackward, hbetween]⟩
  cases n with
  | root t => cases h
  | child p e t =>
    obtain ⟨after, c, earlier, rfl, rfl⟩ := mem_placeBackward_iff.mp h
    exact hplaced p after earlier c

/-- The earlier siblings begin with the one directly in front, and then come those of that one. -/
theorem earlierSiblings_of_previous? {m n : Node} (h : n.previous? = some m) :
    n.earlierSiblings = m :: m.earlierSiblings := by
  cases n with
  | root t => cases h
  | child p earlier t =>
    cases earlier with
    | nil => cases h
    | cons s earlier =>
      cases h
      rfl

/-! ## What is below -/

/-- What holds of a node whenever it holds of its children holds of every node. -/
theorem induction_below {motive : Node → Prop}
    (step : ∀ n : Node, (∀ c ∈ n.children, motive c) → motive n) (n : Node) : motive n := by
  refine step n fun c hc => ?_
  have hlt : sizeOf c.tree < sizeOf n.tree := by
    have hmem := List.sizeOf_lt_of_mem (tree_mem_of_mem_children hc)
    cases ht : n.tree with
    | node k named r cs =>
      rw [ht, Tree.children] at hmem
      simp only [Tree.node.sizeOf_spec]
      omega
  exact induction_below step c
termination_by sizeOf n.tree

theorem walkForest_eq_flatMap (p : Node) (earlier ts : List Tree) :
    walkForest p earlier ts = (placeForward p earlier ts).flatMap walk := by
  induction ts generalizing earlier with
  | nil => rfl
  | cons t ts ih => rw [walkForest, placeForward, List.flatMap_cons, walkTree_child, ih]

theorem descendants_eq_flatMap (n : Node) : n.descendants = n.children.flatMap walk :=
  walkForest_eq_flatMap n [] n.tree.children

@[simp] theorem mem_walk_self (n : Node) : n ∈ n.walk := List.mem_cons_self

theorem mem_walk_iff_of_children {m n : Node} :
    m ∈ n.walk ↔ m = n ∨ ∃ c ∈ n.children, m ∈ c.walk := by
  rw [walk, List.mem_cons, descendants_eq_flatMap, List.mem_flatMap]

theorem mem_walk_trans {k m n : Node} (hm : m ∈ n.walk) (hk : k ∈ m.walk) : k ∈ n.walk := by
  induction n using induction_below with
  | step n ih =>
    rcases mem_walk_iff_of_children.mp hm with rfl | ⟨c, hc, hmc⟩
    · exact hk
    · exact mem_walk_iff_of_children.mpr (.inr ⟨c, hc, ih c hc hmc⟩)

theorem mem_descendants_of_mem_children {c n q : Node} (hq : q ∈ c.walk) (hn : n ∈ q.children) :
    n ∈ c.descendants := by
  rw [descendants_eq_flatMap, List.mem_flatMap]
  rcases mem_walk_iff_of_children.mp hq with rfl | ⟨x, hx, hqx⟩
  · exact ⟨n, hn, mem_walk_self n⟩
  · refine ⟨x, hx, mem_walk_trans hqx ?_⟩
    exact mem_walk_iff_of_children.mpr (.inr ⟨n, hn, mem_walk_self n⟩)

/-- The nodes above a node in a walk reach the start of the walk. -/
theorem eq_or_mem_ancestors_of_mem_walk {m n : Node} (h : m ∈ n.walk) :
    m = n ∨ n ∈ m.ancestors := by
  induction n using induction_below with
  | step n ih =>
    rcases mem_walk_iff_of_children.mp h with rfl | ⟨c, hc, hmc⟩
    · exact .inl rfl
    · -- the child leads on to `n`, its parent
      obtain ⟨earlier, t, later, -, rfl⟩ := mem_children_iff.mp hc
      rcases ih _ hc hmc with rfl | hm
      · exact .inr List.mem_cons_self
      · right
        clear ih hmc hc h
        induction m with
        | root t => cases hm
        | child p e t ihp =>
          rcases List.mem_cons.mp hm with rfl | hp
          · exact List.mem_cons_of_mem _ List.mem_cons_self
          · exact List.mem_cons_of_mem _ (ihp hp)

/-! ## The nodes on a tree -/

variable {t : Tree}

theorem On.of_mem_children {p n : Node} (hp : On t p) (h : n ∈ p.children) : On t n := by
  obtain ⟨earlier, c, later, hc, rfl⟩ := mem_children_iff.mp h
  exact .child hp hc

theorem On.of_mem_walk {m n : Node} (hn : On t n) (h : m ∈ n.walk) : On t m := by
  induction n using induction_below with
  | step n ih =>
    rcases mem_walk_iff_of_children.mp h with rfl | ⟨c, hc, hmc⟩
    · exact hn
    · exact ih c hc (hn.of_mem_children hc) hmc

theorem On.of_mem_descendants {m n : Node} (hn : On t n) (h : m ∈ n.descendants) : On t m :=
  hn.of_mem_walk (List.mem_cons_of_mem _ h)

theorem On.of_mem_ancestors {m n : Node} (hn : On t n) (h : m ∈ n.ancestors) : On t m := by
  induction hn with
  | root => cases h
  | child hp _ ih =>
    rcases List.mem_cons.mp h with rfl | hm
    · exact hp
    · exact ih hm

theorem On.of_parent? {n p : Node} (hn : On t n) (h : n.parent? = some p) : On t p := by
  cases hn with
  | root => cases h
  | child hp _ =>
    cases h
    exact hp

theorem On.of_mem_earlierSiblings {m n : Node} (hn : On t n) (h : m ∈ n.earlierSiblings) :
    On t m := by
  cases hn with
  | root => cases h
  | @child p earlier later c hp hc =>
    obtain ⟨after, s, front, rfl, rfl⟩ := mem_placeBackward_iff.mp h
    have hfront : p.tree.children = front.reverse ++ s :: (after.reverse ++ c :: later) := by
      rw [hc]
      simp
    exact .child hp hfront

/-- Of two children of a node one is an earlier sibling of the other. -/
theorem On.mem_earlierSiblings {p : Node} {e e' : List Tree} {c c' : Tree}
    (h : On t (.child p e c)) (h' : On t (.child p e' c'))
    (hne : Node.child p e c ≠ .child p e' c') :
    Node.child p e c ∈ (Node.child p e' c').earlierSiblings ∨
      Node.child p e' c' ∈ (Node.child p e c).earlierSiblings := by
  -- the one with fewer trees in front of it comes first
  have hfront : ∀ {e e' later later' : List Tree} {c c' : Tree},
      p.tree.children = e.reverse ++ c :: later → p.tree.children = e'.reverse ++ c' :: later' →
      e.length < e'.length → Node.child p e c ∈ (Node.child p e' c').earlierSiblings := by
    intro e e' later later' c c' hc hc' hlt
    rw [earlierSiblings, mem_placeBackward_iff]
    have hboth := hc.symm.trans hc'
    rcases List.append_eq_append_iff.mp hboth with ⟨front, hfront, hrest⟩ | ⟨front, hfront, -⟩
    · cases front with
      | nil =>
        have hlength := congrArg List.length hfront
        simp only [List.append_nil, List.length_reverse] at hlength
        omega
      | cons x front =>
        cases hrest
        refine ⟨front.reverse, c, e, ?_, rfl⟩
        rw [← List.reverse_reverse e', hfront]
        simp
    · have hlength := congrArg List.length hfront
      simp only [List.length_append, List.length_reverse] at hlength
      omega
  cases h with
  | @child _ _ later _ hp hc =>
    cases h' with
    | @child _ _ later' _ _ hc' =>
      by_cases hlt : e.length < e'.length
      · exact .inl (hfront hc hc' hlt)
      · by_cases hgt : e'.length < e.length
        · exact .inr (hfront hc' hc hgt)
        · have hlength : e.reverse.length = e'.reverse.length := by
            simp only [List.length_reverse]
            omega
          obtain ⟨he, hrest⟩ := List.append_inj (hc.symm.trans hc') hlength
          obtain rfl := List.reverse_injective he
          obtain rfl := (List.cons.inj hrest).1
          exact absurd rfl hne

theorem On.of_previous? {m n : Node} (hn : On t n) (h : n.previous? = some m) : On t m :=
  hn.of_mem_earlierSiblings (List.mem_of_mem_head? h)

/-- A node on a tree is below every node that is above it. -/
theorem On.mem_walk_of_mem_ancestors {m n : Node} (hm : On t m) (h : n ∈ m.ancestors) :
    m ∈ n.walk := by
  induction hm with
  | root => cases h
  | @child p earlier later c hp hc ih =>
    have hchild : Node.child p earlier c ∈ p.children :=
      mem_children_iff.mpr ⟨_, _, _, hc, rfl⟩
    have hstep : Node.child p earlier c ∈ p.walk :=
      mem_walk_iff_of_children.mpr (.inr ⟨_, hchild, mem_walk_self _⟩)
    rcases List.mem_cons.mp h with rfl | hn
    · exact hstep
    · exact mem_walk_trans (ih hn) hstep

/-- A walk lists the node it starts at and the nodes on the tree that are below that one. -/
theorem On.mem_walk_iff {m n : Node} (hm : On t m) : m ∈ n.walk ↔ m = n ∨ n ∈ m.ancestors := by
  refine ⟨eq_or_mem_ancestors_of_mem_walk, ?_⟩
  rintro (rfl | h)
  · exact mem_walk_self m
  · exact hm.mem_walk_of_mem_ancestors h

theorem On.eq_root_or_mem_ancestors {n : Node} (hn : On t n) :
    n = .root t ∨ .root t ∈ n.ancestors := by
  induction hn with
  | root => exact .inl rfl
  | child _ _ ih =>
    right
    rcases ih with rfl | h
    · exact List.mem_cons_self
    · exact List.mem_cons_of_mem _ h

/-- A walk of a tree lists exactly the nodes on it. -/
theorem mem_walk_root_iff {n : Node} : n ∈ (root t).walk ↔ On t n :=
  ⟨On.root.of_mem_walk, fun hn => hn.mem_walk_iff.mpr hn.eq_root_or_mem_ancestors⟩

/-! ## Each node once -/

theorem mem_ancestors_trans {a b c : Node} (hab : a ∈ b.ancestors) (hbc : b ∈ c.ancestors) :
    a ∈ c.ancestors := by
  induction c with
  | root t => cases hbc
  | child p earlier t ih =>
    rcases List.mem_cons.mp hbc with rfl | hb
    · exact List.mem_cons_of_mem _ hab
    · exact List.mem_cons_of_mem _ (ih hb)

theorem sizeOf_lt_of_mem_ancestors {a n : Node} (h : a ∈ n.ancestors) : sizeOf a < sizeOf n := by
  induction n with
  | root t => cases h
  | child p earlier t ih =>
    have hp : sizeOf p < sizeOf (child p earlier t) := by
      simp only [child.sizeOf_spec]
      omega
    rcases List.mem_cons.mp h with rfl | ha
    · exact hp
    · exact Nat.lt_trans (ih ha) hp

theorem not_mem_ancestors_self (n : Node) : n ∉ n.ancestors :=
  fun h => Nat.lt_irrefl _ (sizeOf_lt_of_mem_ancestors h)

theorem ancestors_of_parent? {n p : Node} (h : n.parent? = some p) :
    n.ancestors = p :: p.ancestors := by
  cases n with
  | root => cases h
  | child parent earlier c =>
    cases h
    rfl

theorem ancestors_of_mem_children {p n : Node} (h : n ∈ p.children) :
    n.ancestors = p :: p.ancestors :=
  ancestors_of_parent? (parent?_of_mem_children h)

/-- Of two nodes on the way from a node to the root, one is above the other. -/
theorem eq_or_mem_ancestors {a b m : Node} (ha : m = a ∨ a ∈ m.ancestors)
    (hb : m = b ∨ b ∈ m.ancestors) : a = b ∨ a ∈ b.ancestors ∨ b ∈ a.ancestors := by
  induction m with
  | root t =>
    rcases ha with rfl | ha
    · rcases hb with rfl | hb
      · exact .inl rfl
      · cases hb
    · cases ha
  | child p earlier t ih =>
    rcases ha with rfl | ha
    · rcases hb with rfl | hb
      · exact .inl rfl
      · exact .inr (.inr hb)
    · rcases hb with rfl | hb
      · exact .inr (.inl ha)
      · refine ih ?_ ?_
        · exact (List.mem_cons.mp ha).imp_left Eq.symm
        · exact (List.mem_cons.mp hb).imp_left Eq.symm

theorem On.mem_descendants_of_mem_ancestors {m n : Node} (hm : On t m) (h : n ∈ m.ancestors) :
    m ∈ n.descendants := by
  rcases List.mem_cons.mp (hm.mem_walk_of_mem_ancestors h) with rfl | hmem
  · exact absurd h (not_mem_ancestors_self m)
  · exact hmem

/-- No node is below two children of a node. -/
theorem eq_of_mem_walk_of_mem_children {a b m p : Node} (ha : a ∈ p.children) (hb : b ∈ p.children)
    (hma : m ∈ a.walk) (hmb : m ∈ b.walk) : a = b := by
  have hapart : ∀ {x y : Node}, x ∈ p.children → y ∈ p.children → x ∉ y.ancestors := by
    intro x y hx hy h
    have hpx : p ∈ x.ancestors := by simp [ancestors_of_mem_children hx]
    rw [ancestors_of_mem_children hy] at h
    rcases List.mem_cons.mp h with rfl | hxp
    · exact not_mem_ancestors_self _ hpx
    · exact not_mem_ancestors_self p (mem_ancestors_trans hpx hxp)
  rcases eq_or_mem_ancestors (eq_or_mem_ancestors_of_mem_walk hma)
    (eq_or_mem_ancestors_of_mem_walk hmb) with h | h | h
  · exact h
  · exact absurd h (hapart ha hb)
  · exact absurd h (hapart hb ha)

theorem nodup_placeForward (p : Node) (earlier ts : List Tree) :
    (placeForward p earlier ts).Nodup := by
  induction ts generalizing earlier with
  | nil => exact List.nodup_nil
  | cons t ts ih =>
    refine List.nodup_cons.mpr ⟨?_, ih (t :: earlier)⟩
    intro h
    obtain ⟨before, c, later, -, heq⟩ := mem_placeForward_iff.mp h
    -- a later child has more trees in front of it
    have hlength := congrArg List.length (child.inj heq).2.1
    simp only [List.length_append, List.length_cons] at hlength
    omega

theorem nodup_children (n : Node) : n.children.Nodup := nodup_placeForward n [] n.tree.children

theorem nodup_earlierSiblings (n : Node) : n.earlierSiblings.Nodup := by
  cases n with
  | root t => exact List.nodup_nil
  | child p earlier t =>
    rw [earlierSiblings, ← List.nodup_reverse, ← placeForward_reverse]
    exact nodup_placeForward p [] earlier.reverse

/-- A walk lists no node twice. -/
theorem nodup_walk (n : Node) : n.walk.Nodup := by
  induction n using induction_below with
  | step n ih =>
    refine List.nodup_cons.mpr ⟨?_, ?_⟩
    · intro h
      rw [descendants_eq_flatMap, List.mem_flatMap] at h
      obtain ⟨c, hc, hnc⟩ := h
      have hn : n ∈ c.ancestors := by simp [ancestors_of_mem_children hc]
      rcases eq_or_mem_ancestors_of_mem_walk hnc with rfl | hcn
      · exact not_mem_ancestors_self n hn
      · exact not_mem_ancestors_self n (mem_ancestors_trans hn hcn)
    · rw [descendants_eq_flatMap, List.nodup_flatMap]
      refine ⟨ih, (nodup_children n).imp_of_mem fun {a b} ha hb hne => ?_⟩
      intro m hma hmb
      exact hne (eq_of_mem_walk_of_mem_children ha hb hma hmb)

end Node

end DocComments
