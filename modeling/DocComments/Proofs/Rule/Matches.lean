import DocComments.Proofs.Rule.Prune

/-!
# When a rule matches

What a rule asks of a node, for the questions that tell documented declarations from others. To be
the first of what a negated rule yields for the named siblings is to be the first named child of the
parent that the rule does not match (`matchesAt_nthOf_one_not_iff`).
-/

set_option autoImplicit false

namespace DocComments

namespace Node

/-- Two children of a node that stand at the same place are the same. -/
theorem eq_of_sameAs_of_mem_children {a b p : Node} (ha : a ∈ p.children) (hb : b ∈ p.children)
    (h : a.sameAs b = true) : a = b := by
  obtain ⟨e, c, later, hc, rfl⟩ := mem_children_iff.mp ha
  obtain ⟨e', c', later', hc', rfl⟩ := mem_children_iff.mp hb
  have hlength : e.length = e'.length := by
    simpa [sameAs, path] using h
  obtain ⟨he, hrest⟩ := List.append_inj (hc.symm.trans hc') (by simpa using hlength)
  obtain rfl := List.reverse_injective he
  obtain rfl := (List.cons.inj hrest).1
  rfl

end Node

namespace Rule

section Matches

variable {source : Text} {n : Node}

@[simp] theorem matchesAt_kind_iff {k : String} :
    matchesAt source (kind k) n = true ↔ n.named = true ∧ n.kind = k := by
  simp [matchesAt, yields]

@[simp] theorem matchesAt_pattern_iff {written : Text} :
    matchesAt source (pattern written) n = true ↔
      Pattern.searchWritten written (n.text source) = true := by
  simp [matchesAt, yields]

@[simp] theorem matchesAt_all_iff {rules : List Rule} :
    matchesAt source (all rules) n = true ↔ ∀ rule ∈ rules, matchesAt source rule n = true := by
  simp [matchesAt, yields, allMatch_iff]

@[simp] theorem matchesAt_related_iff {relation : Relation} {reach : Reach} {rule : Rule} :
    matchesAt source (related relation reach rule) n = true ↔
      ∃ m ∈ relation.related reach n, matchesAt source rule m = true := by
  simp [matchesAt, yields, List.findSome?_isSome_iff]

theorem matchesAt_hasChild_iff {rule : Rule} :
    matchesAt source (hasChild rule) n = true ↔
      ∃ c ∈ n.children, matchesAt source rule c = true :=
  matchesAt_related_iff

theorem matchesAt_afterSibling_iff {rule : Rule} :
    matchesAt source (afterSibling rule) n = true ↔
      ∃ s, n.previous? = some s ∧ matchesAt source rule s = true := by
  rw [afterSibling, matchesAt_related_iff]
  simp [Relation.related]

/-! ## Positions -/

theorem isNth_one_iff {nodes : List Node} :
    isNth 1 n nodes = true ↔ ∃ m, nodes.head? = some m ∧ n.sameAs m = true := by
  have hone : Int.bmod (1 : Nat) 4294967296 = 1 := by decide
  cases nodes with
  | nil => simp [isNth]
  | cons m nodes =>
    by_cases h : n.sameAs m = true
    · simp [isNth, List.findIdx?_cons, h]
    · cases hrest : nodes.findIdx? n.sameAs with
      | none => simp [isNth, List.findIdx?_cons, h, hrest]
      | some i =>
        simp only [isNth, List.findIdx?_cons, h, hrest, Option.map_some, hone]
        simp [h]
        omega

/-- What a negated rule yields for nodes are those of them that the rule does not match. -/
theorem filterMap_yields_not (rule : Rule) (nodes : List Node) :
    (nodes.filterMap fun m => yields source (not rule) m)
      = nodes.filter fun m => !matchesAt source rule m := by
  have hguard : (fun m => yields source (not rule) m)
      = Option.guard fun m => !matchesAt source rule m := by
    funext m
    rw [yields, Option.guard, matchesAt]
    cases (yields source rule m).isSome <;> rfl
  rw [hguard, List.filterMap_eq_filter]

/-- A child is the first of its named siblings that a rule does not match if it is the first such
child of the parent. -/
theorem matchesAt_nthOf_one_not_iff {rule : Rule} {p : Node} (hn : n ∈ p.children) :
    matchesAt source (nthOf 1 (not rule)) n = true ↔
      p.children.find? (fun m => m.named && !matchesAt source rule m) = some n := by
  have hsiblings : namedSiblings n = p.namedChildren := by
    rw [namedSiblings, Node.parent?_of_mem_children hn, Option.elim_some]
  have hmatch : matchesAt source (nthOf 1 (not rule)) n = true ↔
      isNth 1 n (p.children.filter fun m => m.named && !matchesAt source rule m) = true := by
    rw [matchesAt, yields, hsiblings, Node.namedChildren, filterMap_yields_not, List.filter_filter]
    simp [Bool.and_comm]
  rw [hmatch, isNth_one_iff, List.head?_filter]
  constructor
  · rintro ⟨m, hm, hsame⟩
    rw [Node.eq_of_sameAs_of_mem_children hn (List.mem_of_find?_eq_some hm) hsame]
    exact hm
  · intro h
    exact ⟨n, h, by simp [Node.sameAs]⟩

end Matches

end Rule

end DocComments
