import DocComments.Rule.Prune
import DocComments.Proofs.Syntax.Place
import Mathlib.Data.List.Basic

/-!
# What pruning preserves

A rule is asked about nodes in several places at once: a relation asks about other nodes, and a
position counts what a rule yields for the siblings. Pruning therefore has to keep what a rule
yields, not only whether it matches, and it has to keep it on every node of the tree.
`bind_prune_yields` says that it does: a pruned rule yields what the rule yields, and a rule of
which nothing is left yields nothing.
-/

set_option autoImplicit false

namespace DocComments

/-- The named nodes of the tree are of known kinds. Tokens without a name are of kinds that no rule
asks for. -/
def Tree.KindsKnown (t : Tree) (known : String → Bool) : Prop :=
  ∀ n ∈ (Node.root t).walk, n.named = true → known n.kind = true

/-- A relation does not lead off the tree. -/
theorem Relation.on_of_mem_related {t : Tree} {relation : Relation} {reach : Reach} {m n : Node}
    (hn : Node.On t n) (h : m ∈ relation.related reach n) : Node.On t m := by
  cases relation with
  | inside =>
    cases reach with
    | neighbor => exact hn.of_parent? (Option.mem_toList.mp h)
    | far => exact hn.of_mem_ancestors h
  | has =>
    cases reach with
    | neighbor => exact hn.of_mem_children h
    | far => exact hn.of_mem_descendants h
  | follows =>
    cases reach with
    | neighbor => exact hn.of_previous? (Option.mem_toList.mp h)
    | far => exact hn.of_mem_earlierSiblings h

namespace Rule

theorem on_of_mem_namedSiblings {t : Tree} {m n : Node} (hn : Node.On t n)
    (h : m ∈ namedSiblings n) : Node.On t m := by
  rw [namedSiblings] at h
  cases hp : n.parent? with
  | none =>
    rw [hp] at h
    cases h
  | some p =>
    rw [hp] at h
    exact (hn.of_parent? hp).of_mem_children (List.mem_of_mem_filter h)

/-- The empty pattern matches every text. -/
theorem searchWritten_nil (s : Text) : Pattern.searchWritten [] s = true := by
  have hread : Pattern.read? [] = some .empty := by cbv
  rw [Pattern.searchWritten, hread]
  cases s <;> simp [Pattern.search, Pattern.searchFrom, Pattern.nullable]

@[simp] theorem yields_always (source : Text) (n : Node) : yields source always n = some n := by
  rw [always, yields, if_pos (searchWritten_nil _)]

@[simp] theorem yields_never (source : Text) (n : Node) : yields source never n = none := by
  rw [never, yields, yields_always]
  rfl

/-! ## One step of pruning

Each lemma brings the meaning of a pruned rule into the shape of the meaning of the rule, with the
pruned parts in place of the parts.
-/

section Step

variable (source : Text) (known : String → Bool) (n : Node)

theorem bind_prune_all (rules : List Rule) :
    ((prune known (all rules)).bind fun r => yields source r n)
      = if (pruneEach known rules).any fun kept => allMatch source kept n then some n
        else none := by
  rw [prune]
  cases pruneEach known rules with
  | none => rfl
  | some kept => simp [yields]

theorem bind_prune_any (rules : List Rule) :
    ((prune known (any rules)).bind fun r => yields source r n)
      = if anyMatches source (pruneSome known rules) n then some n else none := by
  rw [prune]
  cases pruneSome known rules with
  | nil => simp [anyMatches]
  | cons r kept => simp [yields]

theorem bind_prune_not (rule : Rule) :
    ((prune known (not rule)).bind fun r => yields source r n)
      = if ((prune known rule).bind fun r => yields source r n).isSome then none else some n := by
  rw [prune]
  cases prune known rule with
  | none => simp
  | some kept => simp [yields]

theorem bind_prune_related (relation : Relation) (reach : Reach) (rule : Rule) :
    ((prune known (related relation reach rule)).bind fun r => yields source r n)
      = (relation.related reach n).findSome?
          fun m => (prune known rule).bind fun r => yields source r m := by
  rw [prune]
  cases prune known rule with
  | none => exact (List.findSome?_eq_none_iff.mpr fun _ _ => rfl).symm
  | some kept => simp [yields]

theorem bind_prune_nthOf (position : Nat) (rule : Rule) :
    ((prune known (nthOf position rule)).bind fun r => yields source r n)
      = if isNth position n ((namedSiblings n).filterMap
          fun m => (prune known rule).bind fun r => yields source r m) then some n else none := by
  rw [prune]
  cases prune known rule with
  | none => simp [isNth]
  | some kept => simp [yields]

end Step

/-! ## Whole rules -/

section Whole

variable {source : Text} {known : String → Bool} {t : Tree}

mutual

/-- Pruning keeps what a rule yields on the nodes of a tree of known kinds. -/
theorem bind_prune_yields (ht : t.KindsKnown known) :
    ∀ (rule : Rule) {n : Node}, Node.On t n →
      ((prune known rule).bind fun r => yields source r n) = yields source rule n
  | kind k, n, hn => by
    rw [prune, yields]
    by_cases hk : known k = true
    · rw [if_pos hk, Option.bind_some, yields]
    · -- no node of the tree is of an unknown kind
      rw [if_neg hk, Option.bind_none, if_neg]
      intro h
      obtain ⟨hnamed, hkind⟩ := Bool.and_eq_true_iff.mp h
      have hknown := ht n (Node.mem_walk_root_iff.mpr hn) hnamed
      exact hk (beq_iff_eq.mp hkind ▸ hknown)
  | pattern _, _, _ => rfl
  | all rules, n, hn => by rw [bind_prune_all, allMatch_pruneEach ht rules hn, yields]
  | any rules, n, hn => by rw [bind_prune_any, anyMatches_pruneSome ht rules hn, yields]
  | not rule, n, hn => by rw [bind_prune_not, bind_prune_yields ht rule hn, yields]
  | related relation reach rule, n, hn => by
    -- the related nodes are on the tree, so that the rule yields the same there
    have hsame : ∀ m ∈ relation.related reach n,
        ((prune known rule).bind fun r => yields source r m) = yields source rule m :=
      fun m hm => bind_prune_yields ht rule (Relation.on_of_mem_related hn hm)
    rw [bind_prune_related, yields, ← List.head?_filterMap, ← List.head?_filterMap,
      List.filterMap_congr hsame]
  | nth _, _, _ => rfl
  | nthOf position rule, n, hn => by
    have hsame : ∀ m ∈ namedSiblings n,
        ((prune known rule).bind fun r => yields source r m) = yields source rule m :=
      fun m hm => bind_prune_yields ht rule (on_of_mem_namedSiblings hn hm)
    rw [bind_prune_nthOf, List.filterMap_congr hsame, yields]

/-- Rules pruned together match together where the rules do; if one of them can never match, they
do not. -/
theorem allMatch_pruneEach (ht : t.KindsKnown known) :
    ∀ (rules : List Rule) {n : Node}, Node.On t n →
      ((pruneEach known rules).any fun kept => allMatch source kept n) = allMatch source rules n
  | [], _, _ => rfl
  | rule :: rules, n, hn => by
    rw [allMatch, ← bind_prune_yields ht rule hn, ← allMatch_pruneEach ht rules hn, pruneEach]
    cases prune known rule with
    | none => rfl
    | some r =>
      cases pruneEach known rules with
      | none => simp
      | some kept => simp [allMatch]

/-- One of the rules that can match does where one of the rules does. -/
theorem anyMatches_pruneSome (ht : t.KindsKnown known) :
    ∀ (rules : List Rule) {n : Node}, Node.On t n →
      anyMatches source (pruneSome known rules) n = anyMatches source rules n
  | [], _, _ => rfl
  | rule :: rules, n, hn => by
    rw [anyMatches, ← bind_prune_yields ht rule hn, ← anyMatches_pruneSome ht rules hn, pruneSome]
    cases prune known rule with
    | none => simp
    | some r => simp [anyMatches]

end

theorem yields_of_prune_eq_some (ht : t.KindsKnown known) {rule kept : Rule}
    (h : prune known rule = some kept) {n : Node} (hn : Node.On t n) :
    yields source kept n = yields source rule n := by
  rw [← bind_prune_yields ht rule hn, h, Option.bind_some]

theorem yields_of_prune_eq_none (ht : t.KindsKnown known) {rule : Rule}
    (h : prune known rule = none) {n : Node} (hn : Node.On t n) :
    yields source rule n = none := by
  rw [← bind_prune_yields ht rule hn, h, Option.bind_none]

/-- A rule and its form that needs no grammar yield the same on every tree. -/
theorem yields_normal (rule : Rule) {n : Node} (hn : Node.On t n) :
    yields source (normal rule) n = yields source rule n := by
  have ht : t.KindsKnown fun _ => true := fun _ _ _ => rfl
  rw [normal]
  cases h : prune (fun _ => true) rule with
  | none => rw [Option.getD_none, yields_never, yields_of_prune_eq_none ht h hn]
  | some kept => rw [Option.getD_some, yields_of_prune_eq_some ht h hn]

end Whole

end Rule

end DocComments
