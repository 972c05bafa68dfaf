import DocComments.Rule.Search
import DocComments.Proofs.Rule.Prune

/-!
# What a search finds

A search asks what is left of a rule once it is pruned. On a tree with nodes of unknown kinds that
may find less or more than the rule itself matches, but what is asked of the kind of a node still
holds, and rules that are put together are still asked together: `LeftMatches` follows that through
`all`, `any`, `not`, `kind` and relations. Pruning adds no pattern that is not valid, so that a
search for a rule with valid patterns does not fail (`exists_search_eq_ok`).
-/

set_option autoImplicit false

namespace DocComments

namespace Rule

/-- What is left of the rule where only some kinds are known matches the node. -/
def LeftMatches (source : Text) (known : String → Bool) (rule : Rule) (n : Node) : Prop :=
  ((prune known rule).bind fun r => yields source r n).isSome = true

section Left

variable {source : Text} {known : String → Bool} {n : Node}

theorem leftMatches_kind_iff {k : String} :
    LeftMatches source known (kind k) n ↔ known k = true ∧ n.named = true ∧ n.kind = k := by
  rw [LeftMatches, prune]
  by_cases hk : known k = true
  · simp [hk, yields]
  · simp [hk]

theorem kind_eq_of_leftMatches {k : String} (h : LeftMatches source known (kind k) n) :
    n.kind = k :=
  (leftMatches_kind_iff.mp h).2.2

/-- What is left of rules asked for together matches where what is left of each of them does. -/
theorem leftMatches_all_iff {rules : List Rule} :
    LeftMatches source known (all rules) n ↔ ∀ rule ∈ rules, LeftMatches source known rule n := by
  have heach : ((pruneEach known rules).any fun kept => allMatch source kept n) = true ↔
      ∀ rule ∈ rules, LeftMatches source known rule n := by
    induction rules with
    | nil => simp [pruneEach, allMatch]
    | cons first rules ih =>
      rw [List.forall_mem_cons, ← ih, pruneEach, LeftMatches]
      cases prune known first with
      | none => simp
      | some r =>
        cases pruneEach known rules with
        | none => simp
        | some kept => simp [allMatch]
  rw [LeftMatches, bind_prune_all, ← heach]
  simp

theorem leftMatches_of_mem_all {rules : List Rule} {rule : Rule}
    (h : LeftMatches source known (all rules) n) (hmem : rule ∈ rules) :
    LeftMatches source known rule n :=
  leftMatches_all_iff.mp h rule hmem

/-- What is left of a negated rule matches where what is left of the rule does not. -/
theorem leftMatches_not_iff {rule : Rule} :
    LeftMatches source known (not rule) n ↔ ¬ LeftMatches source known rule n := by
  rw [LeftMatches, bind_prune_not, LeftMatches]
  simp

/-- What is left of rules of which one is asked for matches where what is left of one of them
does. -/
theorem leftMatches_any_iff {rules : List Rule} :
    LeftMatches source known (any rules) n ↔ ∃ rule ∈ rules, LeftMatches source known rule n := by
  have hsome : anyMatches source (pruneSome known rules) n = true ↔
      ∃ rule ∈ rules, LeftMatches source known rule n := by
    induction rules with
    | nil => simp [pruneSome, anyMatches]
    | cons first rules ih =>
      rw [List.exists_mem_cons_iff, ← ih, pruneSome, LeftMatches]
      cases prune known first with
      | none => simp
      | some r => simp [anyMatches]
  rw [LeftMatches, bind_prune_any, ← hsome]
  simp

/-- What is left of a rule about related nodes matches where what is left of the rule matches one of
them. -/
theorem leftMatches_related_iff {relation : Relation} {reach : Reach} {rule : Rule} :
    LeftMatches source known (related relation reach rule) n ↔
      ∃ m ∈ relation.related reach n, LeftMatches source known rule m := by
  rw [LeftMatches, bind_prune_related, List.findSome?_isSome_iff]
  rfl

theorem leftMatches_inParent_iff {rule : Rule} :
    LeftMatches source known (inParent rule) n ↔
      ∃ p, n.parent? = some p ∧ LeftMatches source known rule p := by
  rw [inParent, leftMatches_related_iff]
  simp [Relation.related]

theorem leftMatches_inAncestor_iff {rule : Rule} :
    LeftMatches source known (inAncestor rule) n ↔
      ∃ a ∈ n.ancestors, LeftMatches source known rule a :=
  leftMatches_related_iff

theorem leftMatches_hasChild_iff {rule : Rule} :
    LeftMatches source known (hasChild rule) n ↔
      ∃ c ∈ n.children, LeftMatches source known rule c :=
  leftMatches_related_iff

/-- What is left of a rule that asks for one of some kinds matches the named nodes of those of the
kinds that are known. -/
theorem leftMatches_anyKind_iff {kinds : List String} :
    LeftMatches source known (anyKind kinds) n ↔
      n.named = true ∧ n.kind ∈ kinds ∧ known n.kind = true := by
  rw [anyKind, leftMatches_any_iff]
  constructor
  · rintro ⟨rule, hrule, hmatch⟩
    obtain ⟨k, hk, rfl⟩ := List.mem_map.mp hrule
    obtain ⟨hknown, hnamed, rfl⟩ := leftMatches_kind_iff.mp hmatch
    exact ⟨hnamed, hk, hknown⟩
  · rintro ⟨hnamed, hk, hknown⟩
    exact ⟨kind n.kind, List.mem_map_of_mem hk, leftMatches_kind_iff.mpr ⟨hknown, hnamed, rfl⟩⟩

theorem kind_mem_of_leftMatches_anyKind {kinds : List String}
    (h : LeftMatches source known (anyKind kinds) n) : n.kind ∈ kinds :=
  (leftMatches_anyKind_iff.mp h).2.1

end Left

/-! ## Patterns -/

section Patterns

variable {known : String → Bool}

mutual

/-- Pruning adds no pattern that is not valid. -/
theorem patternsValid_of_prune :
    ∀ {rule kept : Rule}, patternsValid rule = true → prune known rule = some kept →
      patternsValid kept = true
  | kind k, kept, _, h => by
    rw [prune] at h
    split at h
    · cases h
      rfl
    · cases h
  | pattern written, kept, hv, h => by
    cases h
    exact hv
  | all rules, kept, hv, h => by
    rw [prune, Option.map_eq_some_iff] at h
    obtain ⟨left, hleft, rfl⟩ := h
    exact allPatternsValid_of_pruneEach hv hleft
  | any rules, kept, hv, h => by
    have hleft := allPatternsValid_pruneSome hv
    rw [prune] at h
    split at h
    · cases h
    · cases h
      exact hleft
  | not rule, kept, hv, h => by
    rw [prune] at h
    split at h
    · next left hleft =>
      cases h
      have hinner : patternsValid rule = true := hv
      have hkept := patternsValid_of_prune hinner hleft
      exact hkept
    · cases h
      show Pattern.isValid [] = true
      cbv
  | related relation reach rule, kept, hv, h => by
    rw [prune, Option.map_eq_some_iff] at h
    obtain ⟨left, hleft, rfl⟩ := h
    have hinner : patternsValid rule = true := hv
    have hkept := patternsValid_of_prune hinner hleft
    exact hkept
  | nth position, kept, _, h => by
    cases h
    rfl
  | nthOf position rule, kept, hv, h => by
    rw [prune, Option.map_eq_some_iff] at h
    obtain ⟨left, hleft, rfl⟩ := h
    have hinner : patternsValid rule = true := hv
    have hkept := patternsValid_of_prune hinner hleft
    exact hkept

theorem allPatternsValid_of_pruneEach :
    ∀ {rules kept : List Rule}, allPatternsValid rules = true → pruneEach known rules = some kept →
      allPatternsValid kept = true
  | [], kept, _, h => by
    cases h
    rfl
  | rule :: rules, kept, hv, h => by
    obtain ⟨hrule, hrules⟩ := Bool.and_eq_true_iff.mp hv
    rw [pruneEach] at h
    split at h
    · next first rest hfirst hrest =>
      cases h
      exact Bool.and_eq_true_iff.mpr
        ⟨patternsValid_of_prune hrule hfirst, allPatternsValid_of_pruneEach hrules hrest⟩
    · cases h

theorem allPatternsValid_pruneSome :
    ∀ {rules : List Rule}, allPatternsValid rules = true →
      allPatternsValid (pruneSome known rules) = true
  | [], _ => rfl
  | rule :: rules, hv => by
    obtain ⟨hrule, hrules⟩ := Bool.and_eq_true_iff.mp hv
    rw [pruneSome]
    split
    · next first hfirst =>
      exact Bool.and_eq_true_iff.mpr
        ⟨patternsValid_of_prune hrule hfirst, allPatternsValid_pruneSome hrules⟩
    · exact allPatternsValid_pruneSome hrules

end

@[simp] theorem patternsValid_anyKind (kinds : List String) :
    patternsValid (anyKind kinds) = true := by
  rw [anyKind, patternsValid]
  induction kinds with
  | nil => rfl
  | cons k kinds ih => rw [List.map_cons, allPatternsValid, ih, patternsValid, Bool.true_and]

end Patterns

/-! ## Searches -/

section Search

variable {source : Text} {t : Tree} {rule : Rule} {lang : Language} {found : List Node}

/-- A search for a rule with valid patterns does not fail. -/
theorem exists_search_eq_ok (hv : patternsValid rule = true) :
    ∃ found, search rule lang source t = .ok found := by
  rw [search, compile]
  cases hp : prune lang.knows rule with
  | none => exact ⟨_, rfl⟩
  | some kept =>
    simp only [if_pos (patternsValid_of_prune hv hp)]
    exact ⟨_, rfl⟩

/-- A search lists, in document order, the nodes that what is left of the rule matches. -/
theorem search_eq_filter (h : search rule lang source t = .ok found) :
    found = (Node.root t).walk.filter
      fun n => ((prune lang.knows rule).bind fun r => yields source r n).isSome := by
  rw [search, compile] at h
  cases hp : prune lang.knows rule with
  | none =>
    rw [hp] at h
    cases h
    simp
  | some kept =>
    simp only [hp] at h
    by_cases hv : patternsValid kept = true
    · rw [if_pos hv] at h
      cases h
      rfl
    · rw [if_neg hv] at h
      cases h

theorem mem_search_iff (h : search rule lang source t = .ok found) {n : Node} :
    n ∈ found ↔ Node.On t n ∧ LeftMatches source lang.knows rule n := by
  rw [search_eq_filter h, List.mem_filter, Node.mem_walk_root_iff, LeftMatches]

theorem leftMatches_of_mem_search (h : search rule lang source t = .ok found) {n : Node}
    (hn : n ∈ found) : LeftMatches source lang.knows rule n :=
  ((mem_search_iff h).mp hn).2

theorem on_of_mem_search (h : search rule lang source t = .ok found) {n : Node} (hn : n ∈ found) :
    Node.On t n :=
  ((mem_search_iff h).mp hn).1

/-- A search lists its finds in document order. -/
theorem sublist_walk_of_search (h : search rule lang source t = .ok found) :
    found.Sublist (Node.root t).walk := by
  rw [search_eq_filter h]
  exact List.filter_sublist

/-- A search lists no node twice. -/
theorem nodup_search (h : search rule lang source t = .ok found) : found.Nodup := by
  rw [search_eq_filter h]
  exact (Node.nodup_walk _).filter _

end Search

end Rule

end DocComments
