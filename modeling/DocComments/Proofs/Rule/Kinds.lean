import DocComments.Proofs.Rule.Search

/-!
# The kinds that a rule asks for

Pruning reads of a grammar only whether it defines the kinds that the rule asks for
(`prune_congr`). A grammar that lists no other kinds is therefore as good as the whole of it: where
the nodes of a tree that are of a kind asked for are of a known kind (`Tree.AskedKindsKnown`), what
is left of the rule yields what the rule yields (`bind_prune_yields_of_asked`), and a search lists
what the rule itself matches (`search_eq_filter_matchesAt`). If every kind that the rule asks for is
known, that is so on every tree.
-/

set_option autoImplicit false

namespace DocComments

namespace Rule

mutual

def kinds : Rule → List String
  | kind k => [k]
  | pattern _ => []
  | all rules => kindsOfEach rules
  | any rules => kindsOfEach rules
  | not rule => kinds rule
  | related _ _ rule => kinds rule
  | nth _ => []
  | nthOf _ rule => kinds rule

def kindsOfEach : List Rule → List String
  | [] => []
  | rule :: rules => kinds rule ++ kindsOfEach rules

end

section Congr

variable {known known' : String → Bool}

mutual

/-- What is left of a rule depends on the kinds that it asks for only. -/
theorem prune_congr :
    ∀ {rule : Rule}, (∀ k ∈ rule.kinds, known k = known' k) → prune known rule = prune known' rule
  | kind k, h => by
    have hk : known k = known' k := h k (List.mem_singleton_self k)
    rw [prune, prune, hk]
  | pattern _, _ => rfl
  | all rules, h => by rw [prune, prune, pruneEach_congr h]
  | any rules, h => by rw [prune, prune, pruneSome_congr h]
  | not rule, h => by
    have hrule : prune known rule = prune known' rule := prune_congr h
    rw [prune, prune, hrule]
  | related relation reach rule, h => by
    have hrule : prune known rule = prune known' rule := prune_congr h
    rw [prune, prune, hrule]
  | nth _, _ => rfl
  | nthOf position rule, h => by
    have hrule : prune known rule = prune known' rule := prune_congr h
    rw [prune, prune, hrule]

theorem pruneEach_congr :
    ∀ {rules : List Rule}, (∀ k ∈ kindsOfEach rules, known k = known' k) →
      pruneEach known rules = pruneEach known' rules
  | [], _ => rfl
  | rule :: rules, h => by
    rw [kindsOfEach] at h
    have hfirst := prune_congr fun k hk => h k (List.mem_append_left _ hk)
    have hrest := pruneEach_congr fun k hk => h k (List.mem_append_right _ hk)
    rw [pruneEach, pruneEach, hfirst, hrest]

theorem pruneSome_congr :
    ∀ {rules : List Rule}, (∀ k ∈ kindsOfEach rules, known k = known' k) →
      pruneSome known rules = pruneSome known' rules
  | [], _ => rfl
  | rule :: rules, h => by
    rw [kindsOfEach] at h
    have hfirst := prune_congr fun k hk => h k (List.mem_append_left _ hk)
    have hrest := pruneSome_congr fun k hk => h k (List.mem_append_right _ hk)
    rw [pruneSome, pruneSome, hfirst, hrest]

end

end Congr

end Rule

/-- The named nodes of the tree that are of a kind asked for are of a known kind. -/
def Tree.AskedKindsKnown (t : Tree) (known : String → Bool) (asked : List String) : Prop :=
  ∀ n ∈ (Node.root t).walk, n.named = true → n.kind ∈ asked → known n.kind = true

/-- Where everything asked for is known, it is on every tree. -/
theorem Tree.askedKindsKnown_of_forall {known : String → Bool} {asked : List String}
    (h : ∀ k ∈ asked, known k = true) (t : Tree) : t.AskedKindsKnown known asked :=
  fun n _ _ hasked => h n.kind hasked

namespace Rule

section Asked

variable {source : Text} {known : String → Bool} {t : Tree} {rule : Rule}

/-- Pruning keeps what a rule yields on the nodes of a tree where the kinds that the rule asks for
are known. -/
theorem bind_prune_yields_of_asked (ht : t.AskedKindsKnown known rule.kinds) {n : Node}
    (hn : Node.On t n) :
    ((prune known rule).bind fun r => yields source r n) = yields source rule n := by
  -- as far as the rule can tell, every kind that it does not ask for is known
  let known' : String → Bool := fun k => known k || !rule.kinds.contains k
  have hsame : prune known rule = prune known' rule := by
    refine prune_congr fun k hk => ?_
    simp [known', hk]
  have hknown : t.KindsKnown known' := by
    intro m hm hnamed
    by_cases hasked : m.kind ∈ rule.kinds
    · simp [known', ht m hm hnamed hasked]
    · simp [known', hasked]
  rw [hsame, bind_prune_yields hknown rule hn]

theorem leftMatches_iff_matchesAt (ht : t.AskedKindsKnown known rule.kinds) {n : Node}
    (hn : Node.On t n) : LeftMatches source known rule n ↔ matchesAt source rule n = true := by
  rw [LeftMatches, bind_prune_yields_of_asked ht hn, matchesAt]

/-- A search lists the nodes that the rule itself matches if the kinds that it asks for are
known. -/
theorem search_eq_filter_matchesAt {lang : Language} {found : List Node}
    (h : search rule lang source t = .ok found) (ht : t.AskedKindsKnown lang.knows rule.kinds) :
    found = (Node.root t).walk.filter (matchesAt source rule) := by
  rw [search_eq_filter h]
  refine List.filter_congr fun n hn => ?_
  rw [bind_prune_yields_of_asked ht (Node.mem_walk_root_iff.mp hn), matchesAt]

end Asked

end Rule

end DocComments
