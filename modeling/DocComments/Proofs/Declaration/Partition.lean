import DocComments.Proofs.Declaration.Select
import DocComments.Proofs.Rule.Kinds

/-!
# Documented declarations and the others

The rule for documented declarations and the rule for the others share the rule of the declarations
that are asked for. Each is pruned on its own, and a grammar can lack kinds that either of them asks
for; still every declaration that is asked for is found by one of the two and none by both
(`search_rules_partition_target`).
-/

set_option autoImplicit false

namespace DocComments

namespace CommentStyle

open Rule

section Halves

variable {style : CommentStyle} {source : Text} {known : String → Bool} {request : Request}
  {n : Node}

/-- The rule for documented declarations, as far as it is left, asks for both of its parts. -/
theorem leftMatches_rule_true_iff :
    LeftMatches source known (style.rule request true) n ↔
      LeftMatches source known (style.target request) n ∧
        LeftMatches source known style.documented n := by
  rw [rule, leftMatches_all_iff, List.forall_mem_cons, List.forall_mem_singleton, if_pos rfl]

/-- The rule for the other declarations asks for the first part and denies the second, whatever is
left of either. -/
theorem leftMatches_rule_false_iff :
    LeftMatches source known (style.rule request false) n ↔
      LeftMatches source known (style.target request) n ∧
        ¬ LeftMatches source known style.documented n := by
  rw [rule, leftMatches_all_iff, List.forall_mem_cons, List.forall_mem_singleton,
    if_neg Bool.false_ne_true, leftMatches_not_iff]

end Halves

/-- Whatever the grammar, the request and the tree: the searches for the declarations that are asked
for, for the documented ones and for the others succeed and list their finds in document order, and
the last two split what the first one finds. Where the kinds that the rule of the declarations asks
for are known, what it finds are the nodes that this rule matches. -/
theorem search_rules_partition_target (style : CommentStyle) (lang : Language) (request : Request)
    (source : Text) (t : Tree) :
    ∃ candidates bare documented,
      (style.target request).search lang source t = .ok candidates ∧
      (style.rule request false).search lang source t = .ok bare ∧
      (style.rule request true).search lang source t = .ok documented ∧
      (∀ n, n ∈ candidates ↔ n ∈ bare ∨ n ∈ documented) ∧
      bare.Disjoint documented ∧
      candidates.Sublist (Node.root t).walk ∧
      bare.Sublist (Node.root t).walk ∧
      documented.Sublist (Node.root t).walk ∧
      (t.AskedKindsKnown lang.knows (style.target request).kinds →
        candidates = (Node.root t).walk.filter (matchesAt source (style.target request))) := by
  obtain ⟨candidates, hcandidates⟩ : ∃ found,
      (style.target request).search lang source t = .ok found :=
    exists_search_eq_ok (patternsValid_target style request)
  obtain ⟨bare, hbare⟩ := exists_search_rule_eq_ok style request false lang source t
  obtain ⟨documented, hdocumented⟩ := exists_search_rule_eq_ok style request true lang source t
  have hbare_iff : ∀ n, n ∈ bare ↔ n ∈ candidates ∧
      ¬ LeftMatches source lang.knows style.documented n := by
    intro n
    rw [mem_search_iff hbare, mem_search_iff hcandidates, leftMatches_rule_false_iff, and_assoc]
  have hdocumented_iff : ∀ n, n ∈ documented ↔ n ∈ candidates ∧
      LeftMatches source lang.knows style.documented n := by
    intro n
    rw [mem_search_iff hdocumented, mem_search_iff hcandidates, leftMatches_rule_true_iff,
      and_assoc]
  refine ⟨candidates, bare, documented, hcandidates, hbare, hdocumented, ?_, ?_,
    sublist_walk_of_search hcandidates, sublist_walk_of_search hbare,
    sublist_walk_of_search hdocumented, search_eq_filter_matchesAt hcandidates⟩
  · intro n
    rw [hbare_iff, hdocumented_iff, ← and_or_left]
    exact (and_iff_left (em _).symm).symm
  · intro n hn hn'
    exact ((hbare_iff n).mp hn).2 ((hdocumented_iff n).mp hn').2

/-- Functions and interfaces, asked for where the grammar has no interfaces: of two functions, with
a comment between them, the two rules find both. -/
theorem search_rules_split_functions_without_interfaces :
    let source : Text := "function a() \x7b\x7d\n/** b */\nfunction b() \x7b\x7d\n".toList
    let first : Tree := .node "function_declaration" true ⟨0, 15⟩ []
    let comment : Tree := .node "comment" true ⟨16, 24⟩ []
    let second : Tree := .node "function_declaration" true ⟨25, 40⟩ []
    let t : Tree := .node "program" true ⟨0, 41⟩ [first, comment, second]
    let request : Request := ⟨[.function, .interface], false⟩
    t.AskedKindsKnown Language.javascript.knows (block.target request).kinds ∧
      ∃ bare documented, (block.rule request false).search .javascript source t = .ok bare ∧
        (block.rule request true).search .javascript source t = .ok documented ∧
        (∀ n, n ∈ bare ∨ n ∈ documented ↔
          n = .child (.root t) [] first ∨ n = .child (.root t) [comment, first] second) ∧
        bare.Disjoint documented := by
  intro source first comment second t request
  have hknown : t.AskedKindsKnown Language.javascript.knows (block.target request).kinds := by
    intro n hn _ _
    have hwalk : (Node.root t).walk = [.root t, .child (.root t) [] first,
        .child (.root t) [first] comment, .child (.root t) [comment, first] second] := rfl
    rw [hwalk] at hn
    simp only [List.mem_cons, List.not_mem_nil, or_false] at hn
    rcases hn with rfl | rfl | rfl | rfl <;> decide
  obtain ⟨candidates, bare, documented, -, hbare, hdocumented, hunion, hdisjoint, -, -, -, hall⟩ :=
    search_rules_partition_target block .javascript request source t
  refine ⟨hknown, bare, documented, hbare, hdocumented, fun n => ?_, hdisjoint⟩
  have hfound : candidates
      = [.child (.root t) [] first, .child (.root t) [comment, first] second] :=
    (hall hknown).trans rfl
  rw [← hunion, hfound, List.mem_cons, List.mem_singleton]

end CommentStyle

end DocComments
