import DocComments.Rule.Written
import DocComments.Proofs.Rule.Prune

/-!
# What the written form of rules says

The written form leaves nothing of a rule out (`toObject_injective`), so that a JSON value is the
written form of one rule at most. The value shown for a rule is the written form of a rule that
yields the same; together with what pruning preserves this is `prune_and_toJson_yield_the_same`.
-/

set_option autoImplicit false

namespace DocComments

theorem Relation.name_injective {a b : Relation} (h : a.name = b.name) : a = b := by
  cases a <;> cases b <;> first | rfl | exact absurd h (by decide)

theorem Reach.name_injective {a b : Reach} (h : a.name = b.name) : a = b := by
  cases a <;> cases b <;> first | rfl | exact absurd h (by decide)

namespace Rule

/-- The object of a rule has one field. -/
theorem exists_toObject_eq (rule : Rule) : ∃ key value, toObject rule = .object [(key, value)] := by
  cases rule <;> exact ⟨_, _, by rw [toObject]⟩

/-- The fields of the rule and its reach can be told apart. -/
theorem withField_toObject_inj {rule rule' : Rule} {key : String} {value value' : Json}
    (h : withField key value (toObject rule) = withField key value' (toObject rule')) :
    toObject rule = toObject rule' ∧ value = value' := by
  obtain ⟨k, v, hr⟩ := exists_toObject_eq rule
  obtain ⟨k', v', hr'⟩ := exists_toObject_eq rule'
  rw [hr, hr'] at h ⊢
  simp only [withField, List.cons_append, List.nil_append, Json.object.injEq, List.cons.injEq,
    Prod.mk.injEq, and_true, true_and] at h ⊢
  exact h

mutual

/-- The object of a rule determines the rule. -/
theorem toObject_injective : ∀ {rule rule' : Rule}, toObject rule = toObject rule' → rule = rule'
  | kind k, rule', h => by
    cases rule' with
    | related relation => cases relation <;> simp [toObject, Relation.name] at h
    | _ => simp_all [toObject]
  | pattern written, rule', h => by
    cases rule' with
    | related relation => cases relation <;> simp [toObject, Relation.name] at h
    | _ => simp_all [toObject, String.ofList_inj]
  | all rules, rule', h => by
    cases rule' with
    | all rules' =>
      simp only [toObject, Json.object.injEq, List.cons.injEq, Prod.mk.injEq, Json.array.injEq,
        and_true, true_and] at h
      rw [toObjects_injective h]
    | related relation => cases relation <;> simp [toObject, Relation.name] at h
    | _ => simp [toObject] at h
  | any rules, rule', h => by
    cases rule' with
    | any rules' =>
      simp only [toObject, Json.object.injEq, List.cons.injEq, Prod.mk.injEq, Json.array.injEq,
        and_true, true_and] at h
      rw [toObjects_injective h]
    | related relation => cases relation <;> simp [toObject, Relation.name] at h
    | _ => simp [toObject] at h
  | not rule, rule', h => by
    cases rule' with
    | not inner =>
      simp only [toObject, Json.object.injEq, List.cons.injEq, Prod.mk.injEq, and_true,
        true_and] at h
      rw [toObject_injective h]
    | related relation => cases relation <;> simp [toObject, Relation.name] at h
    | _ => simp [toObject] at h
  | related relation reach rule, rule', h => by
    cases rule' with
    | related relation' reach' inner =>
      simp only [toObject, Json.object.injEq, List.cons.injEq, Prod.mk.injEq, and_true] at h
      obtain ⟨hname, hfields⟩ := h
      obtain ⟨hrule, hreach⟩ := withField_toObject_inj hfields
      rw [Relation.name_injective hname, Reach.name_injective (Json.text.inj hreach),
        toObject_injective hrule]
    | _ => cases relation <;> simp [toObject, Relation.name] at h
  | nth position, rule', h => by
    cases rule' with
    | related relation => cases relation <;> simp [toObject, Relation.name] at h
    | _ => simp_all [toObject]
  | nthOf position rule, rule', h => by
    cases rule' with
    | nthOf position' inner =>
      simp only [toObject, Json.object.injEq, List.cons.injEq, Prod.mk.injEq, Json.nat.injEq,
        and_true, true_and] at h
      rw [toObject_injective h.1, h.2]
    | related relation => cases relation <;> simp [toObject, Relation.name] at h
    | _ => simp [toObject] at h

/-- The objects of rules determine the rules. -/
theorem toObjects_injective :
    ∀ {rules rules' : List Rule}, toObjects rules = toObjects rules' → rules = rules'
  | [], rules', h => by
    cases rules' with
    | nil => rfl
    | cons r rs => simp [toObjects] at h
  | rule :: rules, rules', h => by
    cases rules' with
    | nil => simp [toObjects] at h
    | cons rule' rest =>
      simp only [toObjects, List.cons.injEq] at h
      rw [toObject_injective h.1, toObjects_injective h.2]

end

/-! ## The value shown for a rule -/

/-- Nothing is left of the rule whatever the kinds: it is shown as the rule that never matches. -/
theorem toJson_of_prune_eq_none {rule : Rule} (h : prune (fun _ => true) rule = none) :
    toJson rule = .object [("not", .object [("regex", .text "")])] := by
  rw [toJson, normal, h, Option.getD_none]
  rfl

theorem yields_of_toObject_eq_toJson {source : Text} {t : Tree} {shown rule : Rule}
    (h : toObject shown = toJson rule) {n : Node} (hn : Node.On t n) :
    yields source shown n = yields source rule n := by
  rw [toObject_injective h, yields_normal rule hn]

/-- On a tree whose named nodes are of known kinds, the pruned rule yields at every node what the
rule yields, and if nothing is left of the rule, the rule yields nothing at any node. The value
shown for a rule is the written form of a rule, and of one only that yields the same at every node
of every tree; it is the written form of `never` if nothing is left of the rule. -/
theorem prune_and_toJson_yield_the_same (rule : Rule) :
    (∀ (known : String → Bool) (source : Text) (t : Tree), t.KindsKnown known →
      (∀ kept, prune known rule = some kept →
        ∀ n ∈ (Node.root t).walk, yields source kept n = yields source rule n) ∧
      (prune known rule = none → ∀ n ∈ (Node.root t).walk, yields source rule n = none)) ∧
    (∃ shown, toObject shown = toJson rule) ∧
    (∀ shown, toObject shown = toJson rule → ∀ (source : Text) (t : Tree),
      ∀ n ∈ (Node.root t).walk, yields source shown n = yields source rule n) ∧
    (prune (fun _ => true) rule = none →
      toJson rule = .object [("not", .object [("regex", .text "")])]) := by
  refine ⟨fun known source t ht => ⟨fun kept h n hn => ?_, fun h n hn => ?_⟩,
    ⟨normal rule, rfl⟩, fun shown h source t n hn => ?_, toJson_of_prune_eq_none⟩
  · exact yields_of_prune_eq_some ht h (Node.mem_walk_root_iff.mp hn)
  · exact yields_of_prune_eq_none ht h (Node.mem_walk_root_iff.mp hn)
  · exact yields_of_toObject_eq_toJson h (Node.mem_walk_root_iff.mp hn)

/-- A class that is no interface, asked for where interfaces are unknown: the pruned rule yields
the class as the rule does, and nothing is left of a class inside of an interface. -/
theorem prune_yields_the_same_where_interfaces_are_unknown :
    let known : String → Bool := fun k => k != "interface"
    let t : Tree := .node "class" true ⟨0, 7⟩ [.node "\x7b" false ⟨6, 7⟩ []]
    t.KindsKnown known ∧
      (∀ n ∈ (Node.root t).walk, yields [] (all [kind "class", always]) n
        = yields [] (all [kind "class", not (kind "interface")]) n) ∧
      (∀ n ∈ (Node.root t).walk,
        yields [] (all [kind "class", inParent (kind "interface")]) n = none) ∧
      yields [] (all [kind "class", not (kind "interface")]) (.root t) = some (.root t) := by
  have hknown : Tree.KindsKnown (.node "class" true ⟨0, 7⟩ [.node "\x7b" false ⟨6, 7⟩ []])
      fun k => k != "interface" := by
    intro n hn _
    simp only [Node.walk, Node.descendants, Node.tree, Tree.children, Node.walkForest,
      Node.walkTree, List.append_nil, List.mem_cons, List.not_mem_nil, or_false] at hn
    rcases hn with rfl | rfl <;> rfl
  refine ⟨hknown, ?_, ?_, ?_⟩
  · exact ((prune_and_toJson_yield_the_same _).1 _ _ _ hknown).1 _ (by simp [prune, pruneEach])
  · exact ((prune_and_toJson_yield_the_same _).1 _ _ _ hknown).2
      (by simp [prune, pruneEach, inParent])
  · simp [yields, allMatch, Node.named, Node.kind, Node.tree, Tree.named, Tree.kind]

end Rule

end DocComments
