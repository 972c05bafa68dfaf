import DocComments.Proofs.Declaration.Partition

/-!
# Requests for several kinds

The kinds of entities that are asked for enter the rule of a language in several places, and a
grammar can leave any of these without a kind. Still a request for several kinds finds what the
requests for each of them find, and a request for exports finds nothing that the same request
without that restriction does not find (`search_rule_unites_kinds`).
-/

set_option autoImplicit false

namespace DocComments

/-- A condition on the kinds that are asked for which holds where it holds of one of them alone. -/
def SplitsByKind (P : List EntityKind → Prop) : Prop :=
  ∀ kinds, P kinds ↔ ∃ kind ∈ kinds, P [kind]

namespace SplitsByKind

section Combine

variable {P Q : List EntityKind → Prop}

theorem mem (kind : EntityKind) : SplitsByKind fun kinds => kind ∈ kinds := by
  intro kinds
  simp

theorem or (hP : SplitsByKind P) (hQ : SplitsByKind Q) :
    SplitsByKind fun kinds => P kinds ∨ Q kinds := by
  intro kinds
  show P kinds ∨ Q kinds ↔ _
  rw [hP kinds, hQ kinds, ← exists_or]
  simp only [← and_or_left]

theorem and_const (hP : SplitsByKind P) (q : Prop) : SplitsByKind fun kinds => P kinds ∧ q := by
  intro kinds
  show P kinds ∧ q ↔ _
  rw [hP kinds, ← exists_and_right]
  simp only [and_assoc]

theorem const_and (q : Prop) (hP : SplitsByKind P) : SplitsByKind fun kinds => q ∧ P kinds := by
  simpa only [and_comm] using hP.and_const q

theorem exists_mem {α : Type} {P : α → List EntityKind → Prop} (l : List α)
    (h : ∀ a, SplitsByKind (P a)) : SplitsByKind fun kinds => ∃ a ∈ l, P a kinds := by
  intro kinds
  constructor
  · rintro ⟨a, ha, hP⟩
    obtain ⟨kind, hkind, hone⟩ := (h a kinds).mp hP
    exact ⟨kind, hkind, a, ha, hone⟩
  · rintro ⟨kind, hkind, a, ha, hone⟩
    exact ⟨a, ha, (h a kinds).mpr ⟨kind, hkind, hone⟩⟩

theorem union_iff (hP : SplitsByKind P) (first second : List EntityKind) :
    P (first ∪ second) ↔ P first ∨ P second := by
  rw [hP (first ∪ second), hP first, hP second, ← exists_or]
  simp only [List.mem_union_iff, or_and_right]

theorem not_nil (hP : SplitsByKind P) : ¬ P [] := by
  intro h
  obtain ⟨kind, hkind, -⟩ := (hP []).mp h
  cases hkind

end Combine

end SplitsByKind

namespace CommentStyle

open Declaration Rule

section Target

variable {source : Text} {known : String → Bool} {n : Node}

/-- The kinds of a table that are asked for are those of each of the entities. -/
theorem splitsByKind_requested (table : KindTable) (n : Node) : SplitsByKind fun kinds =>
    LeftMatches source known (.anyKind (requested table kinds)) n := by
  intro kinds
  simp only [leftMatches_anyKind_iff, mem_requested_iff, List.mem_singleton, exists_eq_left]
  constructor
  · rintro ⟨hnamed, ⟨kind, hkind, hentry⟩, hknown⟩
    exact ⟨kind, hkind, hnamed, hentry, hknown⟩
  · rintro ⟨kind, hkind, hnamed, hentry, hknown⟩
    exact ⟨hnamed, ⟨kind, hkind, hentry⟩, hknown⟩

/-- A declaration is asked for if it is for one of the kinds. -/
theorem splitsByKind_target (style : CommentStyle) (exportsOnly : Bool) : SplitsByKind fun kinds =>
    LeftMatches source known (style.target ⟨kinds, exportsOnly⟩) n := by
  cases style with
  | block =>
    have hchild : SplitsByKind fun kinds => ∃ c ∈ n.children,
        LeftMatches source known (.anyKind (requested blockDeclarations kinds)) c :=
      SplitsByKind.exists_mem n.children (splitsByKind_requested blockDeclarations)
    simp only [target, leftMatches_blockTarget_iff, leftMatches_hasChild_iff]
    exact (((splitsByKind_requested _ n).and_const _).const_and _).or
      (((hchild.and_const _).const_and _).or ((splitsByKind_requested _ n).and_const _))
  | docstring =>
    simp only [target, leftMatches_docstringTarget_iff]
    exact ((SplitsByKind.mem _).and_const _).or
      (((SplitsByKind.mem _).and_const _).or ((SplitsByKind.mem _).and_const _))
  | slashes =>
    simp only [target, leftMatches_slashTarget_iff]
    exact (splitsByKind_requested _ n).and_const _

/-- An export is asked for without the restriction to exports, too. -/
theorem leftMatches_target_of_exportsOnly {style : CommentStyle} {kinds : List EntityKind}
    (h : LeftMatches source known (style.target ⟨kinds, true⟩) n) :
    LeftMatches source known (style.target ⟨kinds, false⟩) n := by
  cases style with
  | block =>
    rw [target, leftMatches_blockTarget_iff] at h ⊢
    rcases h with ⟨hfalse, -⟩ | hexport | ⟨hmember, hplace, -⟩
    · cases hfalse
    · exact .inr (.inl hexport)
    · exact .inr (.inr ⟨hmember, hplace, fun hfalse => absurd hfalse Bool.false_ne_true⟩)
  | docstring => exact h
  | slashes =>
    rw [target, leftMatches_slashTarget_iff] at h ⊢
    exact ⟨h.1, h.2.1, fun hfalse => absurd hfalse Bool.false_ne_true⟩

theorem leftMatches_rule_iff {style : CommentStyle} {request : Request} {withComment : Bool} :
    LeftMatches source known (style.rule request withComment) n ↔
      LeftMatches source known (style.target request) n ∧
        (LeftMatches source known style.documented n ↔ withComment = true) := by
  cases withComment with
  | true => simp [leftMatches_rule_true_iff]
  | false => simp [leftMatches_rule_false_iff]

/-- A declaration that is asked for is among the documented ones or among the others. -/
theorem exists_leftMatches_rule_iff {style : CommentStyle} {request : Request} :
    (∃ withComment, LeftMatches source known (style.rule request withComment) n) ↔
      LeftMatches source known (style.target request) n := by
  simp only [leftMatches_rule_iff, exists_and_left, and_iff_left_iff_imp]
  intro _
  by_cases hdocumented : LeftMatches source known style.documented n
  · exact ⟨true, iff_of_true hdocumented rfl⟩
  · exact ⟨false, iff_of_false hdocumented Bool.false_ne_true⟩

end Target

/-- Whatever the grammar and the tree, the search for documented declarations succeeds for every
request, and so does the search for the others. What is found for kinds from two lists is what is
found for either, without a kind nothing is found, and what is found among exports is found among
all. It matters only which kinds are asked for, each of them alone. -/
theorem search_rule_unites_kinds (style : CommentStyle) (lang : Language) (withComment : Bool)
    (source : Text) (t : Tree) :
    ∃ found : Request → List Node,
      (∀ request, (style.rule request withComment).search lang source t = .ok (found request)) ∧
      (∀ (first second : List EntityKind) exportsOnly n, n ∈ found ⟨first ∪ second, exportsOnly⟩ ↔
        n ∈ found ⟨first, exportsOnly⟩ ∨ n ∈ found ⟨second, exportsOnly⟩) ∧
      (∀ exportsOnly, found ⟨[], exportsOnly⟩ = []) ∧
      (∀ kinds, (found ⟨kinds, true⟩).Sublist (found ⟨kinds, false⟩)) ∧
      (∀ kinds exportsOnly n, n ∈ found ⟨kinds, exportsOnly⟩ ↔
        ∃ kind ∈ kinds, n ∈ found ⟨[kind], exportsOnly⟩) := by
  choose found hfound using
    fun request => exists_search_rule_eq_ok style request withComment lang source t
  have hmem : ∀ request n, n ∈ found request ↔
      LeftMatches source lang.knows (style.target request) n ∧
        Node.On t n ∧ (LeftMatches source lang.knows style.documented n ↔ withComment = true) := by
    intro request n
    rw [mem_search_iff (hfound request), leftMatches_rule_iff, and_left_comm]
  have hsplits : ∀ exportsOnly n, SplitsByKind fun kinds => n ∈ found ⟨kinds, exportsOnly⟩ := by
    intro exportsOnly n
    simp only [hmem]
    exact (splitsByKind_target style exportsOnly).and_const _
  refine ⟨found, hfound, ?_, ?_, ?_, ?_⟩
  · intro first second exportsOnly n
    exact (hsplits exportsOnly n).union_iff first second
  · intro exportsOnly
    exact List.eq_nil_iff_forall_not_mem.mpr fun n => (hsplits exportsOnly n).not_nil
  · intro kinds
    rw [search_eq_filter (hfound ⟨kinds, true⟩), search_eq_filter (hfound ⟨kinds, false⟩)]
    refine List.monotone_filter_right _ fun n hn => ?_
    obtain ⟨htarget, hdocumented⟩ := leftMatches_rule_iff.mp hn
    exact leftMatches_rule_iff.mpr ⟨leftMatches_target_of_exportsOnly htarget, hdocumented⟩
  · intro kinds exportsOnly n
    exact hsplits exportsOnly n kinds

end CommentStyle

end DocComments
