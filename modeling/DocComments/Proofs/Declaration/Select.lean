import DocComments.Proofs.Declaration.Target

/-!
# What a pass selects

Whatever is asked for, the nodes that a pass treats are of the kinds of declarations
(`kind_mem_of_mem_search`). In particular none of them is a comment or a string.
-/

set_option autoImplicit false

namespace DocComments

namespace Declaration

theorem mem_kinds_of_mem_requested {table : KindTable} {kinds : List EntityKind} {k : String}
    (h : k ∈ requested table kinds) : k ∈ table.map Prod.fst := by
  obtain ⟨kind, -, hentry⟩ := mem_requested_iff.mp h
  exact List.mem_map_of_mem hentry

/-- A node that is asked for by its kind, in a table of kinds, is of a kind of the table. -/
theorem kind_mem_of_leftMatches_requested {source : Text} {known : String → Bool} {n : Node}
    {table : KindTable} {kinds : List EntityKind}
    (h : Rule.LeftMatches source known (.anyKind (requested table kinds)) n) :
    n.kind ∈ table.map Prod.fst :=
  mem_kinds_of_mem_requested (Rule.kind_mem_of_leftMatches_anyKind h)

end Declaration

namespace CommentStyle

open Declaration Rule

/-- The syntax kinds of the nodes that a pass may treat. -/
def declarationKinds : CommentStyle → List String
  | block => "export_statement" :: (blockDeclarations ++ blockMembers).map Prod.fst
  | docstring => ["function_definition", "class_definition"]
  | slashes => slashDeclarations.map Prod.fst

theorem comment_not_mem_declarationKinds (style : CommentStyle) :
    commentKind ∉ style.declarationKinds := by
  cases style <;> decide

theorem string_not_mem_declarationKinds (style : CommentStyle) :
    "string" ∉ style.declarationKinds := by
  cases style <;> decide

section Target

variable {source : Text} {known : String → Bool} {request : Request} {n : Node}

theorem kind_mem_of_blockTarget (h : LeftMatches source known (blockTarget request) n) :
    n.kind ∈ declarationKinds block := by
  simp only [declarationKinds, List.map_append, List.mem_cons, List.mem_append]
  rcases leftMatches_blockTarget_iff.mp h with ⟨-, hbare, -⟩ | ⟨hexport, -⟩ | ⟨hmember, -⟩
  · exact .inr (.inl (kind_mem_of_leftMatches_requested hbare))
  · exact .inl (kind_eq_of_leftMatches hexport)
  · exact .inr (.inr (kind_mem_of_leftMatches_requested hmember))

theorem kind_mem_of_docstringTarget (h : LeftMatches source known (docstringTarget request) n) :
    n.kind ∈ declarationKinds docstring := by
  have hkind : n.kind = "function_definition" ∨ n.kind = "class_definition" := by
    rcases leftMatches_docstringTarget_iff.mp h with ⟨-, hf, -⟩ | ⟨-, hf, -⟩ | ⟨-, hc, -⟩
    · exact .inl (kind_eq_of_leftMatches hf)
    · exact .inl (kind_eq_of_leftMatches hf)
    · exact .inr (kind_eq_of_leftMatches hc)
  rcases hkind with hkind | hkind
  · simp [declarationKinds, hkind]
  · simp [declarationKinds, hkind]

theorem kind_mem_of_slashTarget (h : LeftMatches source known (slashTarget request) n) :
    n.kind ∈ declarationKinds slashes :=
  kind_mem_of_leftMatches_requested (leftMatches_slashTarget_iff.mp h).1

end Target

theorem patternsValid_target (style : CommentStyle) (request : Request) :
    (style.target request).patternsValid = true := by
  cases style with
  | block =>
    simp only [target, blockTarget]
    split <;> simp [patternsValid, allPatternsValid, inParent, hasChild, inAncestor]
  | docstring =>
    simp only [target, docstringTarget]
    split <;> split <;> split <;>
      simp [patternsValid, allPatternsValid, placedIn, classBody, inParent]
  | slashes =>
    have hpublic : Pattern.isValid (Pattern.exactly "public".toList) = true := by
      decide +kernel
    have hmodifier : (Rule.text "public".toList).patternsValid = true := hpublic
    simp only [target, slashTarget]
    split
    · simp only [List.cons_append, List.nil_append, patternsValid, allPatternsValid,
        patternsValid_anyKind, inParent, hasChild, hmodifier, Bool.and_self]
    · simp [patternsValid, allPatternsValid, inParent]

theorem patternsValid_documented (style : CommentStyle) :
    style.documented.patternsValid = true := by
  cases style with
  | block => rfl
  | docstring => rfl
  | slashes =>
    have hmark : Pattern.isValid ('^' :: SlashComment.mark) = true := by decide +kernel
    simp [documented, slashDocumented, patternsValid, allPatternsValid, afterSibling, hmark]

/-- The rules of passes are valid, so that no pass fails for its rule. -/
theorem patternsValid_rule (style : CommentStyle) (request : Request) (withComment : Bool) :
    (style.rule request withComment).patternsValid = true := by
  have htarget := patternsValid_target style request
  have hdocumented := patternsValid_documented style
  rw [rule, patternsValid, allPatternsValid, allPatternsValid, htarget]
  cases withComment with
  | true => simp [allPatternsValid, hdocumented]
  | false => simp [allPatternsValid, patternsValid, hdocumented]

theorem exists_search_rule_eq_ok (style : CommentStyle) (request : Request) (withComment : Bool)
    (lang : Language) (source : Text) (t : Tree) :
    ∃ found, (style.rule request withComment).search lang source t = .ok found :=
  exists_search_eq_ok (patternsValid_rule style request withComment)

/-- A node that the rule of a pass selects is of a kind of declarations. -/
theorem kind_mem_of_mem_search {style : CommentStyle} {request : Request} {withComment : Bool}
    {lang : Language} {source : Text} {t : Tree} {found : List Node}
    (h : (style.rule request withComment).search lang source t = .ok found) {n : Node}
    (hn : n ∈ found) : n.kind ∈ style.declarationKinds := by
  have htarget : LeftMatches source lang.knows (style.target request) n :=
    leftMatches_of_mem_all (leftMatches_of_mem_search h hn) List.mem_cons_self
  cases style with
  | block => exact kind_mem_of_blockTarget htarget
  | docstring => exact kind_mem_of_docstringTarget htarget
  | slashes => exact kind_mem_of_slashTarget htarget

end CommentStyle

end DocComments
