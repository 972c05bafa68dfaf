import DocComments.Proofs.Declaration.Request

/-!
# Members of exported classes

With exports only, a member of a class is asked for if an export is above it, at whatever distance.
These are the members of exported classes and, beyond them, those of classes that are nested in
something exported, such as a function (`exported_member_found_iff`).
-/

set_option autoImplicit false

namespace DocComments

namespace Declaration

open Rule

def isExport (n : Node) : Bool := n.named && n.kind == "export_statement"

/-- The class that a node is a member of: what is above the body that the node stands in. -/
def classOf? (n : Node) : Option Node :=
  n.parent?.bind fun body => if body.kind == "class_body" then body.parent? else none

/-- The node is a member of an exported class: the class stands in the export itself. -/
def inExportedClass (n : Node) : Bool :=
  (classOf? n).any fun c => c.parent?.any isExport

/-- The node is a member of a class that does not stand in an export itself, but below one. -/
def inNestedClass (n : Node) : Bool :=
  (classOf? n).any fun c => !c.parent?.any isExport && (c :: c.ancestors).any isExport

/-- A member of a class has an export above it if the class is exported or nested in an export. -/
theorem any_isExport_ancestors {n body : Node} (hbody : n.parent? = some body)
    (hkind : body.kind = "class_body") :
    n.ancestors.any isExport = (inExportedClass n || inNestedClass n) := by
  have hnone : isExport body = false := by simp [isExport, hkind]
  have hclass : classOf? n = body.parent? := by simp [classOf?, hbody, hkind]
  rw [inExportedClass, inNestedClass, hclass, Node.ancestors_of_parent? hbody, List.any_cons, hnone,
    Bool.false_or]
  cases hparent : body.parent? with
  | none =>
    cases body with
    | root => rfl
    | child => cases hparent
  | some c =>
    rw [Node.ancestors_of_parent? hparent, Option.any_some, Option.any_some]
    -- an export that the class stands in is one of those above the class
    have habove : c.parent?.any isExport = true → (c :: c.ancestors).any isExport = true := by
      intro h
      obtain ⟨e, he, hexport⟩ := (Option.any_eq_true _ _).mp h
      rw [Node.ancestors_of_parent? he]
      simp [hexport]
    cases hexported : c.parent?.any isExport with
    | true => simpa using habove hexported
    | false => simp

section Member

variable {source : Text} {known : String → Bool} {request : Request} {n : Node}

/-- What is asked of a node of a kind of members. -/
theorem leftMatches_blockTarget_member_iff (hkind : n.kind ∈ blockMembers.map Prod.fst) :
    LeftMatches source known (blockTarget request) n ↔
      LeftMatches source known (.anyKind (requested blockMembers request.kinds)) n ∧
        LeftMatches source known (.inParent (.kind "class_body")) n ∧
        (request.exportsOnly = true →
          LeftMatches source known (.inAncestor (.kind "export_statement")) n) := by
  have hapart : ∀ k ∈ blockMembers.map Prod.fst,
      k ∉ blockDeclarations.map Prod.fst ∧ k ≠ "export_statement" := by decide
  obtain ⟨hdeclaration, hexport⟩ := hapart n.kind hkind
  rw [leftMatches_blockTarget_iff]
  constructor
  · rintro (⟨-, hbare, -⟩ | ⟨hwrapper, -⟩ | hmember)
    · exact absurd (kind_mem_of_leftMatches_requested hbare) hdeclaration
    · exact absurd (kind_eq_of_leftMatches hwrapper) hexport
    · exact hmember
  · exact fun hmember => .inr (.inr hmember)

theorem leftMatches_inAncestor_export_iff (hknown : known "export_statement" = true) :
    LeftMatches source known (.inAncestor (.kind "export_statement")) n ↔
      n.ancestors.any isExport = true := by
  simp [leftMatches_inAncestor_iff, leftMatches_kind_iff, hknown, isExport]

end Member

end Declaration

open CommentStyle Declaration Rule

/-- Among the members of classes that are asked for, whatever their kinds and whether documented
ones are looked for or the others: each stands in the body of a class, and with exports only those
are found of which the class is exported or is nested, at whatever distance, in something exported;
so every member of an exported class is. -/
theorem exported_member_found_iff {lang : Language} (hstyle : lang.style = .block)
    (kinds : List EntityKind) (withComment : Bool) (source : Text) (t : Tree) :
    ∃ found all,
      (block.rule ⟨kinds, true⟩ withComment).search lang source t = .ok found ∧
      (block.rule ⟨kinds, false⟩ withComment).search lang source t = .ok all ∧
      ∀ n, n.kind ∈ blockMembers.map Prod.fst →
        (n ∈ all → ∃ body, n.parent? = some body ∧ body.kind = "class_body") ∧
        (n ∈ found ↔ n ∈ all ∧ (inExportedClass n = true ∨ inNestedClass n = true)) := by
  obtain ⟨found, hfound⟩ := exists_search_rule_eq_ok block ⟨kinds, true⟩ withComment lang source t
  obtain ⟨all, hall⟩ := exists_search_rule_eq_ok block ⟨kinds, false⟩ withComment lang source t
  have hknown : lang.knows "export_statement" = true := by
    revert hstyle
    cases lang <;> decide
  refine ⟨found, all, hfound, hall, fun n hkind => ?_⟩
  have hbody : n ∈ all → ∃ body, n.parent? = some body ∧ body.kind = "class_body" := by
    intro hn
    have htarget : LeftMatches source lang.knows (blockTarget ⟨kinds, false⟩) n :=
      (leftMatches_rule_iff.mp (leftMatches_of_mem_search hall hn)).1
    obtain ⟨-, hplace, -⟩ := (leftMatches_blockTarget_member_iff hkind).mp htarget
    obtain ⟨body, hparent, hclass⟩ := leftMatches_inParent_iff.mp hplace
    exact ⟨body, hparent, kind_eq_of_leftMatches hclass⟩
  -- with exports only, one condition more is asked for
  have hmore : n ∈ found ↔ n ∈ all ∧ n.ancestors.any isExport = true := by
    rw [mem_search_iff hfound, mem_search_iff hall, leftMatches_rule_iff, leftMatches_rule_iff,
      target, target, leftMatches_blockTarget_member_iff hkind,
      leftMatches_blockTarget_member_iff hkind, leftMatches_inAncestor_export_iff hknown]
    simp only [forall_true_left, Bool.false_eq_true, false_imp_iff, and_true]
    tauto
  refine ⟨hbody, ?_⟩
  rw [hmore]
  refine and_congr_right fun hn => ?_
  obtain ⟨body, hparent, hclass⟩ := hbody hn
  rw [any_isExport_ancestors hparent hclass, Bool.or_eq_true]

/-! ## A file with two classes -/

namespace TwoClassFile

/-- A method without parameters and statements, from a place in the source on. -/
def methodTree (start : Nat) : Tree :=
  .node "method_definition" true ⟨start, start + 6⟩
    [.node "property_identifier" true ⟨start, start + 1⟩ [],
      .node "formal_parameters" true ⟨start + 1, start + 3⟩
        [.node "(" false ⟨start + 1, start + 2⟩ [], .node ")" false ⟨start + 2, start + 3⟩ []],
      .node "statement_block" true ⟨start + 4, start + 6⟩
        [.node "\x7b" false ⟨start + 4, start + 5⟩ [],
          .node "\x7d" false ⟨start + 5, start + 6⟩ []]]

def bodyTree (start : Nat) : Tree :=
  .node "class_body" true ⟨start, start + 10⟩
    [.node "\x7b" false ⟨start, start + 1⟩ [], methodTree (start + 2),
      .node "\x7d" false ⟨start + 9, start + 10⟩ []]

def classTree (start : Nat) : Tree :=
  .node "class_declaration" true ⟨start, start + 18⟩
    [.node "class" false ⟨start, start + 5⟩ [],
      .node "type_identifier" true ⟨start + 6, start + 7⟩ [], bodyTree (start + 8)]

def method (declaration : Node) (start : Nat) : Node :=
  .child (.child declaration (declaration.tree.children.dropLast.reverse) (bodyTree (start + 8)))
    [.node "\x7b" false ⟨start + 8, start + 9⟩ []] (methodTree (start + 10))

/-- An exported class, and an exported function with a class in it. -/
def source : Text :=
  "export class A \x7b m() \x7b\x7d \x7d\n".toList ++
    "export function f() \x7b class B \x7b n() \x7b\x7d \x7d \x7d\n".toList

def classExport : Tree :=
  .node "export_statement" true ⟨0, 25⟩ [.node "export" false ⟨0, 6⟩ [], classTree 7]

def blockTree : Tree :=
  .node "statement_block" true ⟨46, 68⟩
    [.node "\x7b" false ⟨46, 47⟩ [], classTree 48, .node "\x7d" false ⟨67, 68⟩ []]

def functionTree : Tree :=
  .node "function_declaration" true ⟨33, 68⟩
    [.node "function" false ⟨33, 41⟩ [], .node "identifier" true ⟨42, 43⟩ [],
      .node "formal_parameters" true ⟨43, 45⟩
        [.node "(" false ⟨43, 44⟩ [], .node ")" false ⟨44, 45⟩ []],
      blockTree]

def functionExport : Tree :=
  .node "export_statement" true ⟨26, 68⟩ [.node "export" false ⟨26, 32⟩ [], functionTree]

def tree : Tree := .node "program" true ⟨0, 69⟩ [classExport, functionExport]

def exportedMethod : Node :=
  method (.child (.child (.root tree) [] classExport) [.node "export" false ⟨0, 6⟩ []]
    (classTree 7)) 7

def localMethod : Node :=
  method (.child (.child (.child (.child (.root tree) [classExport] functionExport)
    [.node "export" false ⟨26, 32⟩ []] functionTree) functionTree.children.dropLast.reverse
    blockTree) [.node "\x7b" false ⟨46, 47⟩ []] (classTree 48)) 48

end TwoClassFile

open TwoClassFile

/-- The method of the exported class is found with exports only. -/
theorem exported_member_found_iff_of_two_classes :
    Language.typescript.style = .block ∧
      ∃ found, (block.rule ⟨[.method], true⟩ false).search .typescript source tree = .ok found ∧
        exportedMethod ∈ found := by
  have hstyle : Language.typescript.style = .block := rfl
  obtain ⟨found, all, hfound, hall, hmembers⟩ :=
    exported_member_found_iff hstyle [.method] false source tree
  have hmethods : (block.rule ⟨[.method], false⟩ false).search .typescript source tree
      = .ok [exportedMethod, localMethod] := rfl
  obtain rfl := Except.ok.inj (hall.symm.trans hmethods)
  exact ⟨hstyle, found, hfound,
    (hmembers exportedMethod (by decide)).2.mpr ⟨List.mem_cons_self, .inl (by decide)⟩⟩

/-- So is the method of the class in the exported function, although that class is not exported. -/
theorem member_of_local_class_found :
    (block.rule ⟨[.method], true⟩ false).search .typescript source tree
        = .ok [exportedMethod, localMethod] ∧
      classOf? localMethod ≠ none ∧ inExportedClass localMethod = false ∧
      inNestedClass localMethod = true :=
  ⟨rfl, nofun, by decide, by decide⟩

end DocComments
