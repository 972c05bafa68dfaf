import DocComments.Declaration.Target
import DocComments.Proofs.Rule.Search

/-!
# What is asked of a declaration

The rules of the declarations that are asked for, taken apart as far as they are left in a grammar:
which syntax kinds the request leads to, where the node stands, and what an export adds to that.
-/

set_option autoImplicit false

namespace DocComments

namespace Declaration

open Rule

theorem mem_requested_iff {table : KindTable} {kinds : List EntityKind} {k : String} :
    k ∈ requested table kinds ↔ ∃ kind ∈ kinds, (k, kind) ∈ table := by
  simp [requested, and_comm]

section Target

variable {source : Text} {known : String → Bool} {request : Request} {n : Node}

/-- A declaration of the top level stands there alone or in an export; with exports only, the first
is left out and a member has to stand below an export. -/
theorem leftMatches_blockTarget_iff :
    LeftMatches source known (blockTarget request) n ↔
      (request.exportsOnly = false ∧
        LeftMatches source known (.anyKind (requested blockDeclarations request.kinds)) n ∧
        LeftMatches source known (.inParent (.kind "program")) n) ∨
      (LeftMatches source known (.kind "export_statement") n ∧
        LeftMatches source known
          (.hasChild (.anyKind (requested blockDeclarations request.kinds))) n ∧
        LeftMatches source known (.inParent (.kind "program")) n) ∨
      (LeftMatches source known (.anyKind (requested blockMembers request.kinds)) n ∧
        LeftMatches source known (.inParent (.kind "class_body")) n ∧
        (request.exportsOnly = true →
          LeftMatches source known (.inAncestor (.kind "export_statement")) n)) := by
  rw [blockTarget]
  cases hexports : request.exportsOnly with
  | true => simp [leftMatches_any_iff, leftMatches_all_iff]
  | false => simp [leftMatches_any_iff, leftMatches_all_iff]

/-- Each kind of definition is asked for with the places that it may stand in. -/
theorem leftMatches_docstringTarget_iff :
    LeftMatches source known (docstringTarget request) n ↔
      (.function ∈ request.kinds ∧ LeftMatches source known (.kind "function_definition") n ∧
        LeftMatches source known (placedIn (.kind "module")) n) ∨
      (.method ∈ request.kinds ∧ LeftMatches source known (.kind "function_definition") n ∧
        LeftMatches source known (placedIn classBody) n) ∨
      (.classKind ∈ request.kinds ∧ LeftMatches source known (.kind "class_definition") n ∧
        LeftMatches source known (placedIn (.any [.kind "module", classBody])) n) := by
  -- a part of the rule is there if its kind of entity is asked for
  have hpart : ∀ (kind : EntityKind) (rule r : Rule),
      r ∈ (if request.kinds.contains kind then [rule] else []) ↔
        kind ∈ request.kinds ∧ r = rule := by
    intro kind rule r
    by_cases h : kind ∈ request.kinds <;> simp [h]
  simp only [docstringTarget, leftMatches_any_iff, List.mem_append, hpart]
  simp [or_assoc, or_and_right, exists_or, and_assoc, leftMatches_all_iff]

/-- A declaration with slashes stands in a container; with exports only it has to be public. -/
theorem leftMatches_slashTarget_iff :
    LeftMatches source known (slashTarget request) n ↔
      LeftMatches source known (.anyKind (requested slashDeclarations request.kinds)) n ∧
        LeftMatches source known (.inParent (.anyKind slashContainers)) n ∧
        (request.exportsOnly = true → LeftMatches source known
          (.hasChild (.all [.kind "modifier", .text "public".toList])) n) := by
  rw [slashTarget]
  cases hexports : request.exportsOnly with
  | true => simp [leftMatches_all_iff]
  | false => simp [leftMatches_all_iff]

end Target

end Declaration

end DocComments
