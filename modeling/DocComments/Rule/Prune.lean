import DocComments.Rule.Basic

/-!
# Pruning

A grammar produces only the kinds it defines. `Rule.prune` drops the parts of a rule that ask for
any other kind: such a part never matches, and a rule that needs it never matches either.
-/

set_option autoImplicit false

namespace DocComments

namespace Rule

mutual

/-- The rule without the parts that ask for unknown kinds; nothing if it can never match. -/
def prune (known : String → Bool) : Rule → Option Rule
  | kind k => if known k then some (kind k) else none
  | pattern written => some (pattern written)
  | all rules => (pruneEach known rules).map all
  | any rules =>
    match pruneSome known rules with
    | [] => none
    | kept => some (any kept)
  | not rule =>
    match prune known rule with
    | some rule => some (not rule)
    | none => some always
  | related relation reach rule => (prune known rule).map (related relation reach)
  | nth position => some (nth position)
  | nthOf position rule => (prune known rule).map (nthOf position)

/-- Every rule of a list pruned; nothing if one of them can never match. -/
def pruneEach (known : String → Bool) : List Rule → Option (List Rule)
  | [] => some []
  | rule :: rules =>
    match prune known rule, pruneEach known rules with
    | some rule, some rules => some (rule :: rules)
    | _, _ => none

def pruneSome (known : String → Bool) : List Rule → List Rule
  | [] => []
  | rule :: rules =>
    match prune known rule with
    | some rule => rule :: pruneSome known rules
    | none => pruneSome known rules

end

/-- The rule in a form that needs no grammar: nothing is unknown, and a rule that can never match
becomes `never`. -/
def normal (rule : Rule) : Rule := (prune (fun _ => true) rule).getD never

end Rule

end DocComments
