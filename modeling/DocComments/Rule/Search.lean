import DocComments.Rule.Prune
import DocComments.Syntax.Language

/-!
# Search

A rule is compiled for a grammar by pruning it; its written patterns have to be valid. A search
lists the matching nodes of a tree in document order.
-/

set_option autoImplicit false

namespace DocComments

namespace Rule

mutual

def patternsValid : Rule → Bool
  | pattern written => Pattern.isValid written
  | all rules => allPatternsValid rules
  | any rules => allPatternsValid rules
  | not rule => patternsValid rule
  | related _ _ rule => patternsValid rule
  | nthOf _ rule => patternsValid rule
  | kind _ => true
  | nth _ => true

def allPatternsValid : List Rule → Bool
  | [] => true
  | rule :: rules => patternsValid rule && allPatternsValid rules

end

/-- A rule has a written pattern that is not valid. -/
structure Invalid where
  deriving DecidableEq, Repr

def Invalid.message (_ : Invalid) : String := "Invalid rule: `rule` is not configured correctly."

/-- The rule as far as it can match in a language, if it can. -/
def compile (rule : Rule) (lang : Language) : Except Invalid (Option Rule) :=
  match prune lang.knows rule with
  | none => .ok none
  | some pruned => if patternsValid pruned then .ok (some pruned) else .error {}

/-- The nodes of a tree that match a rule, in document order. -/
def search (rule : Rule) (lang : Language) (source : Text) (tree : Tree) :
    Except Invalid (List Node) := do
  match ← compile rule lang with
  | none => return []
  | some pruned => return (Node.root tree).walk.filter (matchesAt source pruned)

end Rule

namespace Node

/-- The nodes of a tree of one kind, with a name or without, in document order. -/
def ofKind (tree : Tree) (kind : String) : List Node :=
  (root tree).walk.filter fun n => n.kind == kind

end Node

end DocComments
