import DocComments.Rule.Prune
import DocComments.Json.Basic

/-!
# The written form of rules

Rules are shown as JSON objects with one field named for the question. The rule of a related node
stands in the same object as its reach.
-/

set_option autoImplicit false

namespace DocComments

namespace Rule

/-- The fields of an object with one more; what is no object becomes the only member of `all`. -/
def withField (key : String) (value : Json) : Json → Json
  | .object fields => .object (fields ++ [(key, value)])
  | other => .object [("all", .array [other]), (key, value)]

mutual

def toObject : Rule → Json
  | kind k => .object [("kind", .text k)]
  | pattern written => .object [("regex", .text (String.ofList written))]
  | all rules => .object [("all", .array (toObjects rules))]
  | any rules => .object [("any", .array (toObjects rules))]
  | not rule => .object [("not", toObject rule)]
  | related relation reach rule =>
    .object [(relation.name, withField "stopBy" (.text reach.name) (toObject rule))]
  | nth position => .object [("nthChild", .nat position)]
  | nthOf position rule =>
    .object [("nthChild", .object [("ofRule", toObject rule), ("position", .nat position)])]

def toObjects : List Rule → List Json
  | [] => []
  | rule :: rules => toObject rule :: toObjects rules

end

/-- The rule as a JSON value, whatever the grammar. -/
def toJson (rule : Rule) : Json := toObject (normal rule)

def display (rule : Rule) : String := (toJson rule).pretty

end Rule

end DocComments
