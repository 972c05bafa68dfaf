import DocComments.Syntax.Tree

/-!
# Labels of declarations

A matched node can be a wrapper around the declaration proper. `Labeled.ofNode` looks at the node
and its named children for the kind of declaration that comes first in a list of priorities, and
gives it the label that prompts use.
-/

set_option autoImplicit false

namespace DocComments

/-- A declaration with the word for it. -/
structure Labeled where
  node : Node
  label : String

namespace Labeled

/-- The kinds of declarations in the order in which they are looked for, with their labels. -/
def priorities : List (String × String) :=
  [("function_declaration", "function"), ("generator_function_declaration", "function"),
    ("function_definition", "function"), ("class_declaration", "class"),
    ("abstract_class_declaration", "class"), ("class_definition", "class"),
    ("record_declaration", "record"), ("struct_declaration", "struct"),
    ("interface_declaration", "interface"), ("type_alias_declaration", "type alias"),
    ("enum_declaration", "enum"), ("delegate_declaration", "delegate"),
    ("namespace_declaration", "namespace"),
    ("file_scoped_namespace_declaration", "namespace"), ("method_definition", "method"),
    ("abstract_method_signature", "method"), ("method_declaration", "method"),
    ("constructor_declaration", "constructor"), ("operator_declaration", "operator"),
    ("public_field_definition", "property"), ("field_definition", "property"),
    ("field_declaration", "property"), ("property_declaration", "property"),
    ("indexer_declaration", "indexer"), ("event_declaration", "event"),
    ("event_field_declaration", "event"), ("lexical_declaration", "variable"),
    ("variable_declaration", "variable")]

/-- The label of a node that is no declaration of a known kind. -/
def fallback : String := "declaration"

/-- What holds a definition, with the decoration between them left out. -/
def holder? (n : Node) : Option Node :=
  match n.parent? with
  | some p => if p.kind == "decorated_definition" then p.parent? else some p
  | none => none

/-- The node defines a function in the body of a class. -/
def isMethod (n : Node) : Bool :=
  n.kind == "function_definition" &&
    (holder? n).any fun body =>
      body.kind == "block" && body.parent?.any fun p => p.kind == "class_definition"

/-- The declaration of the first kind of a list that one of the candidates has. -/
def choose (candidates : List Node) : List (String × String) → Option Labeled
  | [] => none
  | (kind, label) :: more =>
    match candidates.find? fun n => n.kind == kind with
    | some n => some ⟨n, if label == "function" && isMethod n then "method" else label⟩
    | none => choose candidates more

/-- The declaration that a node is or wraps. -/
def ofNode (n : Node) : Labeled :=
  (choose (n :: n.namedChildren) priorities).getD ⟨n, fallback⟩

def display (d : Labeled) : String :=
  "Declaration \x7b kind: \"" ++ d.node.kind ++ "\", range: " ++ d.node.range.display ++
    ", label: \"" ++ d.label ++ "\" \x7d"

end Labeled

end DocComments
