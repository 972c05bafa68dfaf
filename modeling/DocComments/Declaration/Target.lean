import DocComments.Comment.Style
import DocComments.Entity
import DocComments.Rule.Basic

/-!
# Declarations that take documentation

For each comment style: the syntax kinds of declarations with the kind of entity that they declare,
where such declarations stand, and what it means that one of them is documented. `CommentStyle.rule`
puts these together; for the same request the rule for documented declarations and the rule for the
others share their first part and differ in the sign of the second.
-/

set_option autoImplicit false

namespace DocComments

/-- A syntax kind and the kind of entity that its nodes declare. -/
abbrev KindTable := List (String × EntityKind)

structure Request where
  kinds : List EntityKind
  exportsOnly : Bool
  deriving DecidableEq, Repr

namespace Declaration

/-- The kind of comments in every grammar. -/
def commentKind : String := "comment"

def requested (table : KindTable) (kinds : List EntityKind) : List String :=
  (table.filter fun entry => kinds.contains entry.2).map Prod.fst

/-! ## Declarations with a block in front of them -/

def blockDeclarations : KindTable :=
  [("function_declaration", .function), ("generator_function_declaration", .function),
    ("class_declaration", .classKind), ("abstract_class_declaration", .classKind),
    ("interface_declaration", .interface), ("type_alias_declaration", .typeAlias),
    ("lexical_declaration", .variableKind), ("variable_declaration", .variableKind),
    ("enum_declaration", .enumeration)]

def blockMembers : KindTable :=
  [("public_field_definition", .property), ("field_definition", .property),
    ("method_definition", .method), ("abstract_method_signature", .method)]

/-- Declarations of the top level, bare ones and exported ones, and members of classes. -/
def blockTarget (request : Request) : Rule :=
  let declarations := requested blockDeclarations request.kinds
  let members := requested blockMembers request.kinds
  let inProgram := Rule.inParent (.kind "program")
  let bare := Rule.all [.anyKind declarations, inProgram]
  let exported :=
    Rule.all [.kind "export_statement", .hasChild (.anyKind declarations), inProgram]
  let inClass := [Rule.anyKind members, .inParent (.kind "class_body")]
  if request.exportsOnly then
    .any [exported, .all (inClass ++ [.inAncestor (.kind "export_statement")])]
  else .any [bare, exported, .all inClass]

/-- A comment stands directly in front. -/
def blockDocumented : Rule := .afterSibling (.kind commentKind)

/-! ## Declarations with a docstring inside -/

/-- The node is directly inside a container, or decorated and then inside it. -/
def placedIn (container : Rule) : Rule :=
  .any [.inParent container,
    .inParent (.all [.kind "decorated_definition", .inParent container])]

def classBody : Rule := .all [.kind "block", .inParent (.kind "class_definition")]

/-- Functions of the module, functions of classes, and classes in either. Nothing marks an export
in such a language, so that part of the request has no effect. -/
def docstringTarget (request : Request) : Rule :=
  let module := Rule.kind "module"
  let function := Rule.kind "function_definition"
  .any
    ((if request.kinds.contains .function then [.all [function, placedIn module]] else []) ++
    (if request.kinds.contains .method then [.all [function, placedIn classBody]] else []) ++
    (if request.kinds.contains .classKind then
      [.all [.kind "class_definition", placedIn (.any [module, classBody])]] else []))

/-- The body begins, comments apart, with a string. -/
def docstringDocumented : Rule :=
  .hasChild (.all [.kind "block",
    .hasChild (.all [.kind "expression_statement", .nthOf 1 (.not (.kind commentKind)),
      .hasChild (.kind "string")])])

/-! ## Declarations with slashes in front of them -/

def slashDeclarations : KindTable :=
  [("namespace_declaration", .namespaceKind), ("file_scoped_namespace_declaration", .namespaceKind),
    ("delegate_declaration", .delegate), ("struct_declaration", .struct),
    ("record_declaration", .classKind), ("class_declaration", .classKind),
    ("interface_declaration", .interface), ("enum_declaration", .enumeration),
    ("field_declaration", .property), ("event_declaration", .property),
    ("event_field_declaration", .property), ("property_declaration", .property),
    ("indexer_declaration", .property), ("method_declaration", .method),
    ("constructor_declaration", .method), ("operator_declaration", .method)]

def slashContainers : List String :=
  ["compilation_unit", "declaration_list", "file_scoped_namespace_declaration"]

/-- Declarations in a container; an export is a declaration with the modifier `public`. -/
def slashTarget (request : Request) : Rule :=
  let declarations := [Rule.anyKind (requested slashDeclarations request.kinds),
    .inParent (.anyKind slashContainers)]
  if request.exportsOnly then
    .all (declarations ++ [.hasChild (.all [.kind "modifier", .text "public".toList])])
  else .all declarations

/-- A comment that begins with three slashes stands directly in front. -/
def slashDocumented : Rule :=
  .afterSibling (.all [.kind commentKind, .pattern ('^' :: SlashComment.mark)])

end Declaration

namespace CommentStyle

def target (style : CommentStyle) (request : Request) : Rule :=
  match style with
  | block => Declaration.blockTarget request
  | docstring => Declaration.docstringTarget request
  | slashes => Declaration.slashTarget request

def documented : CommentStyle → Rule
  | block => Declaration.blockDocumented
  | docstring => Declaration.docstringDocumented
  | slashes => Declaration.slashDocumented

/-- The declarations that are asked for, the documented ones or the others. -/
def rule (style : CommentStyle) (request : Request) (withComment : Bool) : Rule :=
  .all [style.target request, if withComment then style.documented else .not style.documented]

end CommentStyle

end DocComments
