import DocComments.Text.Case

/-!
# Entity kinds

The categories of declarations that a run may document, and the names a user gives them. Every
kind is found by its own name (`ofExactName?_name`).
-/

set_option autoImplicit false

namespace DocComments

/-- A category of declarations. -/
inductive EntityKind where
  /-- functions and generators -/
  | function
  /-- classes, abstract classes and records -/
  | classKind
  /-- interfaces -/
  | interface
  /-- type aliases -/
  | typeAlias
  /-- variables and constants -/
  | variableKind
  /-- enumerations -/
  | enumeration
  /-- fields, properties, events and indexers -/
  | property
  /-- methods, constructors and operators -/
  | method
  /-- namespaces -/
  | namespaceKind
  /-- delegates -/
  | delegate
  /-- structs -/
  | struct
  deriving DecidableEq, Repr

namespace EntityKind

def all : List EntityKind :=
  [function, classKind, interface, typeAlias, variableKind, enumeration, property, method,
    namespaceKind, delegate, struct]

def name : EntityKind → String
  | function => "function"
  | classKind => "class"
  | interface => "interface"
  | typeAlias => "type"
  | variableKind => "variable"
  | enumeration => "enum"
  | property => "property"
  | method => "method"
  | namespaceKind => "namespace"
  | delegate => "delegate"
  | struct => "struct"

def typeAliasName : String := "type_alias"

def ofExactName? (name : String) : Option EntityKind :=
  if name = typeAliasName then some typeAlias else all.find? fun kind => kind.name == name

/-- A name that no kind goes by. -/
structure Unknown where
  given : String
  deriving DecidableEq, Repr

def Unknown.message (e : Unknown) : String :=
  "unknown entity kind '" ++ e.given ++ "' (expected one of: " ++
    ", ".intercalate (all.map name) ++ ")"

/-- The kind a user names, in any letter case and with blanks around. -/
def ofName (given : String) : Except Unknown EntityKind :=
  match ofExactName? (String.ofList (Text.toLower (Text.trim given.toList))) with
  | some kind => .ok kind
  | none => .error ⟨given⟩

/-- Each kind once, in the order in which kinds are listed. -/
def inOrder (kinds : List EntityKind) : List EntityKind := all.filter kinds.contains

theorem mem_all (kind : EntityKind) : kind ∈ all := by
  cases kind <;> decide

/-- Sorting kinds changes none of them. -/
@[simp] theorem mem_inOrder {kind : EntityKind} {kinds : List EntityKind} :
    kind ∈ inOrder kinds ↔ kind ∈ kinds := by
  simp [inOrder, mem_all]

theorem ofExactName?_name (kind : EntityKind) : ofExactName? kind.name = some kind := by
  cases kind <;> decide

end EntityKind

end DocComments
