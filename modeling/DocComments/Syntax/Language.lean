import DocComments.Text.Case

/-!
# Languages

The languages whose declarations are documented, the names and file extensions they go by, and
the syntax kinds that their grammars define. Each extension belongs to one language
(`ofExtension?_of_mem_extensions`).
-/

set_option autoImplicit false

namespace DocComments

inductive Language where
  /-- TypeScript -/
  | typescript
  /-- TypeScript or JavaScript with markup elements -/
  | tsx
  /-- JavaScript -/
  | javascript
  /-- Python -/
  | python
  /-- C# -/
  | csharp
  deriving DecidableEq, Repr

namespace Language

def all : List Language := [typescript, tsx, javascript, python, csharp]

/-- The name in lower case, as settings and rules write it. -/
def name : Language → String
  | typescript => "typescript"
  | tsx => "tsx"
  | javascript => "javascript"
  | python => "python"
  | csharp => "csharp"

def title : Language → String
  | typescript => "TypeScript"
  | tsx => "Tsx"
  | javascript => "JavaScript"
  | python => "Python"
  | csharp => "CSharp"

/-! ## File extensions -/

def extensions : Language → List String
  | typescript => ["ts", "mts", "cts"]
  | tsx => ["tsx", "jsx"]
  | javascript => ["js", "mjs", "cjs"]
  | python => ["py"]
  | csharp => ["cs", "csx"]

def allExtensions : List String := all.flatMap extensions

/-- The language of a file extension, which has to be in lower case. -/
def ofExtension? (extension : String) : Option Language :=
  all.find? fun lang => lang.extensions.contains extension

/-- An extension listed for a language belongs to it. -/
theorem ofExtension?_of_mem_extensions {lang : Language} {e : String}
    (h : e ∈ lang.extensions) : ofExtension? e = some lang := by
  cases lang <;> simp only [extensions, List.mem_cons, List.not_mem_nil, or_false] at h <;>
    rcases h with rfl | rfl | rfl <;> decide

/-! ## Names given by a user -/

/-- A name that no language goes by. -/
structure Unsupported where
  given : String
  deriving DecidableEq, Repr

def Unsupported.message (e : Unsupported) : String := "Unsupported language: " ++ e.given

/-- The names that a user may give a language. -/
def aliases : Language → List String
  | typescript => ["ts", "typescript"]
  | tsx => ["tsx", "jsx"]
  | javascript => ["js", "javascript"]
  | python => ["py", "python"]
  | csharp => ["cs", "csharp", "c#"]

/-- The language a user names, in any letter case. -/
def ofName (given : String) : Except Unsupported Language :=
  let wanted := String.ofList (Text.toLower given.toList)
  match all.find? fun lang => lang.aliases.contains wanted with
  | some lang => .ok lang
  | none => .error ⟨given⟩

/-! ## Syntax kinds -/

def typescriptKinds : List String := [
    "", "ERROR", "abstract_class_declaration", "abstract_method_signature", "class_body",
    "class_declaration", "comment", "decorator", "enum_declaration", "export_statement",
    "expression", "expression_statement", "formal_parameters", "function_declaration",
    "generator_function_declaration", "identifier", "interface_declaration",
    "lexical_declaration", "method_definition", "module", "number", "program",
    "property_identifier", "public_field_definition", "return_statement", "statement_block",
    "string", "type_alias_declaration", "variable_declaration"]

def javascriptKinds : List String := [
    "", "ERROR", "class_body", "class_declaration", "comment", "decorator", "export_statement",
    "expression", "expression_statement", "field_definition", "formal_parameters",
    "function_declaration", "generator_function_declaration", "identifier", "jsx_element",
    "jsx_expression", "lexical_declaration", "method_definition", "number", "program",
    "property_identifier", "return_statement", "statement_block", "string",
    "variable_declaration"]

def pythonKinds : List String := [
    "", "ERROR", "block", "class_definition", "comment", "concatenated_string",
    "decorated_definition", "decorator", "expression", "expression_statement",
    "function_definition", "identifier", "module", "parameters", "pass_statement",
    "return_statement", "string"]

def csharpKinds : List String := [
    "", "ERROR", "block", "class_declaration", "comment", "compilation_unit",
    "constructor_declaration", "declaration_list", "delegate_declaration", "enum_declaration",
    "event_declaration", "event_field_declaration", "expression", "expression_statement",
    "field_declaration", "file_scoped_namespace_declaration", "identifier",
    "indexer_declaration", "interface_declaration", "method_declaration", "modifier",
    "namespace_declaration", "operator_declaration", "parameter_list", "preproc_if",
    "property_declaration", "record_declaration", "return_statement", "struct_declaration",
    "variable_declaration"]

/-- The kinds of named nodes that a grammar defines, as far as rules ask for them. -/
def kinds : Language → List String
  | typescript => typescriptKinds
  | tsx => typescriptKinds ++ ["jsx_element", "jsx_expression"]
  | javascript => javascriptKinds
  | python => pythonKinds
  | csharp => csharpKinds

def knows (lang : Language) (kind : String) : Bool := lang.kinds.contains kind

end Language

end DocComments
