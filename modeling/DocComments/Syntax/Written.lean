import DocComments.Json.Reader
import DocComments.Syntax.Language
import DocComments.Syntax.Tree

/-!
# Written syntax trees

Trees come from parsers outside of the library, as nested JSON lists: the kind of the top, whether
it has a name in the grammar, the offsets of its first byte and of the byte behind it, and the trees
below it.
-/

set_option autoImplicit false

namespace DocComments

namespace Tree

mutual

def ofWritten? : WrittenJson → Option Tree
  | .array (.string (some kind) :: .bool named :: first :: last :: below) =>
    match first.word?, last.word?, ofWrittenList? below with
    | some first, some last, some children =>
      some (.node (String.ofList kind) named ⟨first, last⟩ children)
    | _, _, _ => none
  | _ => none

def ofWrittenList? : List WrittenJson → Option (List Tree)
  | [] => some []
  | v :: more =>
    match ofWritten? v, ofWrittenList? more with
    | some t, some ts => some (t :: ts)
    | _, _ => none

end

end Tree

structure Parse where
  language : Language
  source : Text
  tree : Tree

namespace Parse

def ofWritten? (v : WrittenJson) : Option Parse := do
  let fields ← v.record? ["language", "text", "tree"]
  match fields with
  | [some language, some source, some tree] =>
    let name ← language.text?
    let lang ← (Language.ofName (String.ofList name)).toOption
    some ⟨lang, ← source.text?, ← Tree.ofWritten? tree⟩
  | _ => none

/-- The tree of a text, as it was parsed in a language. Nothing is known about the inside of a text
that was not parsed. -/
def treeOf (parses : List Parse) (lang : Language) (source : Text) : Tree :=
  match parses.find? fun p => p.language = lang ∧ p.source = source with
  | some p => p.tree
  | none => .node "" false ⟨0, Text.byteSize source⟩ []

end Parse

end DocComments
