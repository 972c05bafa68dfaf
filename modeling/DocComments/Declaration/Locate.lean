import DocComments.Declaration.Target

/-!
# Where comments stand

The nodes of the comments that document a declaration, and the node in front of which a new comment
is placed.
-/

set_option autoImplicit false

namespace DocComments

namespace Declaration

/-- The accepted comments directly in front of a node, in document order: the longest run of them
that ends at the node, cut to the nearest ones if there is a limit. -/
def precedingComments (limit : Option Nat) (accept : Node → Bool) (n : Node) : List Node :=
  let run := n.earlierSiblings.takeWhile fun s => s.kind == commentKind && accept s
  (limit.elim run run.take).reverse

/-- The comment is documentation: it begins with three slashes. -/
def isSlashComment (source : Text) (n : Node) : Bool :=
  SlashComment.mark.isPrefixOf (n.text source)

def body? (declaration : Node) : Option Node :=
  declaration.children.find? fun n => n.kind == "block"

/-- The docstring of a declaration: the string of the first statement of its body. -/
def docstring? (declaration : Node) : Option Node := do
  let body ← body? declaration
  let first ← body.children.find? fun n => n.named && n.kind != commentKind
  if first.kind == "expression_statement" then first.children.find? fun n => n.kind == "string"
  else none

/-- The body of a declaration, if it begins on a line of its own. -/
def bodyOnOwnLine? (source : Text) (declaration : Node) : Option Node := do
  let body ← body? declaration
  if declaration.range.start ≤ body.range.start then
    let offset := body.range.start - declaration.range.start
    let text := declaration.text source
    if Text.isBoundary offset text && (Text.takeBytes offset text).contains '\n' then some body
    else none
  else none

end Declaration

namespace CommentStyle

/-- The comments that document a declaration, in document order. -/
def commentNodes (style : CommentStyle) (source : Text) (declaration : Node) : List Node :=
  match style with
  | block => Declaration.precedingComments (some 1) (fun _ => true) declaration
  | docstring => (Declaration.docstring? declaration).toList
  | slashes => Declaration.precedingComments none (Declaration.isSlashComment source) declaration

/-- The node that a new comment stands in front of. -/
def insertionPoint? (style : CommentStyle) (source : Text) (declaration : Node) : Option Node :=
  match style with
  | docstring => Declaration.bodyOnOwnLine? source declaration
  | block | slashes => some declaration

end CommentStyle

end DocComments
