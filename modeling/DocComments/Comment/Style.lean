import DocComments.Comment.Block
import DocComments.Comment.Docstring
import DocComments.Comment.Slashes
import DocComments.Syntax.Language
import DocComments.Syntax.Snapshot

/-!
# Comment styles

How a language writes documentation comments, and the comment for a place in a file: the reply of
a model in that style, with its lines behind the first indented like the place.
-/

set_option autoImplicit false

namespace DocComments

inductive CommentStyle where
  /-- blocks in front of the declaration -/
  | block
  /-- string literals inside the declaration -/
  | docstring
  /-- lines behind three slashes in front of the declaration -/
  | slashes
  deriving DecidableEq, Repr

def Language.style : Language → CommentStyle
  | typescript | tsx | javascript => .block
  | python => .docstring
  | csharp => .slashes

namespace CommentStyle

/-- The name of a style, after the language it is best known from. -/
def name : CommentStyle → String
  | block => "typescript"
  | docstring => "python"
  | slashes => "csharp"

def fence : CommentStyle → String
  | block => "ts"
  | docstring => "python"
  | slashes => "csharp"

/-- The conventions of a style, as a model is told them. -/
def guide : CommentStyle → String
  | block =>
    "Write a TSDoc comment: a one-sentence summary, then details only if " ++
      "they help a caller. Use @param and @returns where they add information. " ++
      "Do not state TypeScript types; they are already in the signature. " ++
      "Do not describe the implementation line by line."
  | docstring =>
    "Write a PEP 257 docstring: a one-line summary ending with a period, " ++
      "then, separated by a blank line, Args, Returns and Raises sections " ++
      "where they apply. Do not include the surrounding triple quotes."
  | slashes =>
    "Write C# XML documentation: a <summary> element, plus <param>, " ++
      "<typeparam>, <returns> and <exception> elements where they apply. " ++
      "Keep the summary to one or two sentences."

def render : CommentStyle → Text → Text
  | block, raw => BlockComment.render raw
  | docstring, raw => Docstring.render raw
  | slashes, raw => SlashComment.render raw

end CommentStyle

/-! ## Comments at a place -/

/-- A comment for a place in a file. -/
structure Comment where
  /-- The comment. Its first line is not indented. -/
  text : Text
  /-- What stands in front of the place on its line. -/
  indent : Text
  deriving DecidableEq, Repr

namespace Comment

/-- A line behind the first, indented unless it is blank. -/
def indentLine (indent line : Text) : Text :=
  if Text.allBlank line then [] else indent ++ line

/-- A text with the lines behind the first indented, without blanks at the end and without blanks
in front of the first line. -/
def indentMore (indent t : Text) : Text :=
  match Text.lines (Text.trimEnd t) with
  | [] => []
  | first :: more => Text.joinLines (Text.trimStart first :: more.map (indentLine indent))

/-- The comment that a reply makes in front of an anchor. -/
def ofReply (style : CommentStyle) (raw : Text) (anchor : Snapshot) : Comment :=
  ⟨indentMore anchor.indent (style.render raw), anchor.indent⟩

/-- The comment with the line break and the indentation behind it, ready to be inserted. -/
def insertion (c : Comment) : Text := c.text ++ ['\n'] ++ c.indent

end Comment

end DocComments
