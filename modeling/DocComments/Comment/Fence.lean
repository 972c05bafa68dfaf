import DocComments.Text.Basic

/-!
# Code fences

Replies often come wrapped in a fenced code block. `Fence.strip` takes the blanks around a reply
and one such block off: a line that begins with three backticks, the body, and three backticks at
the end.
-/

set_option autoImplicit false

namespace DocComments

namespace Fence

def mark : Text := List.replicate 3 '\x60'

/-- The body of a text that is one fenced block. The line break in front of the closing fence is
not part of the body. -/
def body? (t : Text) : Option Text := do
  let header ← mark.isPrefixOf? t
  match header.dropWhile (· != '\n') with
  | _ :: inside => ('\n' :: mark).isSuffixOf? inside <|> mark.isSuffixOf? inside
  | [] => none

/-- The text without the blanks and without the fenced block around it. -/
def strip (raw : Text) : Text :=
  match body? (Text.trim raw) with
  | some body => Text.trim body
  | none => Text.trim raw

end Fence

end DocComments
