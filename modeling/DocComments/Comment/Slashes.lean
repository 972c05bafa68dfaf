import DocComments.Comment.Fence

/-!
# Slash comments

Comments of which every line begins with three slashes.
-/

set_option autoImplicit false

namespace DocComments

namespace SlashComment

def mark : Text := ['/', '/', '/']

/-- A line as a comment line. A line that is one already only loses the blanks around it. -/
def commentLine (line : Text) : Text :=
  match Text.trim line with
  | [] => mark
  | trimmed =>
    if mark.isPrefixOf trimmed then trimmed else mark ++ [' '] ++ Text.trimEnd line

def render (raw : Text) : Text :=
  Text.joinLines ((Text.lines (Fence.strip raw)).map commentLine)

end SlashComment

end DocComments
