import DocComments.Pattern.Basic

/-!
# Quoting

A text becomes a pattern that matches just this text when a backslash is put in front of every
character that has a meaning of its own in patterns.
-/

set_option autoImplicit false

namespace DocComments

namespace Pattern

def specialChars : List Char :=
  ['\\', '.', '+', '*', '?', '(', ')', '|', '[', ']', '{', '}', '^', '$', '#', '&', '-', '~']

def isSpecial (c : Char) : Bool := specialChars.contains c

/-- The text as a pattern for just this text. -/
def quote : Text → Text
  | [] => []
  | c :: rest => if isSpecial c then '\\' :: c :: quote rest else c :: quote rest

/-- The pattern that matches a text only if all of it is the given text. -/
def exactly (t : Text) : Text := '^' :: quote t ++ ['$']

end Pattern

end DocComments
