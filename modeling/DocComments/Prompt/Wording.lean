import DocComments.Comment.Style
import DocComments.Prompt.Basic

/-!
# The wording of prompts

What a model is asked for: a new comment, a refreshed comment, and a judgement of either.
-/

set_option autoImplicit false

namespace DocComments

structure Subject where
  /-- the whole file -/
  file : Text
  declaration : Text
  label : String
  /-- further wishes of the user -/
  instructions : Option Text
  deriving DecidableEq, Repr

namespace Prompt

/-- The reply that leaves a comment as it is. -/
def noChange : String := "NO_CHANGE"

/-- The wishes of the user, if they are not blank. -/
def wishes (instructions : Option Text) : Prompt :=
  match instructions.map Text.trim with
  | some (c :: t) => [.paragraph ("Additional instructions:\n".toList ++ c :: t)]
  | _ => []

/-- The file, which may be cut, and the declaration. -/
def content (style : CommentStyle) (subject : Subject) : Prompt :=
  [.excerpt ⟨"FILE", style.fence, subject.file⟩ .low,
    .excerpt ⟨"DECLARATION", style.fence, subject.declaration⟩ .high]

def forNew (style : CommentStyle) (subject : Subject) : Prompt :=
  content style subject ++
  [.paragraph ("Generate a documentation comment for the " ++ subject.label ++
      " in DECLARATION. Use FILE only as context.").toList,
    .paragraph style.guide.toList] ++
  wishes subject.instructions ++
  [.paragraph ("Respond with the comment text only. Do not repeat the declaration " ++
    "and do not wrap the answer in a code block.").toList]

def forUpdate (style : CommentStyle) (subject : Subject) (existing : Text) : Prompt :=
  content style subject ++
  [.excerpt ⟨"COMMENT", style.fence, existing⟩ .high,
    .paragraph ("COMMENT documents the " ++ subject.label ++ " in DECLARATION. " ++
      "Update it so it matches the code. Fix wrong or missing information only; " ++
      "keep wording that is still accurate.").toList,
    .paragraph style.guide.toList] ++
  wishes subject.instructions ++
  [.paragraph ("If COMMENT is already accurate, respond with exactly " ++ noChange ++
    ". Otherwise respond with the full updated comment only, without a code block.").toList]

def judgeNew (fence : String) (declaration comment : Text) : Prompt :=
  [.excerpt ⟨"DECLARATION", fence, declaration⟩ .low,
    .excerpt ⟨"COMMENT", fence, comment⟩ .high,
    .paragraph ("COMMENT was written to document DECLARATION. Decide whether it is " ++
      "accurate, says something a reader of the signature could not already see, and " ++
      "follows the language's documentation conventions.").toList]

def judgeUpdate (fence : String) (declaration existing comment : Text) : Prompt :=
  [.excerpt ⟨"DECLARATION", fence, declaration⟩ .low,
    .excerpt ⟨"OLD_COMMENT", fence, existing⟩ .high,
    .excerpt ⟨"NEW_COMMENT", fence, comment⟩ .high,
    .paragraph ("NEW_COMMENT is proposed to replace OLD_COMMENT on DECLARATION. Decide " ++
      "whether the change fixes something that is wrong or missing, or only rewords a " ++
      "comment that was already fine.").toList]

end Prompt

end DocComments
