import DocComments.Text.Case

/-!
# Labels of a judge

A judge answers in free text and ends with a label. The label that is mentioned last decides, in
whatever letters it is written.
-/

set_option autoImplicit false

namespace DocComments

structure Label where
  name : String
  description : String
  deriving DecidableEq, Repr

/-- The answers to one kind of question. -/
structure LabelSet where
  labels : List Label
  /-- the name of the label that lets a comment through -/
  accepting : String
  deriving DecidableEq, Repr

namespace LabelSet

def reviewNew : LabelSet :=
  ⟨[⟨"accept", "the comment is accurate and useful for this declaration"⟩,
    ⟨"reject", "the comment is wrong, misleading, or adds nothing"⟩], "accept"⟩

def reviewUpdate : LabelSet :=
  ⟨[⟨"apply", "the new comment fixes real errors or omissions in the old one"⟩,
    ⟨"nit", "the differences are cosmetic; the old comment should stay"⟩], "apply"⟩

/-- The label lets a comment through. No label never does. -/
def accepts (set : LabelSet) (label : Option String) : Bool := label == some set.accepting

/-- Of two mentions the one further back, and of two at one place the second. -/
def later (first : Option (Nat × String)) (second : Nat × String) : Option (Nat × String) :=
  match first with
  | some (place, name) => if second.1 < place then some (place, name) else some second
  | none => some second

/-- The last mention of each label in a text. -/
def mentions (set : LabelSet) (lowered : Text) : List (Nat × String) :=
  set.labels.filterMap fun l =>
    (Text.lastIndexOf? l.name.toList lowered).map fun place => (place, l.name)

/-- The label that an answer mentions last. -/
def pick (set : LabelSet) (answer : Text) : Option String :=
  ((set.mentions (Text.toLower answer)).foldl later none).map Prod.snd

def describe (l : Label) : String := "- " ++ l.name ++ ": " ++ l.description ++ "\n"

def instructions (set : LabelSet) : String :=
  "Answer with exactly one of these labels:\n" ++ String.join (set.labels.map describe) ++
    "Put the label alone on the last line."

end LabelSet

end DocComments
