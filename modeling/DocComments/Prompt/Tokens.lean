import DocComments.Text.Offset

/-!
# Tokens

A tokenizer cuts the UTF-8 form of a text into tokens. Only their sizes matter: they say how many
tokens a text has and where it is cut to have fewer.
-/

set_option autoImplicit false

namespace DocComments

/-- The sizes in bytes of the tokens of each text, in order. -/
structure Tokenizer where
  sizes : Text → List Nat

namespace Tokenizer

def count (tk : Tokenizer) (t : Text) : Nat := (tk.sizes t).length

/-- How many characters stand for a token where a cut between tokens is not possible. -/
def charsPerToken : Nat := 4

/-- A text in groups of as many characters as stand for a token; the last one may be smaller. -/
def groups : Text → List Text
  | [] => []
  | c :: rest =>
    (c :: rest.take (charsPerToken - 1)) :: groups (rest.drop (charsPerToken - 1))
termination_by t => t.length
decreasing_by
  rw [List.length_drop, List.length_cons]
  omega

/-- A tokenizer without a vocabulary, which takes every group of characters for a token. -/
def estimate : Tokenizer := ⟨fun t => (groups t).map Text.byteSize⟩

/-- The first `limit` tokens of a text. If they end inside a character, it is an estimated number
of characters instead. -/
def truncate (tk : Tokenizer) (limit : Nat) (t : Text) : Text :=
  let sizes := tk.sizes t
  if sizes.length ≤ limit then t
  else
    let size := (sizes.take limit).foldr (· + ·) 0
    if Text.isBoundary size t then Text.takeBytes size t else t.take (charsPerToken * limit)

/-- A text within the limit is kept whole. -/
theorem truncate_of_count_le {tk : Tokenizer} {limit : Nat} {t : Text} (h : tk.count t ≤ limit) :
    tk.truncate limit t = t := by
  simp only [count] at h
  simp [truncate, h]

end Tokenizer

end DocComments
