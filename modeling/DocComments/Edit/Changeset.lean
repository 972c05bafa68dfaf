import DocComments.Text.Offset

/-!
# Changesets

Edits of a text are collected first and carried out together. A changeset takes an edit only if
it collides with none that is staged already: `replace` takes one edit, `stage` takes a batch as a
whole or not at all.
-/

set_option autoImplicit false

namespace DocComments

/-- The replacement of a range of a text. An empty range inserts, an empty replacement deletes. -/
structure Edit where
  range : ByteRange
  replacement : Text
  deriving DecidableEq, Repr

namespace ByteRange

/-- Two ranges share a byte or begin at the same place. -/
def collides (a b : ByteRange) : Bool :=
  (a.start < b.stop && b.start < a.stop) || a.start == b.start

theorem collides_comm (a b : ByteRange) : a.collides b = b.collides a := by
  simp only [collides]
  rw [Bool.and_comm, Bool.beq_comm (a := a.start)]

end ByteRange

inductive EditError where
  /-- the second range collides with the first, which is staged -/
  | overlap (first second : ByteRange)
  /-- the range is reversed, leaves the text or cuts a character -/
  | outOfBounds (range : ByteRange) (size : Nat)
  deriving DecidableEq, Repr

def EditError.message : EditError → String
  | overlap first second => "Overlapping edits: " ++ first.display ++ " and " ++ second.display
  | outOfBounds range size =>
    "Edit range " ++ range.display ++ " is invalid for a source of " ++ toString size ++ " bytes"

/-- Edits that wait to be carried out, in the order in which they were staged. -/
structure Changeset where
  edits : List Edit
  deriving DecidableEq, Repr

namespace Changeset

def empty : Changeset := ⟨[]⟩

def size (c : Changeset) : Nat := c.edits.length

def isEmpty (c : Changeset) : Bool := c.edits.isEmpty

/-- The error of an edit that collides with one of the staged edits, the first of them. -/
def collision? (staged : List Edit) (e : Edit) : Option EditError :=
  (staged.find? fun s => s.range.collides e.range).map fun s => .overlap s.range e.range

def replace (c : Changeset) (e : Edit) : Except EditError Changeset :=
  match collision? c.edits e with
  | some error => .error error
  | none => .ok ⟨c.edits ++ [e]⟩

def insert (c : Changeset) (position : Nat) (text : Text) : Except EditError Changeset :=
  c.replace ⟨⟨position, position⟩, text⟩

def clear (c : Changeset) (range : ByteRange) : Except EditError Changeset := c.replace ⟨range, []⟩

/-- The error of the first edit of a batch that collides with a staged edit or with an earlier one
of the batch. -/
def batchCollision? (staged batch : List Edit) : Option EditError :=
  batch.zipIdx.findSome? fun (e, i) => collision? (staged ++ batch.take i) e

/-- Stages all edits of a batch, or none of them. -/
def stage (c : Changeset) (batch : List Edit) : Except EditError Changeset :=
  match batchCollision? c.edits batch with
  | some error => .error error
  | none => .ok ⟨c.edits ++ batch⟩

theorem collision?_eq_none_iff {staged : List Edit} {e : Edit} :
    collision? staged e = none ↔ ∀ s ∈ staged, s.range.collides e.range = false := by
  simp [collision?]

end Changeset

end DocComments
