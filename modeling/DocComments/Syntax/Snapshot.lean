import DocComments.Syntax.Tree

/-!
# Snapshots

A snapshot keeps what editing needs of a piece of a source: its kind, range and text, the line and
column of its start, and the blanks that stand in front of it. It owns its text, so that the tree
can be dropped.
-/

set_option autoImplicit false

namespace DocComments

/-- A piece of a source with its position. Lines count from one, columns in characters from
zero. -/
structure Snapshot where
  kind : String
  range : ByteRange
  line : Nat
  column : Nat
  /-- The text in front of the piece on its line if that is blank, else as many spaces. -/
  indent : Text
  text : Text
  deriving DecidableEq, Repr

namespace Snapshot

/-- A range moved into a text of `size` bytes: both ends at most at the end, the end not in front
of the start. -/
def clamp (r : ByteRange) (size : Nat) : ByteRange :=
  let start := min r.start size
  ⟨start, max start (min r.stop size)⟩

/-- The snapshot of a range of a source. The range is moved into the source first. -/
def ofRange (source : Text) (kind : String) (r : ByteRange) : Snapshot :=
  let r := clamp r (Text.byteSize source)
  let before := Text.takeBytes r.start source
  let lead := Text.lastLine before
  { kind := kind
    range := r
    line := Text.lineBreaks before + 1
    column := lead.length
    indent := if Text.allBlank lead then lead else List.replicate lead.length ' '
    text := r.slice source }

/-- The snapshot of a range of a source, unless an end of it lies inside a character. -/
def ofRange? (source : Text) (kind : String) (r : ByteRange) : Option Snapshot :=
  if (clamp r (Text.byteSize source)).fits source then some (ofRange source kind r) else none

def ofNode (source : Text) (n : Node) : Snapshot := ofRange source n.kind n.range

def size (s : Snapshot) : Nat := s.range.stop - s.range.start

def isEmpty (s : Snapshot) : Bool := s.range.start == s.range.stop

/-- The indent is blank whatever stands in front of the piece. -/
theorem allBlank_indent (source : Text) (kind : String) (r : ByteRange) :
    Text.allBlank (ofRange source kind r).indent = true := by
  simp only [ofRange]
  split
  · assumption
  · simp [Text.allBlank, show Text.isBlank ' ' = true by decide]

end Snapshot

end DocComments
