import DocComments.Diff.Block
import Std.Data.HashMap

/-!
# Edit scripts

A short list of blocks that turns one list of lines into another, by divide and conquer: equal
lines at both ends are set aside, and the rest is split where the furthest paths from the two
corners of the edit grid meet.
-/

set_option autoImplicit false

namespace DocComments

namespace Diff

/-- A window into the old and the new lines, the ends excluded. -/
structure Window where
  oldStart : Nat
  oldStop : Nat
  newStart : Nat
  newStop : Nat
  deriving DecidableEq, Repr

namespace Window

def oldSize (w : Window) : Nat := w.oldStop - w.oldStart

def newSize (w : Window) : Nat := w.newStop - w.newStart

end Window

/-! ## The meeting point -/

/-- How far a path has come on each diagonal; a diagonal that no path has reached counts as the
start. -/
abbrev Frontier := Std.HashMap Int Nat

/-- The diagonals that a path of `d` edits can end on, the highest first. -/
def diagonals (d : Nat) : List Int :=
  (List.range (d + 1)).map fun i => Int.ofNat d - 2 * Int.ofNat i

/-- How far a path of `d` edits comes on a diagonal before it follows equal lines: one step from
the better of the two neighbouring diagonals. -/
def Frontier.step (f : Frontier) (d : Nat) (k : Int) : Nat :=
  let below := f.getD (k - 1) 0
  let above := f.getD (k + 1) 0
  if k == -Int.ofNat d || (k != Int.ofNat d && below < above) then above else below + 1

/-- Extends the paths from the front by one edit on the given diagonals, until one of them meets a
path from the back. -/
def forward (old new : Array Text) (w : Window) (d : Nat) (back : Frontier) :
    List Int → Frontier → Sum (Nat × Nat) Frontier
  | [], front => .inr front
  | k :: ks, front =>
    let delta := Int.ofNat w.oldSize - Int.ofNat w.newSize
    let x := front.step d k
    let y := (Int.ofNat x - k).toNat
    let reached :=
      if x < w.oldSize && y < w.newSize then
        x + commonFront old new (min (w.oldSize - x) (w.newSize - y)) (w.oldStart + x)
          (w.newStart + y)
      else x
    let front := front.insert k reached
    if delta % 2 == 1 && (k - delta).natAbs + 1 ≤ d && w.oldSize ≤ reached + back.getD (delta - k) 0
    then .inl (w.oldStart + x, w.newStart + y)
    else forward old new w d back ks front

/-- Extends the paths from the back by one edit on the given diagonals, until one of them meets a
path from the front. -/
def backward (old new : Array Text) (w : Window) (d : Nat) (front : Frontier) :
    List Int → Frontier → Sum (Nat × Nat) Frontier
  | [], back => .inr back
  | k :: ks, back =>
    let delta := Int.ofNat w.oldSize - Int.ofNat w.newSize
    let x := back.step d k
    let y := (Int.ofNat x - k).toNat
    let s :=
      if x < w.oldSize && y < w.newSize then
        commonBack old new (min (w.oldSize - x) (w.newSize - y)) (w.oldStop - x) (w.newStop - y)
      else 0
    let back := back.insert k (x + s)
    if delta % 2 == 0 && (k - delta).natAbs ≤ d && w.oldSize ≤ x + s + front.getD (delta - k) 0
    then .inl (w.oldStop - (x + s), w.newStop - (y + s))
    else backward old new w d front ks back

def meetFrom (old new : Array Text) (w : Window) : Nat → Nat → Frontier → Frontier →
    Option (Nat × Nat)
  | 0, _, _, _ => none
  | fuel + 1, d, front, back =>
    match forward old new w d back (diagonals d) front with
    | .inl point => some point
    | .inr front =>
      match backward old new w d front (diagonals d) back with
      | .inl point => some point
      | .inr back => meetFrom old new w fuel (d + 1) front back

/-- Where a shortest path through the window can be split. A path has at most as many edits as the
window has lines, and half of them come from each side. -/
def meetingPoint (old new : Array Text) (w : Window) : Option (Nat × Nat) :=
  meetFrom old new w ((w.oldSize + w.newSize + 1) / 2 + 1) 0 ∅ ∅

/-! ## Divide and conquer -/

/-- Old lines that go and new lines that come in their place. -/
def exchange (w : Window) : List Block :=
  [⟨.delete, w.oldStart, w.oldSize, w.newStart, 0⟩, ⟨.insert, w.oldStart, 0, w.newStart, w.newSize⟩]

def equalBlock (oldStart newStart n : Nat) : List Block :=
  if n = 0 then [] else [⟨.equal, oldStart, n, newStart, n⟩]

/-- The window without its first and last equal lines, and their numbers. -/
def Window.strip (old new : Array Text) (w : Window) : Nat × Window × Nat :=
  let front := commonFront old new (min w.oldSize w.newSize) w.oldStart w.newStart
  let rest := { w with oldStart := w.oldStart + front, newStart := w.newStart + front }
  let back := commonBack old new (min rest.oldSize rest.newSize) rest.oldStop rest.newStop
  (front, { rest with oldStop := rest.oldStop - back, newStop := rest.newStop - back }, back)

/-- The blocks of a window, in order. A window that cannot be split is exchanged as a whole. -/
def script (old new : Array Text) (w : Window) : List Block :=
  let (front, rest, back) := w.strip old new
  -- what is left between the equal ends, where a split must give two smaller windows
  let inner :=
    if rest.oldSize = 0 ∧ rest.newSize = 0 then []
    else if rest.newSize = 0 then [⟨.delete, rest.oldStart, rest.oldSize, rest.newStart, 0⟩]
    else if rest.oldSize = 0 then [⟨.insert, rest.oldStart, 0, rest.newStart, rest.newSize⟩]
    else
      match meetingPoint old new rest with
      | none => exchange rest
      | some (x, y) =>
        let lower : Window := ⟨rest.oldStart, x, rest.newStart, y⟩
        let upper : Window := ⟨x, rest.oldStop, y, rest.newStop⟩
        if _h : lower.oldSize + lower.newSize < w.oldSize + w.newSize ∧
            upper.oldSize + upper.newSize < w.oldSize + w.newSize ∧
            rest.oldStart ≤ x ∧ x ≤ rest.oldStop ∧ rest.newStart ≤ y ∧ y ≤ rest.newStop then
          script old new lower ++ script old new upper
        else exchange rest
  equalBlock w.oldStart w.newStart front ++ inner ++ equalBlock rest.oldStop rest.newStop back
termination_by w.oldSize + w.newSize
decreasing_by
  · exact _h.1
  · exact _h.2.1

end Diff

end DocComments
