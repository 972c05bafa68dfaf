import DocComments.Text.Basic

/-!
# Blocks of a line diff

A diff of two texts is a list of blocks. A block says what happens to some consecutive lines of the
old text and to some consecutive lines of the new one. This file holds the split into lines, the
blocks, and the lines that two windows have in common at an end.
-/

set_option autoImplicit false

namespace DocComments

namespace Diff

/-! ## Lines with their ends -/

/-- The lines of a text together with what ends them: a line feed, a carriage return, or both. -/
def fullLines : Text → List Text
  | [] => []
  | '\n' :: rest => ['\n'] :: fullLines rest
  | '\r' :: '\n' :: rest => ['\r', '\n'] :: fullLines rest
  | '\r' :: rest => ['\r'] :: fullLines rest
  | c :: rest =>
    match rest, fullLines rest with
    | [], _ => [[c]]
    | _, [] => [[c]]
    | _, line :: more => (c :: line) :: more

/-- Nothing is lost in the split into lines. -/
theorem flatten_fullLines (t : Text) : (fullLines t).flatten = t := by
  fun_induction fullLines t with
  | case1 => rfl
  | case2 rest ih => simp [ih]
  | case3 rest ih => simp [ih]
  | case4 rest hr ih => simp [ih]
  | case5 c hc hr hr' ih => simp
  | case6 c hc rest h hr hr' ih _ => simp_all
  | case7 c rest hc h hr line more hl hr' ih => simp_all

/-! ## Blocks -/

inductive Tag where
  /-- the same lines stand in both texts -/
  | equal
  /-- old lines go -/
  | delete
  /-- new lines come -/
  | insert
  /-- old lines are replaced by new ones -/
  | replace
  deriving DecidableEq, Repr

/-- Consecutive lines of the old text and of the new text, given by where they begin and how many
they are. -/
structure Block where
  tag : Tag
  oldStart : Nat
  oldCount : Nat
  newStart : Nat
  newCount : Nat
  deriving DecidableEq, Repr

namespace Block

def isEmpty (b : Block) : Bool := b.oldCount == 0 && b.newCount == 0

def down (n : Nat) (b : Block) : Block :=
  { b with oldStart := b.oldStart + n, newStart := b.newStart + n }

def up (n : Nat) (b : Block) : Block :=
  { b with oldStart := b.oldStart - n, newStart := b.newStart - n }

/-- The block with more lines at the end, in the texts that its tag speaks of. -/
def grow (n : Nat) (b : Block) : Block :=
  { b with
    oldCount := if b.tag = .insert then b.oldCount else b.oldCount + n
    newCount := if b.tag = .delete then b.newCount else b.newCount + n }

/-- The block with fewer lines at the end, in the texts that its tag speaks of. -/
def shrink (n : Nat) (b : Block) : Block :=
  { b with
    oldCount := if b.tag = .insert then b.oldCount else b.oldCount - n
    newCount := if b.tag = .delete then b.newCount else b.newCount - n }

/-- The number of lines that a deletion or an insertion is about. -/
def size (b : Block) : Nat := if b.tag = .insert then b.newCount else b.oldCount

end Block

/-! ## Common lines -/

/-- The number of equal lines from `i` and `j` on, at most the first argument. -/
def commonFront (old new : Array Text) : Nat → Nat → Nat → Nat
  | 0, _, _ => 0
  | n + 1, i, j => if old[i]? == new[j]? then commonFront old new n (i + 1) (j + 1) + 1 else 0

/-- The number of equal lines directly in front of `i` and `j`, at most the first argument. -/
def commonBack (old new : Array Text) : Nat → Nat → Nat → Nat
  | 0, _, _ => 0
  | n + 1, i, j => if old[i - 1]? == new[j - 1]? then commonBack old new n (i - 1) (j - 1) + 1 else 0

theorem commonFront_le (old new : Array Text) (n i j : Nat) : commonFront old new n i j ≤ n := by
  induction n generalizing i j with
  | zero => simp [commonFront]
  | succ n ih =>
    rw [commonFront]
    split
    · have := ih (i + 1) (j + 1)
      omega
    · omega

theorem commonBack_le (old new : Array Text) (n i j : Nat) : commonBack old new n i j ≤ n := by
  induction n generalizing i j with
  | zero => simp [commonBack]
  | succ n ih =>
    rw [commonBack]
    split
    · have := ih (i - 1) (j - 1)
      omega
    · omega

end Diff

end DocComments
