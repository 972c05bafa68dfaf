import DocComments.Pattern.Basic

/-!
# Classes as ranges

The members of a class as ranges of code points in ascending order with a gap between any two of
them. Surrogates are no characters, so that no range ends at one. The main statement:
`CharClass.ranges` is the only place where the tables of a class are brought into this form.
-/

set_option autoImplicit false

namespace DocComments

/-- Ranges of code points, each by its first and its last member. -/
abbrev Ranges := List (Nat × Nat)

namespace Ranges

/-! ## Order -/

/-- A range and those behind it, in ascending order of their first members: what overlaps or
touches becomes one range. -/
def joinTouching (first last : Nat) : Ranges → Ranges
  | [] => [(first, last)]
  | (a, b) :: rest =>
    if a ≤ last + 1 then joinTouching first (max last b) rest
    else (first, last) :: joinTouching a b rest

/-- The ranges in ascending order with a gap between any two of them. -/
def arrange (rs : Ranges) : Ranges :=
  match rs.mergeSort fun r s => r.1 ≤ s.1 with
  | [] => []
  | (first, last) :: rest => joinTouching first last rest

def contains (rs : Ranges) (n : Nat) : Bool := rs.any fun (first, last) => first ≤ n && n ≤ last

def only? : Ranges → Option Nat
  | [(first, last)] => if first = last then some first else none
  | _ => none

/-! ## Operations on arranged ranges -/

def greatest : Nat := 0x10FFFF

def next (n : Nat) : Nat := if n = 0xD7FF then 0xE000 else n + 1

def previous (n : Nat) : Nat := if n = 0xE000 then 0xD7FF else n - 1

/-- The gaps between the ranges, from a character on. -/
def gaps (start : Nat) : Ranges → Ranges
  | [] => if start ≤ greatest then [(start, greatest)] else []
  | (first, last) :: rest =>
    if start < first then (start, previous first) :: gaps (next last) rest
    else gaps (next last) rest

def common : Ranges → Ranges → Ranges
  | (a, b) :: rs, (c, d) :: ss =>
    let rest := if b < d then common rs ((c, d) :: ss) else common ((a, b) :: rs) ss
    if max a c ≤ min b d then (max a c, min b d) :: rest else rest
  | _, _ => []
termination_by rs ss => rs.length + ss.length

/-- The ranges and what is equal to one of their members up to case. -/
def inAnyCase (rs : Ranges) : Ranges :=
  (Text.casedLetters.filter rs.contains).flatMap
    (fun n => (Text.caseClass (Char.ofNat n)).map fun c => (c.toNat, c.toNat)) ++ rs

end Ranges

/-! ## The ranges of a class -/

namespace CharClass

def digitRanges : Ranges := (48, 57) :: Property.zeros.map fun first => (first, first + 9)

def blankRanges : Ranges :=
  [(9, 13), (0x20, 0x20), (0x85, 0x85), (0xA0, 0xA0), (0x1680, 0x1680), (0x2000, 0x200A),
    (0x2028, 0x2029), (0x202F, 0x202F), (0x205F, 0x205F), (0x3000, 0x3000)]

def wordRanges : Ranges :=
  Ranges.arrange
    ((65, 90) :: (95, 95) :: (97, 122) :: digitRanges ++ Property.alphabeticRanges ++
      Property.markRanges ++ Property.connectorRanges)

def piecesBefore : CharClass → Ranges → Ranges
  | empty, rest => rest
  | range first last, rest => (first, last) :: rest
  | digit, rest => digitRanges ++ rest
  | blank, rest => blankRanges ++ rest
  | word, rest => wordRanges ++ rest
  | either a b, rest => a.piecesBefore (b.piecesBefore rest)
  | both a b, rest =>
    Ranges.common (Ranges.arrange (a.piecesBefore [])) (Ranges.arrange (b.piecesBefore [])) ++ rest
  | complement a, rest => Ranges.gaps 0 (Ranges.arrange (a.piecesBefore [])) ++ rest
  | anyCase a, rest => Ranges.inAnyCase (Ranges.arrange (a.piecesBefore [])) ++ rest

def ranges (cls : CharClass) : Ranges := Ranges.arrange (cls.piecesBefore [])

end CharClass

end DocComments
