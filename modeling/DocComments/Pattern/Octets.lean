import DocComments.Pattern.Ranges

/-!
# Ranges in UTF-8

The UTF-8 forms of a range of characters make up a few sequences of ranges of octets: a sequence
stands for all forms that take one octet from each of its ranges. No form is covered twice, and the
sequences ascend.
-/

set_option autoImplicit false

namespace DocComments

abbrev OctetRange := Nat × Nat

/-- Ranges of octets, one behind the other. -/
abbrev OctetSequence := List OctetRange

namespace Ranges

/-- The sequences for the numbers from `first` to `last`, written with `more` digits to the base 64
behind the leading one. `lead` is the mark of the leading octet; the others carry that of a
continuation. A leading digit stands alone if not all numbers that begin with it are meant. -/
def digitSequences (lead : Nat) : Nat → Nat → Nat → List OctetSequence
  | 0, first, last => [[(lead + first, lead + last)]]
  | more + 1, first, last =>
    let size := 64 ^ (more + 1)
    let a := first / size
    let b := last / size
    let low := first % size
    let high := last % size
    let under (digit low high : Nat) : List OctetSequence :=
      (digitSequences 0x80 more low high).map ((lead + digit, lead + digit) :: ·)
    if a = b then under a low high
    else
      let wholeFirst := if low = 0 then a else a + 1
      let wholeLast := if high + 1 = size then b else b - 1
      (if low = 0 then [] else under a low (size - 1)) ++
        (if wholeFirst ≤ wholeLast then
          [(lead + wholeFirst, lead + wholeLast) :: List.replicate (more + 1) (0x80, 0xBF)]
        else []) ++
        (if high + 1 = size then [] else under b 0 high)

/-- The characters by the size of their forms: the first and the last, the mark of the leading octet
and the number of octets behind it. -/
def forms : List (Nat × Nat × Nat × Nat) :=
  [(0, 0x7F, 0, 0), (0x80, 0x7FF, 0xC0, 1), (0x800, 0xD7FF, 0xE0, 2), (0xE000, 0xFFFF, 0xE0, 2),
    (0x10000, greatest, 0xF0, 3)]

def sequences (rs : Ranges) : List OctetSequence :=
  rs.flatMap fun (first, last) =>
    forms.flatMap fun (least, most, lead, more) =>
      if max first least ≤ min last most then
        digitSequences lead more (max first least) (min last most)
      else []

def isAscii (rs : Ranges) : Bool := rs.all fun (_, last) => last < 128

end Ranges

end DocComments
