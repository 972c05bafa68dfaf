import DocComments.Text.Offset

/-!
# UTF-8

Texts are stored as UTF-8. `Utf8.decode` reads the bytes of a file and names the offset of the
first sequence that is no character; overlong forms, surrogates and code points beyond U+10FFFF
are refused.
-/

set_option autoImplicit false

namespace DocComments

namespace Utf8

def isContinuation (b : UInt8) : Bool := 0x80 ≤ b && b ≤ 0xBF

/-- The value of the low six bits of a continuation byte. -/
def payload (b : UInt8) : Nat := b.toNat % 64

/-- The character that a list of bytes begins with, and the number of its bytes. -/
def decodeFirst : List UInt8 → Option (Char × Nat)
  | [] => none
  | a :: rest =>
    if a < 0x80 then some (Char.ofNat a.toNat, 1)
    else if 0xC2 ≤ a && a ≤ 0xDF then
      match rest with
      | b :: _ =>
        if isContinuation b then some (Char.ofNat (a.toNat % 32 * 64 + payload b), 2) else none
      | _ => none
    else if 0xE0 ≤ a && a ≤ 0xEF then
      match rest with
      | b :: c :: _ =>
        let fits := if a == 0xE0 then 0xA0 ≤ b && b ≤ 0xBF
          else if a == 0xED then 0x80 ≤ b && b ≤ 0x9F
          else isContinuation b
        if fits && isContinuation c then
          some (Char.ofNat (a.toNat % 16 * 4096 + payload b * 64 + payload c), 3)
        else none
      | _ => none
    else if 0xF0 ≤ a && a ≤ 0xF4 then
      match rest with
      | b :: c :: d :: _ =>
        let fits := if a == 0xF0 then 0x90 ≤ b && b ≤ 0xBF
          else if a == 0xF4 then 0x80 ≤ b && b ≤ 0x8F
          else isContinuation b
        if fits && isContinuation c && isContinuation d then
          some (Char.ofNat (a.toNat % 8 * 262144 + payload b * 4096 + payload c * 64 + payload d), 4)
        else none
      | _ => none
    else none

/-- Reads characters while fuel lasts, the latest first; `offset` counts the bytes read. -/
def decodeFrom : Nat → Nat → Text → List UInt8 → Except Nat Text
  | _, _, read, [] => .ok read.reverse
  | 0, offset, _, _ :: _ => .error offset
  | fuel + 1, offset, read, bytes@(_ :: _) =>
    match decodeFirst bytes with
    | some (c, n) => decodeFrom fuel (offset + n) (c :: read) (bytes.drop n)
    | none => .error offset

/-- The text of a byte sequence, or the offset of the first sequence that is no character. Every
character takes a byte at least, so that the fuel is never used up. -/
def decode (bytes : ByteArray) : Except Nat Text :=
  decodeFrom bytes.size 0 [] bytes.data.toList

def encode (t : Text) : ByteArray := (String.ofList t).toUTF8

end Utf8

end DocComments
