import DocComments.Text.Basic

/-!
# Byte offsets

A position in a text is a byte offset of its UTF-8 form. `takeBytes` and `dropBytes` cut a text at
an offset and lose nothing (`takeBytes_append_dropBytes`); an offset inside a character cuts in
front of it, and `isBoundary` tells such offsets apart (`byteSize_takeBytes`).
-/

set_option autoImplicit false

namespace DocComments

namespace Text

def byteSize : Text → Nat
  | [] => 0
  | c :: rest => c.utf8Size + byteSize rest

/-- The longest piece in front that has at most `n` bytes. -/
def takeBytes : Nat → Text → Text
  | _, [] => []
  | n, c :: rest => if c.utf8Size ≤ n then c :: takeBytes (n - c.utf8Size) rest else []

/-- What `takeBytes` leaves. -/
def dropBytes : Nat → Text → Text
  | _, [] => []
  | n, c :: rest => if c.utf8Size ≤ n then dropBytes (n - c.utf8Size) rest else c :: rest

/-- The offset `n` lies in the text and not inside a character. -/
def isBoundary (n : Nat) (t : Text) : Bool := byteSize (takeBytes n t) == n

@[simp] theorem byteSize_nil : byteSize [] = 0 := rfl

@[simp] theorem byteSize_cons (c : Char) (t : Text) :
    byteSize (c :: t) = c.utf8Size + byteSize t := rfl

@[simp] theorem byteSize_append (s t : Text) : byteSize (s ++ t) = byteSize s + byteSize t := by
  induction s with
  | nil => simp
  | cons c s ih => simp [ih, Nat.add_assoc]

/-- A cut loses nothing. -/
theorem takeBytes_append_dropBytes (n : Nat) (t : Text) : takeBytes n t ++ dropBytes n t = t := by
  induction t generalizing n with
  | nil => rfl
  | cons c t ih =>
    by_cases h : c.utf8Size ≤ n
    · simp [takeBytes, dropBytes, h, ih]
    · simp [takeBytes, dropBytes, h]

/-- The piece in front has at most the bytes asked for. -/
theorem byteSize_takeBytes_le (n : Nat) (t : Text) : byteSize (takeBytes n t) ≤ n := by
  induction t generalizing n with
  | nil => simp [takeBytes]
  | cons c t ih =>
    by_cases h : c.utf8Size ≤ n
    · have := ih (n - c.utf8Size)
      simp only [takeBytes, h, if_true, byteSize_cons]
      omega
    · simp [takeBytes, h]

/-- A cut at a boundary has exactly the bytes asked for in front. -/
theorem byteSize_takeBytes {n : Nat} {t : Text} (h : isBoundary n t = true) :
    byteSize (takeBytes n t) = n := by
  simpa [isBoundary] using h

/-- A cut at the size of the front part gives back the two parts. -/
@[simp] theorem takeBytes_byteSize_append (s t : Text) : takeBytes (byteSize s) (s ++ t) = s := by
  induction s with
  | nil =>
    cases t with
    | nil => rfl
    | cons c t =>
      have := c.utf8Size_pos
      simp [takeBytes, show ¬ c.utf8Size ≤ 0 by omega]
  | cons c s ih => simp [takeBytes, ih]

@[simp] theorem dropBytes_byteSize_append (s t : Text) : dropBytes (byteSize s) (s ++ t) = t := by
  have h := takeBytes_append_dropBytes (byteSize s) (s ++ t)
  rw [takeBytes_byteSize_append] at h
  exact List.append_cancel_left h

end Text

/-! ## Ranges -/

/-- A range of byte offsets, the end excluded. Nothing says that it is ordered or fits a text. -/
structure ByteRange where
  start : Nat
  stop : Nat
  deriving DecidableEq, Repr

namespace ByteRange

def display (r : ByteRange) : String := toString r.start ++ ".." ++ toString r.stop

/-- The range is ordered, ends within the text and cuts no character. -/
def fits (r : ByteRange) (t : Text) : Bool :=
  r.start ≤ r.stop && Text.isBoundary r.start t && Text.isBoundary r.stop t

def slice (r : ByteRange) (t : Text) : Text :=
  Text.takeBytes (r.stop - r.start) (Text.dropBytes r.start t)

end ByteRange

end DocComments
