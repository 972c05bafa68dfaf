import DocComments.Decimal.Read
import DocComments.Yaml.Basic

/-!
# YAML tags and directives

A tag is written in full between angle brackets, or as a handle and the rest of it. A directive in
front of a document gives the version of the format, or the beginning of tags that a handle stands
for. Characters that cannot stand in a tag are written as their bytes in UTF-8, each as a percent
sign and two digits (`octets?`); the bytes behind a zero do not count.
-/

set_option autoImplicit false

namespace DocComments

namespace Yaml

/-! ## Bytes of tags -/

/-- A byte that is written as a percent sign and two digits to the base sixteen. -/
def octet? : Text → Option (UInt8 × Text)
  | '%' :: a :: b :: rest => do
    return (UInt8.ofNat ((← Decimal.digit? 16 a) * 16 + (← Decimal.digit? 16 b)), rest)
  | _ => none

def following? (b : UInt8) : Option Nat :=
  if b < 0x80 then some 0
  else if 0xC0 ≤ b ∧ b < 0xE0 then some 1
  else if 0xE0 ≤ b ∧ b < 0xF0 then some 2
  else if 0xF0 ≤ b ∧ b < 0xF8 then some 3
  else none

def followingOctets? : Nat → Text → Option (Tag × Text)
  | 0, t => some ([], t)
  | n + 1, t => do
    let (b, rest) ← octet? t
    if 0x80 ≤ b ∧ b < 0xC0 then
      let (more, rest) ← followingOctets? n rest
      return (b :: more, rest)
    else none

def octets? (t : Text) : Option (Tag × Text) := do
  let (b, rest) ← octet? t
  let (more, rest) ← followingOctets? (← following? b) rest
  return (b :: more, rest)

/-- A byte takes some of the text. -/
theorem length_lt_of_octet?_eq_some {t rest : Text} {b : UInt8} (h : octet? t = some (b, rest)) :
    rest.length < t.length := by
  unfold octet? at h
  split at h
  · simp only [Option.bind_eq_bind, Option.bind_eq_some_iff, Option.pure_def, Option.some.injEq,
      Prod.mk.injEq] at h
    obtain ⟨_, _, _, _, _, rfl⟩ := h
    simp only [List.length_cons]
    omega
  · simp at h

theorem length_le_of_followingOctets?_eq_some {n : Nat} {t rest : Text} {bs : Tag}
    (h : followingOctets? n t = some (bs, rest)) : rest.length ≤ t.length := by
  induction n generalizing t bs with
  | zero =>
    simp only [followingOctets?, Option.some.injEq, Prod.mk.injEq] at h
    exact Nat.le_of_eq (by rw [h.2])
  | succ n ih =>
    simp only [followingOctets?, Option.bind_eq_bind, Option.bind_eq_some_iff] at h
    obtain ⟨⟨b, more⟩, hb, h⟩ := h
    have hlt := length_lt_of_octet?_eq_some hb
    split at h
    · simp only [Option.bind_eq_some_iff, Option.pure_def, Option.some.injEq, Prod.mk.injEq] at h
      obtain ⟨⟨_, _⟩, hm, _, rfl⟩ := h
      exact Nat.le_trans (ih hm) (Nat.le_of_lt hlt)
    · simp at h

/-- The bytes of a character take some of the text. -/
theorem length_lt_of_octets?_eq_some {t rest : Text} {bs : Tag}
    (h : octets? t = some (bs, rest)) : rest.length < t.length := by
  simp only [octets?, Option.bind_eq_bind, Option.bind_eq_some_iff, Option.pure_def,
    Option.some.injEq, Prod.mk.injEq] at h
  obtain ⟨⟨b, more⟩, hb, n, _, ⟨_, _⟩, hm, _, rfl⟩ := h
  exact Nat.lt_of_le_of_lt (length_le_of_followingOctets?_eq_some hm)
    (length_lt_of_octet?_eq_some hb)

/-- A character that stands for itself in a tag. Commas and brackets do so only where the tag is
written in full. -/
def isTagChar (full : Bool) (c : Char) : Bool :=
  isNameChar c || ";/?:@&=+$.!~*'()".toList.contains c || (full && ",[]".toList.contains c)

def tagBytes (full : Bool) (t : Text) : Option (Tag × Text) :=
  match t with
  | [] => some ([], [])
  | c :: rest =>
    if c = '%' then
      match _h : octets? (c :: rest) with
      | some (bs, more) => (tagBytes full more).map fun (after, rest) => (bs ++ after, rest)
      | none => none
    else if isTagChar full c then
      (tagBytes full rest).map fun (after, rest) => (UInt8.ofNat c.toNat :: after, rest)
    else some ([], c :: rest)
termination_by t.length
decreasing_by
  · exact length_lt_of_octets?_eq_some _h
  · simp

def cutAtZero (tag : Tag) : Tag := tag.takeWhile (· != 0)

/-! ## Tags -/

/-- The tag that asks for no type. -/
def plainTag : Tag := [33]

def writtenTag? : Text → Option (WrittenTag × Text)
  | '<' :: rest =>
    match tagBytes true rest with
    | some (tag, '>' :: rest) => if tag.isEmpty then none else some (.full (cutAtZero tag), rest)
    | _ => none
  | t =>
    let name := t.takeWhile isNameChar
    match t.drop name.length with
    | '!' :: rest => do
      let (tag, rest) ← tagBytes false rest
      if tag.isEmpty then none
      else return (.short ('!' :: name ++ ['!']) (cutAtZero tag), rest)
    | rest => do
      let (tag, rest) ← tagBytes false rest
      let tag := cutAtZero (name.map (fun c => UInt8.ofNat c.toNat) ++ tag)
      return (if tag.isEmpty then .full plainTag else .short ['!'] tag, rest)

/-- The handles of a document and the beginnings of tags that they stand for. -/
abbrev Handles := List (Text × Tag)

/-- The tag of a type that the format itself defines. -/
def coreTag (name : String) : Tag := ("tag:yaml.org,2002:" ++ name).toUTF8.toList

/-- The handles that stand for something without a directive. -/
def commonHandles : Handles := [(['!'], plainTag), (['!', '!'], coreTag "")]

def WrittenTag.resolve? (handles : Handles) : WrittenTag → Option Tag
  | full tag => some tag
  | short handle rest => (handles.lookup handle).map (· ++ rest)

/-! ## Directives -/

def versionNumber? (t : Text) : Option (Nat × Text) :=
  let digits := t.takeWhile Char.isDigit
  if digits.length ≤ 9 then (Decimal.digits? 10 digits).map fun n => (n, t.drop digits.length)
  else none

/-- The version of the format: two numbers with a point between them. -/
def version? (t : Text) : Option (Token × Text) := do
  let (major, rest) ← versionNumber? t
  match rest with
  | '.' :: rest =>
    let (minor, rest) ← versionNumber? rest
    return (.version major minor, rest)
  | _ => none

def handle? : Text → Option (Token × Text)
  | '!' :: t => do
    let name := t.takeWhile isNameChar
    let (handle, rest) ←
      match t.drop name.length with
      | '!' :: rest => some ('!' :: name ++ ['!'], rest)
      | rest => if name.isEmpty then some (['!'], rest) else none
    if rest.head?.any isSpace then
      let (tag, rest) ← tagBytes true (rest.dropWhile isSpace)
      if tag.isEmpty ∨ !endsWord rest then none
      else return (.handle handle (cutAtZero tag), rest)
    else none
  | _ => none

def directive? (t : Text) : Option (Token × Text) :=
  let name := t.takeWhile isNameChar
  let rest := t.drop name.length
  if !endsWord rest then none
  else if name = "YAML".toList then version? (rest.dropWhile isSpace)
  else if name = "TAG".toList then handle? (rest.dropWhile isSpace)
  else none

end Yaml

end DocComments
