import DocComments.Decimal.Read

/-!
# Reading JSON

Texts that come from elsewhere are read strictly: JSON's own blanks only, nothing behind the value.
Numbers stay as they are written. A string may name half of a pair of surrogates by an escape; it
is then no text, which matters only to a reader who asks for it.
-/

set_option autoImplicit false

namespace DocComments

/-- A JSON value as it is written. Fields stand in the order of the text, also repeated ones. -/
inductive WrittenJson where
  | null
  | bool (b : Bool)
  /-- the sign, digits, point and exponent of a number -/
  | number (t : Text)
  /-- a string, `none` if half of a pair of surrogates stands alone in it -/
  | string (t : Option Text)
  | array (items : List WrittenJson)
  | object (fields : List (Option Text × WrittenJson))

namespace WrittenJson

/-! ## Tokens -/

def isBlank (c : Char) : Bool := c == ' ' || c == '\n' || c == '\t' || c == '\r'

def skip (t : Text) : Text := t.dropWhile isBlank

def digits? (t : Text) : Option (Text × Text) :=
  match t.takeWhile Char.isDigit with
  | [] => none
  | ds => some (ds, t.drop ds.length)

/-- The part of a number that `mark` opens, if there is one. -/
def part? (mark : Char → Bool) (signed : Bool) (t : Text) : Option (Text × Text) :=
  match t with
  | [] => some ([], [])
  | c :: rest =>
    if mark c then
      let sign := match rest with
        | s :: _ => if signed ∧ (s = '+' ∨ s = '-') then [s] else []
        | [] => []
      (digits? (rest.drop sign.length)).map fun (ds, more) => (c :: sign ++ ds, more)
    else some ([], t)

/-- A number and what follows it. A zero in front stands alone. -/
def number? (t : Text) : Option (Text × Text) := do
  let sign := if t.head? = some '-' then ['-'] else []
  let (whole, rest) ← digits? (t.drop sign.length)
  if whole.head? = some '0' ∧ whole ≠ ['0'] then none
  let (fraction, rest) ← part? (· == '.') false rest
  let (exponent, rest) ← part? (fun c => c == 'e' || c == 'E') true rest
  some (sign ++ whole ++ fraction ++ exponent, rest)

def escape? (c : Char) : Option Nat :=
  match c with
  | '"' => some 0x22
  | '\\' => some 0x5C
  | '/' => some 0x2F
  | 'b' => some 8
  | 'f' => some 12
  | 'n' => some 10
  | 'r' => some 13
  | 't' => some 9
  | _ => none

/-- The code points of a string behind its opening quote, halves of pairs still apart, and what
follows the closing quote. Control characters have to be escaped. -/
def units? : Text → Option (List Nat × Text)
  | [] => none
  | '"' :: rest => some ([], rest)
  | '\\' :: 'u' :: a :: b :: c :: d :: rest =>
    match Decimal.digits? 16 [a, b, c, d], units? rest with
    | some n, some (units, rest) => some (n :: units, rest)
    | _, _ => none
  | '\\' :: c :: rest =>
    match escape? c, units? rest with
    | some n, some (units, rest) => some (n :: units, rest)
    | _, _ => none
  | c :: rest =>
    if c.toNat < 0x20 ∨ c = '\\' then none
    else (units? rest).map fun (units, rest) => (c.toNat :: units, rest)

/-- The first half of a pair of surrogates. -/
def isHigh (n : Nat) : Bool := 0xD800 ≤ n && n < 0xDC00

/-- The second half of a pair of surrogates. -/
def isLow (n : Nat) : Bool := 0xDC00 ≤ n && n < 0xE000

/-- The text of code points, halves of pairs put together. -/
def joinUnits? : List Nat → Option Text
  | [] => some []
  | [n] => if isHigh n || isLow n then none else some [Char.ofNat n]
  | n :: m :: rest =>
    if isHigh n then
      if isLow m then
        (joinUnits? rest).map (Char.ofNat (0x10000 + (n - 0xD800) * 0x400 + (m - 0xDC00)) :: ·)
      else none
    else if isLow n then none
    else (joinUnits? (m :: rest)).map (Char.ofNat n :: ·)

def string? (t : Text) : Option (Option Text × Text) :=
  (units? t).map fun (units, rest) => (joinUnits? units, rest)

/-! ## Values -/

mutual

def value? : Nat → Text → Option (WrittenJson × Text)
  | 0, _ => none
  | fuel + 1, t =>
    match t with
    | 'n' :: 'u' :: 'l' :: 'l' :: rest => some (null, rest)
    | 't' :: 'r' :: 'u' :: 'e' :: rest => some (bool true, rest)
    | 'f' :: 'a' :: 'l' :: 's' :: 'e' :: rest => some (bool false, rest)
    | '"' :: rest => (string? rest).map fun (s, rest) => (string s, rest)
    | '[' :: rest =>
      match skip rest with
      | ']' :: rest => some (array [], rest)
      | rest => items? fuel [] rest
    | '\x7b' :: rest =>
      match skip rest with
      | '\x7d' :: rest => some (object [], rest)
      | rest => fields? fuel [] rest
    | _ => (number? t).map fun (n, rest) => (number n, rest)

/-- Reads the items of an array up to its end, the latest first. -/
def items? : Nat → List WrittenJson → Text → Option (WrittenJson × Text)
  | 0, _, _ => none
  | fuel + 1, read, t =>
    match value? fuel (skip t) with
    | none => none
    | some (v, rest) =>
      match skip rest with
      | ',' :: rest => items? fuel (v :: read) rest
      | ']' :: rest => some (array (v :: read).reverse, rest)
      | _ => none

def fields? : Nat → List (Option Text × WrittenJson) → Text → Option (WrittenJson × Text)
  | 0, _, _ => none
  | fuel + 1, read, t =>
    match skip t with
    | '"' :: rest =>
      match string? rest with
      | none => none
      | some (key, rest) =>
        match skip rest with
        | ':' :: rest =>
          match value? fuel (skip rest) with
          | none => none
          | some (v, rest) =>
            match skip rest with
            | ',' :: rest => fields? fuel ((key, v) :: read) rest
            | '\x7d' :: rest => some (object ((key, v) :: read).reverse, rest)
            | _ => none
        | _ => none
    | _ => none

end

/-- The value that a text is written for. Two steps at most begin at each character, so that the
fuel is never used up. -/
def read? (t : Text) : Option WrittenJson :=
  match value? (2 * t.length + 2) (skip t) with
  | some (v, rest) => if skip rest = [] then some v else none
  | none => none

/-! ## Records -/

def fieldsOf (name : Text) (fields : List (Option Text × WrittenJson)) : List WrittenJson :=
  (fields.filter fun field => field.1 == some name).map Prod.snd

/-- The values under known names, `none` for what is missing. They stand under their names in an
object, where each may occur once, or without them in an array, where the last ones may be left
out. Other names of an object have to be texts and do not matter. -/
def record? (names : List String) : WrittenJson → Option (List (Option WrittenJson))
  | object fields =>
    let found := names.map fun name => fieldsOf name.toList fields
    if fields.all (fun field => field.1.isSome) && found.all (fun values => values.length ≤ 1) then
      some (found.map List.head?)
    else none
  | array items =>
    if items.length ≤ names.length then
      some (items.map some ++ List.replicate (names.length - items.length) none)
    else none
  | _ => none

def text? : WrittenJson → Option Text
  | string t => t
  | _ => none

def list? : WrittenJson → Option (List WrittenJson)
  | array items => some items
  | _ => none

/-- A whole number of at most 64 bits, written in digits alone. -/
def word? : WrittenJson → Option Nat
  | number t => Decimal.word? 10 t
  | _ => none

end WrittenJson

end DocComments
