import DocComments.Text.Basic

/-!
# Reading numbers

Whole numbers in a base and decimal fractions. A fraction is read exactly and rounded once to the
nearest floating-point number.
-/

set_option autoImplicit false

namespace DocComments

namespace Decimal

def digit? (base : Nat) (c : Char) : Option Nat :=
  let value :=
    if '0' ≤ c ∧ c ≤ '9' then some (c.toNat - 48)
    else if 'a' ≤ c ∧ c ≤ 'f' then some (c.toNat - 87)
    else if 'A' ≤ c ∧ c ≤ 'F' then some (c.toNat - 55)
    else none
  value.filter (· < base)

/-- The value of digits, the first ones worth `n` already. -/
def digitsFrom? (base n : Nat) : Text → Option Nat
  | [] => some n
  | c :: rest => (digit? base c).bind fun d => digitsFrom? base (n * base + d) rest

def digits? (base : Nat) (t : Text) : Option Nat :=
  if t.isEmpty then none else digitsFrom? base 0 t

def greatest : Nat := Nat.pow 2 64 - 1

def word? (base : Nat) (t : Text) : Option Nat := (digits? base t).filter (· ≤ greatest)

/-- A whole number of at most 64 bits in decimal digits, with a plus sign or without. -/
def unsigned? (t : Text) : Option Nat :=
  match t with
  | '+' :: rest => word? 10 rest
  | _ => word? 10 t

/-! ## Fractions -/

/-- A decimal fraction: its digits as a whole number times a power of ten. -/
structure Fraction where
  digits : Nat
  power : Int
  deriving DecidableEq, Repr

def exponent? (t : Text) : Option Int :=
  match t with
  | '-' :: rest => (digits? 10 rest).map fun n => -Int.ofNat n
  | '+' :: rest => (digits? 10 rest).map Int.ofNat
  | _ => (digits? 10 t).map Int.ofNat

def optionalExponent? : Text → Option Int
  | [] => some 0
  | c :: rest => if c = 'e' ∨ c = 'E' then exponent? rest else none

/-- A fraction without a sign: digits with a point or without, and an exponent or none. -/
def fraction? (t : Text) : Option Fraction :=
  let whole := t.takeWhile Char.isDigit
  let rest := t.drop whole.length
  let part := match rest with
    | '.' :: more => more.takeWhile Char.isDigit
    | _ => []
  let rest := match rest with
    | '.' :: more => more.drop part.length
    | _ => rest
  match digits? 10 (whole ++ part), optionalExponent? rest with
  | some n, some e => some ⟨n, e - part.length⟩
  | _, _ => none

/-- The nearest floating-point number to a fraction. Sizes beyond all numbers are cut off first. -/
def Fraction.toFloat (f : Fraction) : Float :=
  let size : Int := (toString f.digits).length + f.power
  if f.digits = 0 ∨ size < -400 then 0
  else if 400 < size then 1 / 0
  else if 0 ≤ f.power then Float.ofScientific (f.digits * Nat.pow 10 f.power.toNat) false 0
  else Float.ofScientific f.digits true (-f.power).toNat

def finite? (t : Text) : Option Float :=
  let x := match t with
    | '-' :: rest => (fraction? rest).map fun (f : Fraction) => -f.toFloat
    | _ => (fraction? t).map Fraction.toFloat
  x.filter Float.isFinite

end Decimal

end DocComments
