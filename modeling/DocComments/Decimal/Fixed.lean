/-!
# Decimals with fixed places

A floating-point number is a whole number times a power of two. Its text with fixed places is that
exact value rounded once, a half to the even neighbour; `roundDiv` rounds a quotient and is never
further than a half from it (`roundDiv_close`).
-/

set_option autoImplicit false

namespace DocComments

namespace Decimal

/-- A quotient rounded to the nearest whole number, a half to the even one. -/
def roundDiv (num den : Nat) : Nat :=
  let q := num / den
  let r := num % den
  if 2 * r < den then q
  else if den < 2 * r then q + 1
  else if q % 2 = 0 then q
  else q + 1

/-- The rounded quotient is not further than a half from the quotient. -/
theorem roundDiv_close (num den : Nat) (h : 0 < den) :
    2 * num ≤ 2 * (roundDiv num den * den) + den ∧ 2 * (roundDiv num den * den) ≤ 2 * num + den := by
  have hsplit := Nat.div_add_mod num den
  have hlt := Nat.mod_lt num h
  have hq : num / den * den = den * (num / den) := Nat.mul_comm ..
  have hq1 : (num / den + 1) * den = den * (num / den) + den := by
    rw [Nat.add_mul, Nat.one_mul, hq]
  simp only [roundDiv]
  split
  · omega
  · split
    · omega
    · split <;> omega

/-- A finite number is `digits` times two to the power of `power`, with a sign. -/
structure Binary where
  negative : Bool
  digits : Nat
  power : Int
  deriving DecidableEq, Repr

def Binary.ofBits (bits : Nat) : Binary :=
  let fraction := bits % Nat.pow 2 52
  let exponent := bits / Nat.pow 2 52 % Nat.pow 2 11
  let negative := bits / Nat.pow 2 63 % 2 == 1
  if exponent = 0 then ⟨negative, fraction, -1074⟩
  else ⟨negative, fraction + Nat.pow 2 52, Int.ofNat exponent - 1075⟩

/-- The size of a number in units of the last place, rounded. -/
def Binary.units (b : Binary) (places : Nat) : Nat :=
  let scaled := b.digits * Nat.pow 10 places
  if 0 ≤ b.power then scaled * Nat.pow 2 b.power.toNat
  else roundDiv scaled (Nat.pow 2 (-b.power).toNat)

def padded (length n : Nat) : String :=
  let digits := toString n
  String.ofList (List.replicate (length - digits.length) '0') ++ digits

/-- A number with a point and fixed places behind it. -/
def fixed (places : Nat) (x : Float) : String :=
  if x.isNaN then "NaN"
  else
    let b := Binary.ofBits x.toBits.toNat
    let sign := if b.negative then "-" else ""
    if x.isInf then sign ++ "inf"
    else
      let units := b.units places
      let whole := Nat.pow 10 places
      sign ++ toString (units / whole) ++ "." ++ padded places (units % whole)

end Decimal

end DocComments
