/-!
# Fractions

Hosts hold fractions in binary, with 53 binary digits and a power of two between
fixed bounds.  No term of the language has a fraction in it, but a host may give one
for a name or a number, and it has to come back as it was given.

A decimal number is held as the nearest fraction; of two that are equally near, the one
with an even mantissa is taken.
-/

namespace PushValue

inductive Fraction where
  /-- The number `mantissa * 2 ^ exponent`, or its negative.  Zero has a sign as well. -/
  | finite (negative : Bool) (mantissa : Nat) (exponent : Int)
  /-- A number beyond all bounds. -/
  | infinite (negative : Bool)
  /-- The result of a computation that has none. -/
  | undefined
deriving DecidableEq

namespace Fraction

/-- The first mantissa with one digit too many. -/
def mantissaBound : Nat := Nat.pow 2 53

def leastExponent : Int := -1074

def greatestExponent : Int := 971

/-- The whole number nearest to a quotient; a half goes to the even neighbour. -/
def nearest (n d : Nat) : Nat :=
  let q := n / d
  match compare (2 * (n % d)) d with
  | .lt => q
  | .gt => q + 1
  | .eq => if q % 2 = 0 then q else q + 1

/-- The power of two that begins the binary digits of a positive quotient. -/
def leadingPower (n d : Nat) : Int :=
  let guess : Int := (n.log2 : Int) - d.log2
  if d * Nat.pow 2 guess.toNat ≤ n * Nat.pow 2 (-guess).toNat then guess else guess - 1

def ofQuotient (negative : Bool) (n d : Nat) : Fraction :=
  let exponent := max (leadingPower n d - 52) leastExponent
  let mantissa := nearest (n * Nat.pow 2 (-exponent).toNat) (d * Nat.pow 2 exponent.toNat)
  if mantissa = 0 then finite negative 0 0
  else if mantissa < mantissaBound then
    if exponent ≤ greatestExponent then finite negative mantissa exponent else infinite negative
  else if exponent < greatestExponent then finite negative (mantissa / 2) (exponent + 1)
  else infinite negative

/-- The fraction nearest to `digits * 10 ^ power`.  Powers that are far out of bounds are not
computed. -/
def ofDecimal (negative : Bool) (digits : Nat) (power : Int) : Fraction :=
  let size := (Nat.toDigits 10 digits).length + power
  if digits = 0 ∨ size < -330 then finite negative 0 0
  else if 310 < size then infinite negative
  else ofQuotient negative (digits * Nat.pow 10 power.toNat) (Nat.pow 10 (-power).toNat)

def isZero : Fraction -> Bool
  | finite _ mantissa _ => mantissa = 0
  | _ => false

def isWithin (bound : Nat) : Fraction -> Bool
  | finite _ mantissa exponent =>
      mantissa * Nat.pow 2 exponent.toNat < bound * Nat.pow 2 (-exponent).toNat
  | _ => false

def whole? : Fraction -> Option Int
  | finite negative mantissa exponent =>
      let size : Int := (mantissa * Nat.pow 2 exponent.toNat / Nat.pow 2 (-exponent).toNat : Nat)
      some (if negative then -size else size)
  | _ => none

end Fraction

end PushValue
