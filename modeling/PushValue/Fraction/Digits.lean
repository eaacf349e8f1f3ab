import PushValue.Fraction.Basic

/-!
# Decimal digits of fractions

A fraction is written with the fewest decimal digits from which it can be read back.
The decimal numbers that are held as a fraction are those between the midpoints to
its two neighbours; the midpoints belong to it if its mantissa is even.  Of several
numbers with the fewest digits the nearest one is taken.
-/

namespace PushValue
namespace Fraction

def compareDecimal (digits : Nat) (power : Int) (mantissa : Nat) (exponent : Int) : Ordering :=
  compare (digits * Nat.pow 10 power.toNat * Nat.pow 2 (-exponent).toNat)
    (mantissa * Nat.pow 2 exponent.toNat * Nat.pow 10 (-power).toNat)

/-- Whether a decimal number is held as a fraction.  Below a power of two the next fraction is only
half as far away as above it. -/
def readsBack (mantissa : Nat) (exponent : Int) (digits : Nat) (power : Int) : Bool :=
  let isNarrow := 2 * mantissa = mantissaBound ∧ leastExponent < exponent
  let lower := if isNarrow then 4 * mantissa - 1 else 4 * mantissa - 2
  let upper := 4 * mantissa + 2
  let fromLower := compareDecimal digits power lower (exponent - 2)
  let fromUpper := compareDecimal digits power upper (exponent - 2)
  if mantissa % 2 = 0 then fromLower != .lt && fromUpper != .gt
  else fromLower == .gt && fromUpper == .lt

/-- The number of digits before the point; it counts the zeros behind the point as negative. -/
def scale (mantissa : Nat) (exponent : Int) : Int :=
  let whole := mantissa * Nat.pow 2 exponent.toNat / Nat.pow 2 (-exponent).toNat
  if whole = 0 then
    let inverse := (Nat.pow 2 (-exponent).toNat + mantissa - 1) / mantissa
    1 - (Nat.toDigits 10 (inverse - 1)).length
  else (Nat.toDigits 10 whole).length

def onGrid? (mantissa : Nat) (exponent power : Int) : Option Nat :=
  let below := mantissa * Nat.pow 2 exponent.toNat * Nat.pow 10 (-power).toNat
    / (Nat.pow 10 power.toNat * Nat.pow 2 (-exponent).toNat)
  match readsBack mantissa exponent below power, readsBack mantissa exponent (below + 1) power with
  | false, false => none
  | true, false => some below
  | false, true => some (below + 1)
  | true, true =>
      match compareDecimal (2 * below + 1) power (2 * mantissa) exponent with
      | .lt => some (below + 1)
      | .gt => some below
      | .eq => some (if below % 2 = 0 then below else below + 1)

/-- The digits of a positive fraction and the power of ten of the last one: of the grids with one
digit, two digits and so on, the first that has a number which reads back.  Seventeen digits are
enough; the exact value stands in for the case that they are not. -/
def shortest (mantissa : Nat) (exponent : Int) : Nat × Int :=
  let top := scale mantissa exponent
  let found := (List.range 17).findSome? fun n : Nat =>
    let power := top - (n + 1)
    (onGrid? mantissa exponent power).map fun digits => (digits, power)
  found.getD (mantissa * Nat.pow 2 exponent.toNat * Nat.pow 5 (-exponent).toNat, min exponent 0)

end Fraction
end PushValue
