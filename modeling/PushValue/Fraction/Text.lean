import PushValue.Fraction.Digits
import PushValue.Text.Integer

/-!
# The text of fractions

A fraction is written with at least one digit on each side of the point, and from
ten thousand million million on, or below a ten-thousandth, with a power of ten.
-/

namespace PushValue
namespace Fraction

/-!
## Writing
-/

/-- Significant digits with the point behind the given number of them. -/
def positional (ds : List Char) (point : Int) : List Char :=
  if point ≤ 0 then '0' :: '.' :: (List.replicate point.natAbs '0' ++ ds)
  else
    let whole := point.toNat
    let behind := if ds.length ≤ whole then ['0'] else ds.drop whole
    ds.take whole ++ List.replicate (whole - ds.length) '0' ++ '.' :: behind

def scientific (ds : List Char) (power : Int) : List Char :=
  let mantissa :=
    match ds with
    | d :: e :: rest => d :: '.' :: e :: rest
    | ds => ds
  let sign := if power < 0 then '-' else '+'
  let digits := Nat.toDigits 10 power.natAbs
  mantissa ++ 'e' :: sign :: (List.replicate (2 - digits.length) '0' ++ digits)

def layout (digits : Nat) (power : Int) : List Char :=
  let ds := Nat.toDigits 10 digits
  let leading : Int := ds.length + power - 1
  let significant := (ds.reverse.dropWhile (· == '0')).reverse
  if -4 ≤ leading ∧ leading < 16 then positional significant (leading + 1)
  else scientific significant leading

def signed (negative : Bool) (cs : List Char) : String :=
  String.ofList (if negative then '-' :: cs else cs)

def text : Fraction -> String
  | finite negative 0 _ => signed negative "0.0".toList
  | finite negative mantissa exponent =>
      let (digits, power) := shortest mantissa exponent
      signed negative (layout digits power)
  | infinite negative => signed negative "inf".toList
  | undefined => "nan"

/-!
## Reading

A fraction is read as an optional sign, digits, a point with further digits, and a
power of ten; it need have only one of the last two.
-/

def ofDigitChars (cs : List Char) : Nat := Text.ofDigits (cs.map fun c => c.toNat - '0'.toNat)

def ofUnsigned? (negative : Bool) (cs : List Char) : Option Fraction :=
  if cs = "Infinity".toList then some (infinite negative)
  else if cs = "NaN".toList then some undefined
  else
    let (whole, rest) := cs.span Char.isDigit
    let (behind, rest) :=
      match rest with
      | '.' :: rest => rest.span Char.isDigit
      | rest => ([], rest)
    let power? :=
      match rest with
      | [] => some 0
      | c :: power => if c = 'e' ∨ c = 'E' then Text.integer? power else none
    power?.map fun power =>
      ofDecimal negative (ofDigitChars (whole ++ behind)) (power - behind.length)

def ofText? : List Char -> Option Fraction
  | '-' :: rest => ofUnsigned? true rest
  | rest => ofUnsigned? false rest

example : (ofText? "-100000.0".toList).map text = some "-100000.0" := by decide +kernel

example : (ofText? "0.30000000000000004".toList).map text = some "0.30000000000000004" := by
  decide +kernel

example : (ofText? "2.98023223876953125e-8".toList).map text = some "2.9802322387695312e-08" := by
  decide +kernel

example : (ofText? "1E23".toList).map text = some "1e+23" := by decide +kernel

example : (ofText? "4.9e-324".toList).map text = some "5e-324" := by decide +kernel

end Fraction
end PushValue
