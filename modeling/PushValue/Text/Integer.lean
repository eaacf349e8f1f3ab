import PushValue.Text.Digit

/-!
# Integers in decimal notation

An integer is written as an optional sign and at least one decimal digit; the
digits may come from any script, and single underscores may stand between them.
A numeral may have any number of digits.
-/

namespace PushValue
namespace Text

/-- The values of a run of digits in which single underscores may separate digits. -/
def digits? : List Char -> Option (List Nat)
  | [] => none
  | [c] => (digit? c).map fun d => [d]
  | c :: '_' :: rest => do
      let d <- digit? c
      let ds <- digits? rest
      return d :: ds
  | c :: rest => do
      let d <- digit? c
      let ds <- digits? rest
      return d :: ds

def ofDigits (ds : List Nat) : Nat := ds.foldl (fun n d => 10 * n + d) 0

def integer? : List Char -> Option Int
  | '-' :: rest => (digits? rest).map fun ds => -(ofDigits ds : Int)
  | '+' :: rest => (digits? rest).map fun ds => (ofDigits ds : Int)
  | cs => (digits? cs).map fun ds => (ofDigits ds : Int)

example : integer? "-1_000".toList = some (-1000) := by decide

example : integer? "1__0".toList = none := by decide

example : integer? "+".toList = none := by decide

end Text
end PushValue
