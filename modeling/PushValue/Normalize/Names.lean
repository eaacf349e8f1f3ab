/-!
# Name supplies

Normalization draws the names that it introduces from a supply.  A supply
either counts upwards behind a fixed base and never ends, or hands out the names
of a finite list.
-/

namespace PushValue

inductive NameSupply where
  | counter (base : String) (index : Int)
  | listed (names : List String)
deriving DecidableEq, Inhabited

namespace NameSupply

/-- The name that a counting supply gives at an index, whose digits are written out however many
there are. -/
def numbered (base : String) (index : Int) : String := base ++ toString index

def next? : NameSupply -> Option (String × NameSupply)
  | counter base index => some (numbered base index, counter base (index + 1))
  | listed [] => none
  | listed (x :: xs) => some (x, listed xs)

def take : Nat -> NameSupply -> List String × NameSupply
  | 0, supply => ([], supply)
  | n + 1, supply =>
      match supply.next? with
      | none => ([], supply)
      | some (x, rest) =>
          let (xs, rest) := take n rest
          (x :: xs, rest)

end NameSupply

end PushValue
