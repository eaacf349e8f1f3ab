/-!
# Unpaired halves

Hosts write a character beyond the first plane as two halves, and a text of theirs may
hold one half without the other.  A half is no character.  It is carried as a
character of the last private plane that stands in for it.
-/

namespace PushValue
namespace Text

def firstHalf : Nat := 0xD800

def firstClosingHalf : Nat := 0xDC00

def halvesEnd : Nat := 0xE000

def firstStandIn : Nat := 0x10F000

def isHalf (n : Nat) : Bool := firstHalf ≤ n && n < halvesEnd

def isPair (m n : Nat) : Bool :=
  firstHalf ≤ m && m < firstClosingHalf && firstClosingHalf ≤ n && n < halvesEnd

/-- The character that stands in for a half. -/
def standIn (half : Nat) : Char := Char.ofNat (firstStandIn + (half - firstHalf))

def half? (c : Char) : Option Nat :=
  let n := c.toNat
  if firstStandIn ≤ n && n < firstStandIn + (halvesEnd - firstHalf) then
    some (n - firstStandIn + firstHalf)
  else none

example : half? (standIn 0xD800) = some 0xD800 := by decide

example : half? (standIn 0xDFFF) = some 0xDFFF := by decide

end Text
end PushValue
