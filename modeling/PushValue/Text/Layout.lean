/-!
# Layout of printed text

The few arrangements that all printed forms share: items separated by
semicolons, bracketed listings, and entries of maps.
-/

namespace PushValue
namespace Text

def sequence (items : List String) : String := "; ".intercalate items

def listing (items : List String) : String := "[" ++ sequence items ++ "]"

def entry (key body : String) : String := key ++ " => " ++ body

def equality (equal : Bool) : String := if equal then " == " else " != "

end Text
end PushValue
