import PushValue.Object.Render
import PushValue.Symbol.Order

/-!
# Sorting symbols

Hosts may ask for symbols in order.  Objects that are no symbols, or have a part
that should be one and is not, cannot be sorted.  Maps inside objects are sorted by
their keys, strays last.
-/

namespace PushValue
namespace Symbol

/-- The objects in the order of the symbols that they are; equal ones keep their places. -/
def sort (os : List Object) : Except ObjectError (List Object) :=
  if os.all Object.isSymbol then
    .ok (os.mergeSort fun a b => (compare (ofObject a) (ofObject b)).isLE)
  else .error .notSymbol

end Symbol

namespace Object

def named (es : List (String × Object)) : Object :=
  mapping ((es.mergeSort fun a b => (compare a.1 b.1).isLE).map fun e => (text e.1, e.2))

def keyed (es : List (Object × Object)) : Object :=
  mapping (es.mergeSort fun a b =>
    (compare (Symbol.ofObject a.1) (Symbol.ofObject b.1)).isLE)

end Object
end PushValue
