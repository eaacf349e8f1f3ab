import PushValue.Object.Basic

/-!
# Objects as keys

A table finds its entries by their keys, so a key has to stay what it is.  Frames,
running processes, worlds and the faults that name their cause may change.  None of
them can be a key, and neither can an object that has one among its parts.
-/

namespace PushValue
namespace Object

mutual

/-- The first kind, from left to right, that keeps an object from being a key. -/
def unfitForKey? : Object -> Option Kind
  | scalar _ => none
  | node k os => if k.isKey then anyUnfitForKey? os else some k

def anyUnfitForKey? : List Object -> Option Kind
  | [] => none
  | o :: rest => o.unfitForKey?.or (anyUnfitForKey? rest)

end

end Object
end PushValue
