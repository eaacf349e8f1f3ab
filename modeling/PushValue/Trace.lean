import PushValue.Term.Reading

/-!
# Traces

A trace records the effects of a process: what it put, got, linked to and
returned.  The effects performed inside a nest form one entry of their own.  The
machine writes traces and never reads them.
-/

namespace PushValue

inductive Trace where
  /-- A flat run of entries; hosts may group entries so, the machine does not. -/
  | sequence (items : List Trace)
  | nest (name : Symbol) (items : List Trace)
  | ret (value : Value)
  | put (name : Symbol) (value : Value)
  | get (name : Symbol) (value : Value)
  | link (target result : Value)
  /-- An object that is no trace. -/
  | stray (o : Object)
deriving Inhabited

namespace Trace

mutual

def toObject : Trace -> Object
  | sequence items => .node .sequenceTrace [.sequence (toObjects items)]
  | nest s items => .node .nestTrace [s.toObject, .sequence (toObjects items)]
  | ret v => .node .retTrace [v.toObject]
  | put s v => .node .putTrace [s.toObject, v.toObject]
  | get s v => .node .getTrace [s.toObject, v.toObject]
  | link t v => .node .linkTrace [t.toObject, v.toObject]
  | stray o => o

def toObjects : List Trace -> List Object
  | [] => []
  | t :: rest => t.toObject :: toObjects rest

end

mutual

def ofObject : Object -> Trace
  | .node .sequenceTrace [.node .sequence items] => sequence (ofObjects items)
  | .node .nestTrace [s, .node .sequence items] => nest (Symbol.ofObject s) (ofObjects items)
  | .node .retTrace [v] => ret (Value.ofObject v)
  | .node .putTrace [s, v] => put (Symbol.ofObject s) (Value.ofObject v)
  | .node .getTrace [s, v] => get (Symbol.ofObject s) (Value.ofObject v)
  | .node .linkTrace [t, v] => link (Value.ofObject t) (Value.ofObject v)
  | o => stray o

def ofObjects : List Object -> List Trace
  | [] => []
  | o :: rest => ofObject o :: ofObjects rest

end

/-!
## Equality

Entries are compared part by part.
-/

mutual

def same : Trace -> Trace -> Bool
  | sequence xs, sequence ys => sameAll xs ys
  | nest s xs, nest t ys => s == t && sameAll xs ys
  | ret v, ret w => v == w
  | put s v, put t w => s == t && v == w
  | get s v, get t w => s == t && v == w
  | link u v, link t w => u == t && v == w
  | stray o, stray p => o == p
  | _, _ => false

def sameAll : List Trace -> List Trace -> Bool
  | [], [] => true
  | x :: xs, y :: ys => same x y && sameAll xs ys
  | _, _ => false

end

mutual

theorem same_iff (x y : Trace) : same x y = true ↔ x = y := by
  match x with
  | sequence xs => cases y <;> simp [same, sameAll_iff xs]
  | nest s xs => cases y <;> simp [same, sameAll_iff xs]
  | ret v => cases y <;> simp [same]
  | put s v => cases y <;> simp [same]
  | get s v => cases y <;> simp [same]
  | link t v => cases y <;> simp [same]
  | stray o => cases y <;> simp [same]

theorem sameAll_iff (xs ys : List Trace) : sameAll xs ys = true ↔ xs = ys := by
  match xs with
  | [] => cases ys <;> simp [sameAll]
  | x :: xs => cases ys <;> simp [sameAll, same_iff x, sameAll_iff xs]

end

instance : DecidableEq Trace := fun x y => decidable_of_iff _ (same_iff x y)

end Trace

end PushValue
