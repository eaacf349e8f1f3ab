import PushValue.Object.Basic

/-!
# Symbols

Symbols are the structured names of the language.  Store entries, processes,
nests, variant labels and record labels are all named by symbols.  A symbol is
atomic (the anonymous root, a number, a name, a mark) or is built from smaller
symbols by joining them side by side, by joining them around a mark, or by
placing one within the other.

Two symbols may have the same text and still be different: the name `a1`
is not the join of `a` and `1`.

Hosts check nothing, so any object may stand where a symbol belongs.  Such a stray
is carried along like a symbol, but has no place in the order of symbols.
-/

namespace PushValue

inductive Separator where
  | dash
  | underscore
  | dot
  | tick
deriving DecidableEq, Inhabited

namespace Separator

def text : Separator -> String
  | dash => "-"
  | underscore => "_"
  | dot => "."
  | tick => "'"

def ofText? : String -> Option Separator
  | "-" => some dash
  | "_" => some underscore
  | "." => some dot
  | "'" => some tick
  | _ => none

theorem ofText?_text (s : Separator) : ofText? s.text = some s := by
  cases s <;> rfl

theorem text_of_ofText? {x : String} {s : Separator} (h : ofText? x = some s) : s.text = x := by
  unfold ofText? at h
  split at h <;> cases h <;> rfl

end Separator

inductive Symbol where
  /-- The anonymous root; the first process of a world carries it. -/
  | anonymous
  | number (value : Int)
  | name (text : String)
  /-- Two symbols side by side. -/
  | join (left right : Symbol)
  /-- A symbol qualified by the nest around it. -/
  | within (outer inner : Symbol)
  /-- Two symbols with a mark between them. -/
  | joinBy (left mark right : Symbol)
  | mark (separator : Separator)
  /-- An object that is no symbol. -/
  | stray (o : Object)
deriving DecidableEq

instance : Inhabited Symbol := ⟨.anonymous⟩

namespace Symbol

/-- Whether a symbol has no stray in it. -/
def isProper : Symbol -> Bool
  | anonymous | number _ | name _ | mark _ => true
  | join l r => l.isProper && r.isProper
  | within o i => o.isProper && i.isProper
  | joinBy l m r => l.isProper && m.isProper && r.isProper
  | stray _ => false

/-!
## Symbols as objects
-/

def toObject : Symbol -> Object
  | anonymous => .node .anonymous []
  | number n => .node .numberSymbol [.scalar (.integer n)]
  | name x => .node .nameSymbol [.text x]
  | join l r => .node .joinSymbol [l.toObject, r.toObject]
  | within o i => .node .withinSymbol [o.toObject, i.toObject]
  | joinBy l m r => .node .joinBySymbol [l.toObject, m.toObject, r.toObject]
  | mark s => .node .markSymbol [.text s.text]
  | stray o => o

def ofObject : Object -> Symbol
  | .node .anonymous [] => anonymous
  | .node .numberSymbol [.scalar (.integer n)] => number n
  | .node .nameSymbol [.scalar (.text x)] => name x
  | .node .joinSymbol [l, r] => join (ofObject l) (ofObject r)
  | .node .withinSymbol [o, i] => within (ofObject o) (ofObject i)
  | .node .joinBySymbol [l, m, r] => joinBy (ofObject l) (ofObject m) (ofObject r)
  | .node .markSymbol [.scalar (.text x)] =>
      match Separator.ofText? x with
      | some s => mark s
      | none => stray (.node .markSymbol [.text x])
  | o => stray o

/-- Reading an object as a symbol loses nothing of it. -/
theorem toObject_ofObject (o : Object) : (ofObject o).toObject = o := by
  fun_induction ofObject o with
  | case1 => rfl
  | case2 => rfl
  | case3 => rfl
  | case4 l r hl hr => rw [toObject, hl, hr]
  | case5 o i ho hi => rw [toObject, ho, hi]
  | case6 l m r hl hm hr => rw [toObject, hl, hm, hr]
  | case7 x s h => rw [toObject, Separator.text_of_ofText? h]; rfl
  | case8 => rfl
  | case9 => rfl

end Symbol

end PushValue
