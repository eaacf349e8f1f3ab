import PushValue.Normalize.Names
import PushValue.Term.Basic

/-!
# Hoisting operands

Normalization moves every computation that stands as an operand into a binding
around its point of use and leaves a fresh variable behind, so that afterwards
only values stand where values belong.

Hoisting a term returns the term with variables in place of its operands,
together with the bindings in the order in which they were collected.  Closing
wraps them around the term so that the binding collected last is the outermost
one and is evaluated first.  Sub-computations with a scope of their own (the two
parts of a binding, the bodies of functions, nests, processes, cases and
branches, and the code of a box) are closed where they stand, so nothing is
moved out of a binder, a nest or a process.  Patterns and captured boxes stay as
they are.

A foreign part is refused once its label is dealt with, unless it has all that its
place asks for: a case among branches becomes a branch.
-/

namespace PushValue

inductive NormalizeError where
  | namesExhausted
  | notValue
  | notComputation
  | returnMarker
  | lacks (l : Lack)
deriving DecidableEq

namespace NormalizeError

def message : NormalizeError -> String
  | namesExhausted => ""
  | notValue => "not a value"
  | notComputation => "not a computation"
  | returnMarker => "internal return marker in input term"
  | lacks l => l.message

end NormalizeError

/-- A hoisted operand and the name that stands for it. -/
structure Binding where
  name : String
  bound : Computation
deriving DecidableEq

abbrev Hoist := StateT NameSupply (Except NormalizeError)

namespace Hoist

def fresh : Hoist String := fun supply =>
  match supply.next? with
  | some drawn => .ok drawn
  | none => .error .namesExhausted

end Hoist

/-- Wraps bindings around a computation, the last one outermost. -/
def Computation.close (bindings : List Binding) (e : Computation) : Computation :=
  bindings.foldl (fun e b => .bind (.variable b.name) b.bound e) e

mutual

def Value.hoist : Value -> Hoist (Value × List Binding)
  | .operand e => do
      let (e, bs) <- e.hoist
      let x <- Hoist.fresh
      return (.variable x, [⟨x, e.close bs⟩])
  | .box b => do
      let b <- b.hoist
      return (.box b, [])
  | .record fs => do
      let (fs, bs) <- fs.hoist
      return (.record fs, bs)
  | .extend base l v => do
      let (base, bs) <- base.hoist
      let (l, cs) <- l.hoist
      let (v, ds) <- v.hoist
      return (.extend base l v, bs ++ cs ++ ds)
  | .extendBy base p => do
      let _ <- base.hoist
      let _ <- p.hoistLabel
      throw (.lacks (p.lack ["value"]))
  | .variant l p => do
      let (l, bs) <- l.hoist
      let (p, cs) <- p.hoist
      return (.variant l p, bs ++ cs)
  | .number n => return (.number n, [])
  | .symbol s => return (.symbol s, [])
  | .pointer s => return (.pointer s, [])
  | .process s => return (.process s, [])
  | .variable x => return (.variable x, [])
  | .stray _ => throw .notValue

def Fields.hoist : Fields -> Hoist (Fields × List Binding)
  | .nil => return (.nil, [])
  | .cons l v rest => do
      let (l, bs) <- l.hoist
      let (v, cs) <- v.hoist
      let (rest, ds) <- rest.hoist
      return (.cons l v rest, bs ++ cs ++ ds)
  | .foreign p _ => do
      let _ <- p.hoistLabel
      throw (.lacks (p.lack ["value"]))

def Box.hoist : Box -> Hoist Box
  | .mk code self captured => do
      let (code, bs) <- code.hoist
      return .mk (code.close bs) self captured
  | .stray o => throw (.lacks (o.lack ["code"]))

def Computation.hoist : Computation -> Hoist (Computation × List Binding)
  | .hole => return (.hole, [])
  | .returned _ => throw .returnMarker
  | .ret v => do
      let (v, bs) <- v.hoist
      return (.ret v, bs)
  | .extract v => do
      let (v, bs) <- v.hoist
      return (.extract v, bs)
  | .get v => do
      let (v, bs) <- v.hoist
      return (.get v, bs)
  | .link v => do
      let (v, bs) <- v.hoist
      return (.link v, bs)
  | .put s v => do
      let (s, bs) <- s.hoist
      let (v, cs) <- v.hoist
      return (.put s v, bs ++ cs)
  | .assert a equal b => do
      let (a, bs) <- a.hoist
      let (b, cs) <- b.hoist
      return (.assert a equal b, bs ++ cs)
  | .nest v e => do
      let (v, bs) <- v.hoist
      let (e, cs) <- e.hoist
      return (.nest v (e.close cs), bs)
  | .spawn v e => do
      let (v, bs) <- v.hoist
      let (e, cs) <- e.hoist
      return (.spawn v (e.close cs), bs)
  | .apply e v => do
      let (v, bs) <- v.hoist
      let (e, cs) <- e.hoist
      return (.apply e v, bs ++ cs)
  | .project e v => do
      let (v, bs) <- v.hoist
      let (e, cs) <- e.hoist
      return (.project e v, bs ++ cs)
  | .lambda p e => do
      let (e, bs) <- e.hoist
      return (.lambda p (e.close bs), [])
  | .bind p e₁ e₂ => do
      let (e₁, bs) <- e₁.hoist
      let (e₂, cs) <- e₂.hoist
      return (.bind p (e₁.close bs) (e₂.close cs), [])
  | .bindBox p e₁ e₂ => do
      let (e₁, bs) <- e₁.hoist
      let (e₂, cs) <- e₂.hoist
      return (.bindBox p (e₁.close bs) (e₂.close cs), [])
  | .switch v cases => do
      let (v, bs) <- v.hoist
      let (cases, cs) <- cases.hoist
      return (.switch v cases, bs ++ cs)
  | .branches alternatives => do
      let (alternatives, bs) <- alternatives.hoist
      return (.branches alternatives, bs)
  | .stray _ => throw .notComputation

/-- The labels of the cases share the bindings of the switch; the bodies do not. -/
def Cases.hoist : Cases -> Hoist (Cases × List Binding)
  | .nil => return (.nil, [])
  | .cons l p e rest => do
      let (l, bs) <- l.hoist
      let (e, cs) <- e.hoist
      let (rest, ds) <- rest.hoist
      return (.cons l p (e.close cs) rest, bs ++ ds)
  | .foreign p _ => do
      let _ <- p.hoistLabel
      throw (.lacks (p.lack ["pattern", "body"]))

def Branches.hoist : Branches -> Hoist (Branches × List Binding)
  | .nil => return (.nil, [])
  | .cons l e rest => do
      let (l, bs) <- l.hoist
      let (e, cs) <- e.hoist
      let (rest, ds) <- rest.hoist
      return (.cons l (e.close cs) rest, bs ++ ds)
  | .foreign p rest => do
      let (l, e, bs) <- p.hoistBranch
      let (rest, ds) <- rest.hoist
      return (.cons l e rest, bs ++ ds)

def Part.hoistLabel : Part -> Hoist (Value × List Binding)
  | .field l _ | .fieldPattern l _ | .case l _ _ | .branch l _ | .labelled l _ => l.hoist
  | .stray o => throw (.lacks (o.lack ["label"]))

def Part.hoistBranch : Part -> Hoist (Value × Computation × List Binding)
  | .case l _ e | .branch l e => do
      let (l, bs) <- l.hoist
      let (e, cs) <- e.hoist
      return (l, e.close cs, bs)
  | .field l v => do
      let _ <- l.hoist
      throw (.lacks (Part.lack (.field l v) ["body"]))
  | .fieldPattern l p => do
      let _ <- l.hoist
      throw (.lacks (Part.lack (.fieldPattern l p) ["body"]))
  | .labelled l o => do
      let _ <- l.hoist
      throw (.lacks (o.lack ["body"]))
  | .stray o => throw (.lacks (o.lack ["label"]))

end

/-- Hoists every operand of a computation; the result comes with the names not used. -/
def Computation.normalize (e : Computation) (supply : NameSupply) :
    Except NormalizeError (Computation × NameSupply) := do
  let ((e, bs), supply) <- e.hoist.run supply
  return (e.close bs, supply)

end PushValue
