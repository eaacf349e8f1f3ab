import PushValue.Object.Render
import PushValue.Term.Reading

/-!
# Faults and breakages

A fault is an error of the program that runs: it ends one process and leaves the
others alone.  A breakage is an error of the interpretation itself, such as a
term of the wrong sort at the head of a process; it ends the round.
-/

namespace PushValue

/-!
## Faults
-/

inductive Fault where
  | undefinedVariable (name : String)
  | operandLeft
  | notRecord
  | notVariant
  | fieldNotFound (label : Value)
  | variantMismatch (expected found : Value)
  | undefinedBox (name : String)
  | switchNotVariant (value : Value)
  | missingCase (label : Symbol)
  | missingBranch (label : Symbol)
  | noStep
  | notSymbol (value : Value)
  | notPointer (value : Value)
  | notLinkTarget (value : Value)
  | noSuchProcess (name : Symbol)
  | undefinedEntry (name : Symbol)
  | duplicateName (name : Symbol)
  | assertionFailed (left : Value) (equal : Bool) (right : Value)
  /-- A fault that no process raises, or an object that is no fault. -/
  | stray (o : Object)
deriving DecidableEq

namespace Fault

def toObject : Fault -> Object
  | undefinedVariable x => .node .undefinedVariable [.text x]
  | operandLeft => .node .operandLeft []
  | notRecord => .node .notRecord []
  | notVariant => .node .notVariant []
  | fieldNotFound l => .node .fieldNotFound [l.toObject]
  | variantMismatch l m => .node .variantMismatch [l.toObject, m.toObject]
  | undefinedBox x => .node .undefinedBox [.text x]
  | switchNotVariant v => .node .switchNotVariant [v.toObject]
  | missingCase s => .node .missingCase [s.toObject]
  | missingBranch s => .node .missingBranch [s.toObject]
  | noStep => .node .noStep []
  | notSymbol v => .node .notSymbol [v.toObject]
  | notPointer v => .node .notPointer [v.toObject]
  | notLinkTarget v => .node .notLinkTarget [v.toObject]
  | noSuchProcess s => .node .noSuchProcess [s.toObject]
  | undefinedEntry s => .node .undefinedEntry [s.toObject]
  | duplicateName s => .node .duplicateName [s.toObject]
  | assertionFailed v equal w => .node .assertionFailed [v.toObject, .flag equal, w.toObject]
  | stray o => o

def ofObject : Object -> Fault
  | .node .undefinedVariable [.scalar (.text x)] => undefinedVariable x
  | .node .operandLeft [] => operandLeft
  | .node .notRecord [] => notRecord
  | .node .notVariant [] => notVariant
  | .node .fieldNotFound [l] => fieldNotFound (Value.ofObject l)
  | .node .variantMismatch [l, m] => variantMismatch (Value.ofObject l) (Value.ofObject m)
  | .node .undefinedBox [.scalar (.text x)] => undefinedBox x
  | .node .switchNotVariant [v] => switchNotVariant (Value.ofObject v)
  | .node .missingCase [s] => missingCase (Symbol.ofObject s)
  | .node .missingBranch [s] => missingBranch (Symbol.ofObject s)
  | .node .noStep [] => noStep
  | .node .notSymbol [v] => notSymbol (Value.ofObject v)
  | .node .notPointer [v] => notPointer (Value.ofObject v)
  | .node .notLinkTarget [v] => notLinkTarget (Value.ofObject v)
  | .node .noSuchProcess [s] => noSuchProcess (Symbol.ofObject s)
  | .node .undefinedEntry [s] => undefinedEntry (Symbol.ofObject s)
  | .node .duplicateName [s] => duplicateName (Symbol.ofObject s)
  | .node .assertionFailed [v, .scalar (.boolean equal), w] =>
      assertionFailed (Value.ofObject v) equal (Value.ofObject w)
  | o => stray o

end Fault

/-!
## Breakages
-/

inductive Breakage where
  | holeAtHead
  | notValue
  | notPattern
  | notComputation
  | notProcess
  | unknownFrame
  | notSymbol
  | nameReserved (name : Symbol)
  | nameTaken (name : Symbol)
  | lacks (l : Lack)
  /-- An object of a kind that cannot be a key was to be looked up. -/
  | unfitKey (k : Kind)
  /-- A part was to be changed of an object that does not change. -/
  | fixedPart (part : String)
deriving DecidableEq

namespace Breakage

def message : Breakage -> Printed
  | holeAtHead => "hole reached the head of a running process"
  | notValue => "not a value"
  | notPattern => "not a pattern"
  | notComputation => "not a computation"
  | notProcess => "not a process"
  | unknownFrame => "unknown frame"
  | notSymbol => ObjectError.notSymbol.message
  | nameReserved s => Printed.chain ["spawn name already reserved: ", s.toObject.render]
  | nameTaken s => Printed.chain ["spawn name already a process: ", s.toObject.render]
  | lacks l => l.message
  | unfitKey k => "unhashable type: '" ++ k.title ++ "'"
  | fixedPart part => "cannot assign to field '" ++ part ++ "'"

end Breakage

inductive Failure where
  | fault (f : Fault)
  | breakage (b : Breakage)
deriving DecidableEq

namespace Failure

def message : Failure -> Printed
  | fault f => f.toObject.render
  | breakage b => b.message

def ofBreakage {α : Type} : Except Breakage α -> Except Failure α
  | .ok a => .ok a
  | .error b => .error (.breakage b)

/-- A result that breaks where a part is missing. -/
def ofLack {α : Type} : Except Lack α -> Except Failure α
  | .ok a => .ok a
  | .error l => .error (.breakage (.lacks l))

end Failure

end PushValue
