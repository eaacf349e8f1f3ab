import PushValue.Symbol.Basic

/-!
# Terms

The language is a concurrent call-by-push-value calculus.  Values are data and
computations are programs; a box turns a computation into a value, and its code
runs when the box is extracted.  A computation may also stand as an operand
where a value belongs; normalization moves such operands out of the way before
the machine runs.

Terms come from a host that checks nothing, so any object may stand where a term
belongs.  Each sort of term therefore has a form for what is out of place.  A stray
is an object in the place of a value, a pattern, a computation or a box.  A foreign
part is one that stands in a list of parts of another sort; what can be read of it,
such as a label, is read, for some uses of a part ask for no more.  Strays and
foreign parts are carried along and are refused where their place has to be
understood.
-/

namespace PushValue

mutual

inductive Value where
  | number (value : Int)
  | symbol (s : Symbol)
  /-- A pointer to the store entry under a symbol. -/
  | pointer (s : Symbol)
  /-- A handle on the process named by a symbol. -/
  | process (s : Symbol)
  | variable (name : String)
  | variant (label payload : Value)
  | record (fields : Fields)
  /-- A record with one more field in front of those of its base. -/
  | extend (base label value : Value)
  /-- A record extended by a part that is no field. -/
  | extendBy (base : Value) (part : Part)
  | box (b : Box)
  /-- A computation in operand position, to be run for its value. -/
  | operand (e : Computation)
  | stray (o : Object)

inductive Fields where
  | nil
  | cons (label value : Value) (rest : Fields)
  | foreign (part : Part) (rest : Fields)

/-- Suspended code with an optional name for itself and the boxes it captured. -/
inductive Box where
  | mk (code : Computation) (self : Option String) (captured : Boxes)
  | stray (o : Object)

inductive Boxes where
  | nil
  | cons (name : String) (box : Box) (rest : Boxes)

inductive Pattern where
  | ignore
  | variable (name : String)
  | fields (parts : FieldPatterns)
  | variant (label : Value) (payload : Pattern)
  /-- A variant pattern made of a part that is no labelled pattern. -/
  | variantBy (part : Part)
  | stray (o : Object)

inductive FieldPatterns where
  | nil
  | cons (label : Value) (pattern : Pattern) (rest : FieldPatterns)
  | foreign (part : Part) (rest : FieldPatterns)

inductive Computation where
  /-- Runs the body with every store name qualified by a symbol. -/
  | nest (name : Value) (body : Computation)
  /-- Starts the body as a process of its own. -/
  | spawn (name : Value) (body : Computation)
  | put (name value : Value)
  | get (pointer : Value)
  /-- Waits for a store entry to exist, or for a process to halt. -/
  | link (target : Value)
  | assert (left : Value) (equal : Bool) (right : Value)
  | lambda (parameter : Pattern) (body : Computation)
  | apply (function : Computation) (argument : Value)
  | bind (pattern : Pattern) (bound body : Computation)
  | bindBox (pattern : Pattern) (bound body : Computation)
  | ret (value : Value)
  /-- A resolved value on its way to the enclosing frame; only the machine writes it. -/
  | returned (value : Value)
  | switch (scrutinee : Value) (cases : Cases)
  | branches (alternatives : Branches)
  | project (object : Computation) (label : Value)
  /-- Runs the code of a box. -/
  | extract (box : Value)
  /-- Stands for a sub-computation that a snapshot leaves out. -/
  | hole
  | stray (o : Object)

inductive Cases where
  | nil
  | cons (label : Value) (pattern : Pattern) (body : Computation) (rest : Cases)
  | foreign (part : Part) (rest : Cases)

inductive Branches where
  | nil
  | cons (label : Value) (body : Computation) (rest : Branches)
  | foreign (part : Part) (rest : Branches)

/-- The parts of values, patterns and computations, and objects in the place of a part. -/
inductive Part where
  | field (label value : Value)
  | fieldPattern (label : Value) (pattern : Pattern)
  | case (label : Value) (pattern : Pattern) (body : Computation)
  | branch (label : Value) (body : Computation)
  /-- Any other object that has a label. -/
  | labelled (label : Value) (o : Object)
  | stray (o : Object)

end

deriving instance DecidableEq for Value, Fields, Box, Boxes, Pattern, FieldPatterns, Computation,
  Cases, Branches, Part

instance : Inhabited Value := ⟨.number 0⟩

instance : Inhabited Pattern := ⟨.ignore⟩

instance : Inhabited Computation := ⟨.hole⟩

def Value.unit : Value := .record .nil

/-- Performs a computation for its effects and goes on with another one. -/
def Computation.andThen (first next : Computation) : Computation := .bind .ignore first next

/-!
## What a part has

A part that is asked for what it does not have is refused.
-/

namespace Part

def shell : Part -> Object
  | field _ _ => .node .field []
  | fieldPattern _ _ => .node .fieldPattern []
  | case _ _ _ => .node .case []
  | branch _ _ => .node .branch []
  | labelled _ o | stray o => o

def lack (p : Part) (names : List String) : Lack := p.shell.lack names

def label : Part -> Except Lack Value
  | field l _ | fieldPattern l _ | case l _ _ | branch l _ | labelled l _ => .ok l
  | stray o => .error (o.lack ["label"])

def value : Part -> Except Lack Value
  | field _ v => .ok v
  | p => .error (p.lack ["value"])

def pattern : Part -> Except Lack Pattern
  | fieldPattern _ p | case _ p _ => .ok p
  | p => .error (p.lack ["pattern"])

def body : Part -> Except Lack Computation
  | case _ _ e | branch _ e => .ok e
  | p => .error (p.lack ["body"])

end Part

end PushValue
