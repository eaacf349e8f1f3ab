import PushValue.Table.Basic
import PushValue.Term.Reading

/-!
# Environments

An environment binds names to values and, separately, names to boxes.  The two
kinds of names do not meet: extracting a box forgets the values in scope and
installs the boxes that it captured.

Any object may stand where an environment belongs.  Such a stray is handed on like an
environment and is refused when it is asked for its bindings or for a new one.
-/

namespace PushValue

inductive Environment where
  | mk (values : Table String Value) (boxes : Boxes)
  | stray (o : Object)
deriving DecidableEq

namespace Environment

def empty : Environment := mk {} .nil

instance : Inhabited Environment := ⟨empty⟩

def values : Environment -> Except Lack (Table String Value)
  | mk vs _ => .ok vs
  | stray o => .error (o.lack ["vals"])

/-- The boxes in scope; a box that stands for an environment has those that it captured. -/
def boxes : Environment -> Except Lack Boxes
  | mk _ bs => .ok bs
  | stray (.node .box [_, _, .node .mapping bs]) => .ok (Boxes.ofEntries bs)
  | stray o => .error (o.lack ["bxes"])

def bind (x : String) (v : Value) : Environment -> Except Lack Environment
  | mk vs bs => .ok (mk (vs.insert x v) bs)
  | stray o => .error (o.lack ["bind"])

def bindBox (x : String) (b : Box) : Environment -> Except Lack Environment
  | mk vs bs => .ok (mk vs (bs.insert x b))
  | stray o => .error (o.lack ["bind_box"])

def toObject : Environment -> Object
  | mk vs bs =>
      .node .environment
        [.mapping (vs.entries.map fun e => (.text e.1, e.2.toObject)), bs.toObject]
  | stray o => o

def ofObject : Object -> Environment
  | .node .environment [.node .mapping vs, .node .mapping bs] =>
      mk (.ofList ((Object.namedEntries vs).map fun e => (e.1, Value.ofObject e.2)))
        (Boxes.ofEntries bs)
  | o => stray o

end Environment

/-- The environment in which the code of a box runs: no value is in scope but the box itself, under
its own name if it has one, and the boxes in scope are those that it captured. -/
def Box.scope (code : Computation) (self : Option String) (captured : Boxes) : Environment :=
  match self with
  | some x => .mk (Table.empty.insert x (.box (.mk code self captured))) captured
  | none => .mk Table.empty captured

def Box.unpack : Box -> Except Lack (Computation × Environment)
  | .mk code self captured => .ok (code, scope code self captured)
  | .stray o => .error (o.lack ["name", "bxes", "code"])

end PushValue
