import PushValue.Environment
import PushValue.Trace

/-!
# Frames

The stack of a process holds its pending contexts, the innermost first.  A frame
pairs a context with the trace gathered before the context was entered, so that
the two parts of the trace can be joined again when the frame is left.

Any object may stand where a context or a frame belongs.  A stray context is unknown
to the machine.  A stray frame is refused when it is asked for its context, unless it is
a running process: what that has under control is then taken for a context, and its
trace for that of a frame.
-/

namespace PushValue

/-- What a pending computation is waited for. -/
inductive Context where
  /-- The rest of a binding, with the environment in which it runs. -/
  | bind (env : Environment) (pattern : Pattern) (body : Computation)
  | bindBox (env : Environment) (pattern : Pattern) (body : Computation)
  /-- An argument, waiting for a function. -/
  | argument (value : Value)
  /-- A label, waiting for branches. -/
  | label (value : Value)
  /-- The boundary of a nest. -/
  | nest (name : Symbol)
  | stray (o : Object)
deriving DecidableEq, Inhabited

namespace Context

def toObject : Context -> Object
  | bind env p body => .node .bindContext [env.toObject, p.toObject, body.toObject]
  | bindBox env p body => .node .bindBoxContext [env.toObject, p.toObject, body.toObject]
  | argument v => .node .argumentContext [v.toObject]
  | label v => .node .labelContext [v.toObject]
  | nest s => .node .nestContext [s.toObject]
  | stray o => o

def ofObject : Object -> Context
  | .node .bindContext [env, p, e] =>
      bind (Environment.ofObject env) (Pattern.ofObject p) (Computation.ofObject e)
  | .node .bindBoxContext [env, p, e] =>
      bindBox (Environment.ofObject env) (Pattern.ofObject p) (Computation.ofObject e)
  | .node .argumentContext [v] => argument (Value.ofObject v)
  | .node .labelContext [v] => label (Value.ofObject v)
  | .node .nestContext [s] => nest (Symbol.ofObject s)
  | o => stray o

end Context

inductive Frame where
  | mk (context : Context) (trace : List Trace)
  | stray (o : Object)
deriving DecidableEq, Inhabited

namespace Frame

def context : Frame -> Except Lack Context
  | mk c _ => .ok c
  | stray (.node .running [c, _, _, _]) => .ok (Context.ofObject c)
  | stray o => .error (o.lack ["cont"])

def trace : Frame -> List Trace
  | mk _ ts => ts
  | stray (.node .running [_, _, _, .node .sequence ts]) => Trace.ofObjects ts
  | stray _ => []

def toObject : Frame -> Object
  | mk c ts => .node .frame [c.toObject, .sequence (Trace.toObjects ts)]
  | stray o => o

def ofObject : Object -> Frame
  | .node .frame [c, .node .sequence ts] => mk (Context.ofObject c) (Trace.ofObjects ts)
  | o => stray o

end Frame

abbrev Stack := List Frame

namespace Stack

/-- A symbol inside all the nests of a stack: the outermost nest comes first. -/
def qualify : Stack -> Symbol -> Symbol
  | [], s => s
  | f :: rest, s =>
      match f.context with
      | .ok (.nest n) => qualify rest (.within n s)
      | _ => qualify rest s

/-- Whether a returned value is recorded: it is when it leaves the process or a nest, and is not
when an enclosing context consumes it. -/
def recordsReturn : Stack -> Bool
  | [] => true
  | f :: _ =>
      match f.context with
      | .ok (.nest _) => true
      | _ => false

def checkTop : Stack -> Except Lack Unit
  | [] => .ok ()
  | f :: _ => do
      let _ <- f.context
      return ()

def check : Stack -> Except Lack Unit
  | [] => .ok ()
  | f :: rest => do
      let _ <- f.context
      check rest

end Stack

end PushValue
