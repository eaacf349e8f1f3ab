import PushValue.Machine.Frame

/-!
# Running processes

The state of a running process is the computation under control, the environment
in which it runs, the stack of pending contexts, and the trace gathered since the
last context was entered.
-/

namespace PushValue

structure Running where
  control : Computation
  env : Environment := .empty
  stack : Stack := []
  trace : List Trace := []
deriving DecidableEq, Inhabited

namespace Running

def start (body : Computation) (env : Environment) : Running :=
  { control := body, env }

/-- Enters a context: the trace is saved with the frame and a new one begins. -/
def push (r : Running) (context : Context) (next : Computation) : Running :=
  { r with control := next, stack := .mk context r.trace :: r.stack, trace := [] }

def record (r : Running) (entry : Trace) : Running :=
  { r with trace := r.trace ++ [entry] }

/-- Adds a return entry, where the stack asks for one. -/
def recordReturn (r : Running) (v : Value) : Running :=
  if r.stack.recordsReturn then r.record (.ret v) else r

/-- Puts the trace of a frame that was left back in front. -/
def rejoin (r : Running) (frame : Frame) : Running :=
  { r with trace := frame.trace ++ r.trace }

def resume (r : Running) (frame : Frame) (env : Environment) (next : Computation) : Running :=
  { r.rejoin frame with control := next, env }

def returning (r : Running) (v : Value) : Running := { r with control := .returned v }

def toObject (r : Running) : Object :=
  .node .running [r.control.toObject, r.env.toObject,
    .sequence (r.stack.reverse.map Frame.toObject), .sequence (Trace.toObjects r.trace)]

def ofObject? : Object -> Option Running
  | .node .running [c, env, .node .sequence stack, .node .sequence ts] =>
      some ⟨Computation.ofObject c, Environment.ofObject env,
        (stack.map Frame.ofObject).reverse, Trace.ofObjects ts⟩
  | _ => none

end Running

/-!
## Signals

A step that a single process cannot complete alone raises a signal.
-/

inductive Signal where
  | halt (value : Value)
  /-- Waits for a store entry. -/
  | awaitEntry (name : Symbol)
  /-- Waits for a process to halt. -/
  | awaitHalt (name : Symbol)
  | spawn (name : Symbol) (env : Environment) (body : Computation)
deriving DecidableEq

namespace Signal

def toObject : Signal -> Object
  | halt v => .node .haltSignal [v.toObject]
  | awaitEntry s => .node .awaitEntrySignal [s.toObject]
  | awaitHalt s => .node .awaitHaltSignal [s.toObject]
  | spawn s env body => .node .spawnSignal [s.toObject, env.toObject, body.toObject]

end Signal

end PushValue
