import PushValue.Machine.Step

/-!
# Stages of a process

A process goes through a lifecycle, and what a world knows of it is the stage
that it has reached.  It is pending until its first round, then runs; it may wait
for a store entry or for another process to halt, and it ends by halting with a
value or by failing.  A failed process keeps the state in which it failed.
-/

namespace PushValue

inductive Stage where
  | pending (body : Computation)
  | running (r : Running)
  | awaitingEntry (r : Running) (name : Symbol)
  | awaitingHalt (r : Running) (name : Symbol)
  | failed (r : Running) (f : Fault)
  | halted (value : Value) (trace : List Trace)
  | stray (o : Object)
deriving DecidableEq, Inhabited

namespace Stage

def toObject : Stage -> Object
  | pending body => .node .pendingStage [body.toObject]
  | running r => .node .runningStage [r.toObject]
  | awaitingEntry r s => .node .awaitingEntryStage [r.toObject, s.toObject]
  | awaitingHalt r s => .node .awaitingHaltStage [r.toObject, s.toObject]
  | failed r f => .node .failedStage [r.toObject, f.toObject]
  | halted v trace => .node .haltedStage [v.toObject, .sequence (Trace.toObjects trace)]
  | stray o => o

/-- The stage with a given process state, which has to be one of a running process. -/
private def reading (o r : Object) (stage : Running -> Stage) : Stage :=
  match Running.ofObject? r with
  | some r => stage r
  | none => stray o

def ofObject (o : Object) : Stage :=
  match o with
  | .node .pendingStage [e] => pending (Computation.ofObject e)
  | .node .runningStage [r] => reading o r running
  | .node .awaitingEntryStage [r, s] => reading o r (awaitingEntry · (Symbol.ofObject s))
  | .node .awaitingHaltStage [r, s] => reading o r (awaitingHalt · (Symbol.ofObject s))
  | .node .failedStage [r, f] => reading o r (failed · (Fault.ofObject f))
  | .node .haltedStage [v, .node .sequence ts] => halted (Value.ofObject v) (Trace.ofObjects ts)
  | o => stray o

end Stage

abbrev Processes := Table Symbol Stage

end PushValue
