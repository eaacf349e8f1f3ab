import PushValue.Process.Stage

/-!
# Visiting a process

In each round every process is visited once and advanced by at most one step.
The visit turns signals into changes of the lifecycle.  It reads the process
table as it was at the start of the round.

A visit also says how the process would be found if the round were given up: its
stage in the lifecycle is then the one it had, but its machine state is the one
that the step left.
-/

namespace PushValue

inductive Visit.Outcome where
  /-- The process cannot step and stays as it is. -/
  | resting
  | moved (next : Stage)
  /-- The process moved and asks for a child process. -/
  | spawned (next : Stage) (name : Symbol) (child : Stage)
  | broken (b : Breakage)
deriving DecidableEq

/-- A visit, with the store that it leaves and the process as an abandoned round leaves it. -/
structure Visit where
  outcome : Visit.Outcome
  store : Store
  left : Stage
deriving DecidableEq

namespace Stage

def advance (table : Processes) (a : Attempt) : Visit.Outcome :=
  match a.outcome with
  | .moved => .moved (running a.running)
  | .signal (.halt v) => .moved (halted v a.running.trace)
  | .signal (.awaitEntry s) => .moved (awaitingEntry a.running s)
  | .signal (.awaitHalt s) => .moved (awaitingHalt a.running s)
  | .signal (.spawn name env body) =>
      if table.contains name then .moved (failed a.running (.duplicateName name))
      else .spawned (running a.running) name (running (Running.start body env))
  | .failed (.fault f) => .moved (failed a.running f)
  | .failed (.breakage b) => .broken b

def seek (store : Store) (p : Stage) (s : Symbol) (next : Symbol -> Visit) : Visit :=
  match s.asKey with
  | .ok s => next s
  | .error b => ⟨.broken b, store, p⟩

@[simp]
theorem seek_of_isProper (store : Store) (p : Stage) {s : Symbol} (h : s.isProper)
    (next : Symbol -> Visit) : seek store p s next = next s := by
  simp [seek, Symbol.asKey_of_isProper h]

/-!
## Stages without a process state

A stage may hold an object that is no process state.  It is asked for the parts of
one in turn and breaks where the first is missing.  A frame gets furthest: what it has
for a context is taken for the computation under control, and is replaced by its head.
-/

/-- What a computation asks of its process before anything else, apart from being a computation. -/
def firstDemand : Computation -> Except Failure String
  | .hole => .error (.breakage .holeAtHead)
  | .returned _ | .spawn _ _ | .lambda _ _ | .branches _ => .ok "stack"
  | .extract (.variable _) => .ok "env"
  | .extract _ => .error (.fault .noStep)
  | .bindBox p _ _ =>
      match p with
      | .variable _ | .ignore => .ok "env"
      | _ => .error (.fault .noStep)
  | _ => .ok "env"

def stepFrame (context trace : Object) : Failure × Object :=
  let e := Computation.ofObject context
  match e.head with
  | .error f => (f, .node .frame [context, trace])
  | .ok head =>
      let frame := .node .frame [head.toObject, trace]
      match firstDemand e with
      | .error f => (f, frame)
      | .ok part => (.breakage (.lacks (frame.lack [part])), frame)

def strayFailure (store : Store) (o : Object) : Failure -> Visit
  | .breakage b => ⟨.broken b, store, stray (.node .runningStage [o])⟩
  | .fault f =>
      let failed := stray (.node .failedStage [o, f.toObject])
      ⟨.moved failed, store, stray (.node .runningStage [o])⟩

def strayHandover (store : Store) (s : Symbol) (v : Value) : Object -> Visit
  | .node .frame [_, .node .sequence ts] =>
      let link := Trace.toObject (.link (.process s) v)
      let frame := .node .frame [Computation.toObject (.returned v), .sequence (ts ++ [link])]
      ⟨.moved (stray (.node .runningStage [frame])), store,
        stray (.node .awaitingHaltStage [frame, s.toObject])⟩
  | o =>
      let left := stray (.node .awaitingHaltStage [o, s.toObject])
      match o with
      | .node k _ =>
          if k.isMutable then ⟨.broken (.lacks (o.lack ["trace"])), store, left⟩
          else ⟨.broken (.fixedPart "cont"), store, left⟩
      | .scalar _ => ⟨.broken (.lacks (o.lack ["cont"])), store, left⟩

/-- Visits an object that is no stage, or a stage whose process state is none. -/
def visitStray (table : Processes) (store : Store) (o : Object) : Visit :=
  match o with
  | .node .runningStage [.node .frame [c, ts]] =>
      let (f, frame) := stepFrame c ts
      strayFailure store frame f
  | .node .runningStage [r] => ⟨.broken (.lacks (r.lack ["cont"])), store, stray o⟩
  | .node .awaitingEntryStage [r, s] =>
      seek store (stray o) (Symbol.ofObject s) fun s =>
      if store.contains s then ⟨.moved (stray (.node .runningStage [r])), store, stray o⟩
      else ⟨.resting, store, stray o⟩
  | .node .awaitingHaltStage [r, s] =>
      seek store (stray o) (Symbol.ofObject s) fun s =>
      match table.get? s with
      | none =>
          let fault := Fault.toObject (.noSuchProcess s)
          ⟨.moved (stray (.node .failedStage [r, fault])), store, stray o⟩
      | some (halted v _) => strayHandover store s v r
      | some _ => ⟨.resting, store, stray o⟩
  | .node .failedStage _ => ⟨.resting, store, stray o⟩
  | _ => ⟨.broken .notProcess, store, stray o⟩

/-!
## All stages
-/

def visit (table : Processes) (store : Store) (p : Stage) : Visit :=
  match p with
  | pending body => ⟨.moved (running (Running.start body .empty)), store, p⟩
  | running r =>
      let a := r.step store
      ⟨advance table a, a.store, running a.running⟩
  | awaitingEntry r s =>
      seek store p s fun s =>
      if store.contains s then ⟨.moved (running r), store, p⟩
      else ⟨.resting, store, p⟩
  | awaitingHalt r s =>
      seek store p s fun s =>
      match table.get? s with
      | none => ⟨.moved (failed r (.noSuchProcess s)), store, p⟩
      | some (halted v _) =>
          let r := (r.record (.link (.process s) v)).returning v
          ⟨.moved (running r), store, awaitingHalt r s⟩
      | some _ => ⟨.resting, store, p⟩
  | failed _ _ | halted _ _ => ⟨.resting, store, p⟩
  | stray o => visitStray table store o

end Stage

end PushValue
