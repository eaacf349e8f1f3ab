import PushValue.World.Basic

/-!
# Rounds

A round visits every process that is in the table at its start, in symbol order.
All visits read the process table of the start of the round.  The name of a
spawned process is reserved in the store as soon as its parent has stepped, and
the process itself joins the table at the end of the round.

A round that breaks is given up in the middle.  No process then changes its stage
in the lifecycle and none joins the table, but the store and the machine states
of the processes visited so far keep their changes.
-/

namespace PushValue

inductive Progress where
  | progress
  | noProgress
  | noProcesses
deriving DecidableEq

/-- A round in progress. -/
structure Sweep where
  store : Store
  /-- The processes as the next round is to find them. -/
  next : Processes
  /-- The processes as they stand if the round is given up now. -/
  left : Processes
  /-- The processes that were asked for, in order. -/
  children : List (Symbol × Stage) := []
  progressed : Bool := false
deriving DecidableEq

structure Round where
  result : Except Breakage Progress
  world : World

namespace Sweep

def start (s : World) : Sweep where
  store := s.store
  next := s.processes
  left := s.processes

/-- The world that is left when the round is given up. -/
def abandoned (w : Sweep) : World := ⟨w.store, w.left⟩

def reserve (w : Sweep) (name : Symbol) (child : Stage) : Except (Breakage × Sweep) Sweep :=
  if w.store.contains name then .error (.nameReserved name, w)
  else .ok { w with
    store := w.store.insert name (.process name)
    children := w.children ++ [(name, child)] }

def visit (table : Processes) (w : Sweep) (name : Symbol) : Except (Breakage × Sweep) Sweep :=
  match table.get? name with
  | none => .ok w
  | some p =>
      let v := p.visit table w.store
      let w := { w with store := v.store, left := w.left.insert name v.left }
      match v.outcome with
      | .resting => .ok w
      | .moved next => .ok { w with next := w.next.insert name next, progressed := true }
      | .spawned next childName child =>
          reserve { w with next := w.next.insert name next, progressed := true } childName child
      | .broken b => .error (b, w)

def enroll (table : Processes) : List (Symbol × Stage) -> Except Breakage Processes
  | [] => .ok table
  | (name, child) :: rest =>
      if table.contains name then .error (.nameTaken name)
      else enroll (table.insert name child) rest

def finish (w : Sweep) : Round :=
  match enroll w.next w.children with
  | .error b => ⟨.error b, w.abandoned⟩
  | .ok processes =>
      ⟨.ok (if w.progressed then .progress else .noProgress), ⟨w.store, processes⟩⟩

end Sweep

namespace World

def roundIn (s : World) (order : List Symbol) : Round :=
  if s.processes.isEmpty then ⟨.ok .noProcesses, s⟩
  else
    match order.foldlM (Sweep.visit s.processes) (Sweep.start s) with
    | .error (b, w) => ⟨.error b, w.abandoned⟩
    | .ok w => w.finish

/-- A round in symbol order.  Only symbols can be put in order, so no round is made when a process
goes by the name of a stray. -/
def round (s : World) : Round :=
  if s.processes.keys.all Symbol.isProper then s.roundIn s.processes.keys
  else ⟨.error .notSymbol, s⟩

end World

end PushValue
