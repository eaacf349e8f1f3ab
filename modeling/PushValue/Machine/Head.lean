import PushValue.Fault

/-!
# Heads

The head of a computation is what remains when every sub-computation is left
out.  A process keeps the head of the computation that it is about to perform, so
that it shows where it stopped if the step fails.  Of a foreign part the head keeps
what its place asks for.
-/

namespace PushValue

def Cases.head : Cases -> Except Lack Cases
  | .nil => .ok .nil
  | .cons l p _ rest => do
      let rest <- rest.head
      return .cons l p .hole rest
  | .foreign p rest => do
      let label <- p.label
      let pattern <- p.pattern
      let rest <- rest.head
      return .cons label pattern .hole rest

def Branches.head : Branches -> Except Lack Branches
  | .nil => .ok .nil
  | .cons l _ rest => do
      let rest <- rest.head
      return .cons l .hole rest
  | .foreign p rest => do
      let label <- p.label
      let rest <- rest.head
      return .cons label .hole rest

def Computation.head : Computation -> Except Failure Computation
  | .nest v _ => .ok (.nest v .hole)
  | .spawn v _ => .ok (.spawn v .hole)
  | .lambda p _ => .ok (.lambda p .hole)
  | .bind p _ _ => .ok (.bind p .hole .hole)
  | .bindBox p _ _ => .ok (.bindBox p .hole .hole)
  | .apply _ v => .ok (.apply .hole v)
  | .project _ v => .ok (.project .hole v)
  | .switch v cs => do
      let cs <- Failure.ofLack cs.head
      return .switch v cs
  | .branches bs => do
      let bs <- Failure.ofLack bs.head
      return .branches bs
  | .put s v => .ok (.put s v)
  | .get v => .ok (.get v)
  | .link v => .ok (.link v)
  | .assert a equal b => .ok (.assert a equal b)
  | .ret v => .ok (.ret v)
  | .returned v => .ok (.returned v)
  | .extract v => .ok (.extract v)
  | .hole => .ok .hole
  | .stray _ => .error (.breakage .notComputation)

end PushValue
