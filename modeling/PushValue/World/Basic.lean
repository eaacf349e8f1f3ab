import PushValue.Process.Visit

/-!
# Worlds

A world is a store and the processes that share it.
-/

namespace PushValue

structure World where
  store : Store := {}
  processes : Processes := {}
deriving DecidableEq, Inhabited

namespace World

/-- A world of one anonymous process that has not started. -/
def initial (body : Computation) : World where
  processes := Table.empty.insert .anonymous (.pending body)

def toObject (w : World) : Object :=
  .node .world
    [.mapping (w.store.entries.map fun e => (e.1.toObject, e.2.toObject)),
      .mapping (w.processes.entries.map fun e => (e.1.toObject, e.2.toObject))]

end World

namespace Store

def ofEntries (os : List Object) : Store :=
  .ofList ((Object.entries os).map fun e => (Symbol.ofObject e.1, Value.ofObject e.2))

end Store

namespace Processes

def ofEntries (os : List Object) : Processes :=
  .ofList ((Object.entries os).map fun e => (Symbol.ofObject e.1, Stage.ofObject e.2))

end Processes

namespace World

def ofObject? : Object -> Option World
  | .node .world [.node .mapping store, .node .mapping processes] =>
      some ⟨Store.ofEntries store, Processes.ofEntries processes⟩
  | _ => none

end World

end PushValue
