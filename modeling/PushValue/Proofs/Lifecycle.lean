import PushValue.Proofs.Waiting

/-!
# The lifecycle of a process

A process only goes forward.  It starts once, it runs, it may wait and run again any
number of times, and once it has halted or failed it stays as it is.  What a world has it
keeps: no round takes an entry out of the store or a process out of the table, and a
process joins the table only as the running child of a spawn.
-/

namespace PushValue

inductive Phase where
  | pending
  | running
  | awaitingEntry
  | awaitingHalt
  | failed
  | halted
deriving DecidableEq

def Phase.successors : Phase -> List Phase
  | pending => [running]
  | running => [running, awaitingEntry, awaitingHalt, failed, halted]
  | awaitingEntry => [running]
  | awaitingHalt => [running, failed]
  | failed | halted => []

namespace Stage

def phase? : Stage -> Option Phase
  | pending _ => some .pending
  | running _ => some .running
  | awaitingEntry _ _ => some .awaitingEntry
  | awaitingHalt _ _ => some .awaitingHalt
  | failed _ _ => some .failed
  | halted _ _ => some .halted
  | stray _ => none

def LeadsTo (p q : Stage) : Prop :=
  ∃ now next, p.phase? = some now ∧ q.phase? = some next ∧ next ∈ now.successors

def isOver : Stage -> Bool
  | failed _ _ | halted _ _ => true
  | _ => false

end Stage

theorem Turn.leadsTo {table : Processes} {store : Store} {p : Stage} {v : Visit}
    (hturn : Turn table store p v) :
    v.outcome.next?.getD p = p ∨ p.LeadsTo (v.outcome.next?.getD p) := by
  cases hturn with
  | start => exact .inr ⟨.pending, _, rfl, rfl, by decide⟩
  | step | halt | parkForEntry | parkForHalt | spawn | clash | fail =>
      exact .inr ⟨.running, _, rfl, rfl, by decide⟩
  | wake => exact .inr ⟨.awaitingEntry, _, rfl, rfl, by decide⟩
  | handOver | orphan => exact .inr ⟨.awaitingHalt, _, rfl, rfl, by decide⟩
  | breakOff | waitForEntry | waitForHalt | stayFailed | stayHalted | unfit => exact .inl rfl

namespace World

/-!
## Rounds
-/

/-- What one world has is still there in another one. -/
structure Retains (later world : World) : Prop where
  entries : ∀ key, world.store.contains key -> later.store.contains key
  names : ∀ name, world.processes.contains name -> later.processes.contains name
  /-- A process that is over is the same, with its value and trace or its fault and last state. -/
  ended : ∀ name p, world.processes.get? name = some p -> p.isOver ->
    later.processes.get? name = some p

/-- What happens to the processes of a world until the next one is forward. -/
structure GoesForwardTo (world next : World) : Prop where
  changes : ∀ name p q, world.processes.get? name = some p ->
    next.processes.get? name = some q -> q = p ∨ p.LeadsTo q
  /-- A process that joins is the child of a spawn, about to run its body. -/
  joins : ∀ name q, world.processes.contains name = false ->
    next.processes.get? name = some q ->
    ∃ parent r v body, world.processes.get? parent = some (.running r) ∧
      r.control = .spawn v body ∧ r.spawn? = some name ∧
      q = .running (Running.start body r.env)

variable {world : World} {name : Symbol} {p q : Stage}

theorem get?_round_of_isOver (hlive : world.passes .live)
    (hget : world.processes.get? name = some p) (hp : p.isOver) :
    world.round.world.processes.get? name = some p := by
  rcases exists_keys_eq hget with ⟨before, later, hkeys⟩
  rw [get?_round hlive hkeys hget]
  cases p with
  | failed | halted => rfl
  | _ => cases hp

theorem get?_after_of_isOver (hlive : world.passes .live) {n m : Nat} (h : n ≤ m)
    (hget : (world.after n).processes.get? name = some p) (hp : p.isOver) :
    (world.after m).processes.get? name = some p := by
  induction h with
  | refl => exact hget
  | step _ ih => exact get?_round_of_isOver (passes_after hlive _) ih hp

theorem retains_after (hlive : world.passes .live) {n m : Nat} (h : n ≤ m) :
    (world.after m).Retains (world.after n) where
  entries := (ledger_within_after world h).entries
  names := (ledger_within_after world h).names
  ended _ _ hget hp := get?_after_of_isOver hlive h hget hp

theorem leadsTo_of_get?_round (hlive : world.passes .live)
    (hp : world.processes.get? name = some p)
    (hq : world.round.world.processes.get? name = some q) : q = p ∨ p.LeadsTo q := by
  rcases exists_keys_eq hp with ⟨before, later, hkeys⟩
  rw [get?_round hlive hkeys hp] at hq
  cases hq
  exact (Turn.of_visit (Stage.ne_stray_of_passes (passes_get? hlive hp))).leadsTo

theorem goesForwardTo_round (hlive : world.passes .live) :
    world.GoesForwardTo world.round.world where
  changes _ _ _ hp hq := leadsTo_of_get?_round hlive hp hq
  joins name q hnew hq := by
    apply spawn_of_get?_round hlive _ hq
    cases hget : world.processes.get? name with
    | none => rfl
    | some p =>
        rw [Table.contains_iff.mpr ⟨p, hget⟩] at hnew
        cases hnew

/-!
## Runs
-/

/-- In every run of a well-sorted world without holes, entries and processes stay, a process that
has halted or failed stays as it is, every change of a process follows the lifecycle, and a
process joins only as the running child of a spawn. -/
theorem lifecycle_forward (world : World) (hlive : world.passes .live) :
    (∀ n m, n ≤ m -> (world.after m).Retains (world.after n)) ∧
      ∀ n, (world.after n).GoesForwardTo (world.after (n + 1)) := by
  constructor
  · intro n m h
    exact retains_after hlive h
  · intro n
    exact goesForwardTo_round (passes_after hlive n)

def rootPhase? (world : World) (n : Nat) : Option Phase :=
  ((world.after n).processes.get? .anonymous).bind Stage.phase?

theorem linkEntryThenProcess_lifecycle :
    (initial linkEntryThenProcess).passes .live ∧
      (List.range 17).filterMap (initial linkEntryThenProcess).rootPhase? =
        [.pending, .running, .running, .running, .running, .running, .awaitingEntry, .awaitingEntry,
          .running, .running, .running, .awaitingHalt, .awaitingHalt, .awaitingHalt, .running,
          .halted, .halted] ∧
      (∀ n m, n ≤ m ->
        ((initial linkEntryThenProcess).after m).Retains ((initial linkEntryThenProcess).after n)) ∧
      ∀ n, ((initial linkEntryThenProcess).after n).GoesForwardTo
        ((initial linkEntryThenProcess).after (n + 1)) :=
  ⟨rfl, rfl, lifecycle_forward (initial linkEntryThenProcess) rfl⟩

end World

end PushValue
