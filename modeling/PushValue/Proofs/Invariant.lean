import PushValue.Proofs.Contract
import PushValue.Proofs.Tables
import PushValue.World.Round

/-!
# Invariants of runs

An invariant says what holds of every value in the store and of every process.  If each
visit keeps it, then every round does, also one that breaks and is given up, and so does
every run.
-/

namespace PushValue

def World.after (world : World) : Nat -> World
  | 0 => world
  | n + 1 => (world.after n).round.world

def Store.Holds (P : Value -> Prop) (store : Store) : Prop :=
  ∀ key v, store.get? key = some v -> P v

def Processes.Holds (P : Stage -> Prop) (table : Processes) : Prop :=
  ∀ name p, table.get? name = some p -> P p

/-- A visit that leaves only values and stages with given properties. -/
structure Visit.Keeps (value : Value -> Prop) (stage : Stage -> Prop) (v : Visit) : Prop where
  store : v.store.Holds value
  left : stage v.left
  moved : ∀ next, v.outcome = .moved next -> stage next
  spawned : ∀ next name child, v.outcome = .spawned next name child -> stage next ∧ stage child

namespace Visit

variable {value : Value -> Prop} {stage : Stage -> Prop} {store : Store} {p q : Stage}

theorem keeps_resting (hstore : store.Holds value) (hp : stage p) :
    Keeps value stage ⟨.resting, store, p⟩ where
  store := hstore
  left := hp
  moved := by
    intro next h
    cases h
  spawned := by
    intro next name child h
    cases h

theorem keeps_moved (hstore : store.Holds value) (hp : stage p) (hq : stage q) :
    Keeps value stage ⟨.moved q, store, p⟩ where
  store := hstore
  left := hp
  moved := by
    intro next h
    cases h
    exact hq
  spawned := by
    intro next name child h
    cases h

theorem keeps_spawned {name : Symbol} {child : Stage} (hstore : store.Holds value)
    (hp : stage p) (hq : stage q) (hchild : stage child) :
    Keeps value stage ⟨.spawned q name child, store, p⟩ where
  store := hstore
  left := hp
  moved := by
    intro next h
    cases h
  spawned := by
    intro next name' child' h
    cases h
    exact ⟨hq, hchild⟩

theorem keeps_broken {b : Breakage} (hstore : store.Holds value) (hp : stage p) :
    Keeps value stage ⟨.broken b, store, p⟩ where
  store := hstore
  left := hp
  moved := by
    intro next h
    cases h
  spawned := by
    intro next name child h
    cases h

theorem keeps_seek {s : Symbol} {next : Symbol -> Visit} (hstore : store.Holds value)
    (hp : stage p) (hnext : ∀ key, Keeps value stage (next key)) :
    Keeps value stage (Stage.seek store p s next) := by
  unfold Stage.seek
  cases s.asKey with
  | ok key => exact hnext key
  | error b => exact keeps_broken hstore hp

end Visit

/-- Properties of values and of stages that every visit keeps. -/
structure Invariant where
  value : Value -> Prop
  stage : Stage -> Prop
  /-- The name of a spawned process is reserved by its handle. -/
  handle : ∀ name, value (.process name)
  visit : ∀ {table : Processes} {store : Store} {p : Stage}, table.Holds stage ->
    store.Holds value -> stage p -> Visit.Keeps value stage (p.visit table store)

theorem Store.Holds.insert {P : Value -> Prop} {store : Store} (h : store.Holds P)
    {key : Symbol} {v : Value} (hv : P v) : Store.Holds P (store.insert key v) :=
  Table.forall_insert h hv

theorem Processes.Holds.insert {P : Stage -> Prop} {table : Processes} (h : table.Holds P)
    {name : Symbol} {p : Stage} (hp : P p) : Processes.Holds P (table.insert name p) :=
  Table.forall_insert h hp

theorem Sweep.holds_enroll {P : Stage -> Prop} {table : Processes}
    {children : List (Symbol × Stage)} (htable : table.Holds P)
    (hchildren : ∀ c ∈ children, P c.2) :
    Meets (fun _ => True) (fun t => Processes.Holds P t) (Sweep.enroll table children) := by
  induction children generalizing table with
  | nil => exact htable
  | cons c rest ih =>
      unfold Sweep.enroll
      split
      · trivial
      · apply ih
        · exact htable.insert (hchildren c List.mem_cons_self)
        · intro d hd
          exact hchildren d (List.mem_cons_of_mem c hd)

namespace Invariant

variable {I : Invariant} {table : Processes} {w : Sweep}

def Holds (I : Invariant) (world : World) : Prop :=
  world.store.Holds I.value ∧ world.processes.Holds I.stage

structure HoldsOf (I : Invariant) (w : Sweep) : Prop where
  store : w.store.Holds I.value
  next : w.next.Holds I.stage
  left : w.left.Holds I.stage
  children : ∀ c ∈ w.children, I.stage c.2

theorem holdsOf_visit (htable : table.Holds I.stage) (hw : I.HoldsOf w) (name : Symbol) :
    Meets (fun broken => I.HoldsOf broken.2) I.HoldsOf (w.visit table name) := by
  unfold Sweep.visit
  cases hget : table.get? name with
  | none => exact hw
  | some p =>
      have hvisit := I.visit htable hw.store (htable name p hget)
      have hleft : Processes.Holds I.stage
          (w.left.insert name (p.visit table w.store).left) := hw.left.insert hvisit.left
      dsimp only
      cases houtcome : (p.visit table w.store).outcome with
      | resting => exact ⟨hvisit.store, hw.next, hleft, hw.children⟩
      | moved next =>
          have hnext : Processes.Holds I.stage (w.next.insert name next) :=
            hw.next.insert (hvisit.moved next houtcome)
          exact ⟨hvisit.store, hnext, hleft, hw.children⟩
      | spawned next childName child =>
          rcases hvisit.spawned next childName child houtcome with ⟨hmoved, hchild⟩
          have hnext : Processes.Holds I.stage (w.next.insert name next) :=
            hw.next.insert hmoved
          dsimp only [Sweep.reserve]
          split
          · exact ⟨hvisit.store, hnext, hleft, hw.children⟩
          · refine ⟨hvisit.store.insert (I.handle childName), hnext, hleft, ?_⟩
            intro c hc
            rcases List.mem_append.mp hc with hold | hnew
            · exact hw.children c hold
            · rw [List.mem_singleton.mp hnew]
              exact hchild
      | broken b => exact ⟨hvisit.store, hw.next, hleft, hw.children⟩

theorem holdsOf_foldlM (htable : table.Holds I.stage) (hw : I.HoldsOf w)
    (order : List Symbol) :
    Meets (fun broken => I.HoldsOf broken.2) I.HoldsOf (order.foldlM (Sweep.visit table) w) := by
  induction order generalizing w with
  | nil => exact hw
  | cons name rest ih =>
      rw [List.foldlM_cons]
      apply (holdsOf_visit htable hw name).bind
      intro w' hw'
      exact ih hw'

theorem holds_finish (hw : I.HoldsOf w) : I.Holds w.finish.world := by
  have henroll := Sweep.holds_enroll hw.next hw.children
  unfold Sweep.finish
  cases hjoined : Sweep.enroll w.next w.children with
  | error b => exact ⟨hw.store, hw.left⟩
  | ok processes =>
      rw [hjoined] at henroll
      exact ⟨hw.store, henroll⟩

theorem holds_roundIn {world : World} (h : I.Holds world) (order : List Symbol) :
    I.Holds (world.roundIn order).world := by
  have hstart : I.HoldsOf (Sweep.start world) := by
    refine ⟨h.1, h.2, h.2, ?_⟩
    intro c hc
    cases hc
  have hsweep := holdsOf_foldlM h.2 hstart order
  unfold World.roundIn
  split
  · exact h
  · cases hfold : order.foldlM (Sweep.visit world.processes) (Sweep.start world) with
    | error broken =>
        rw [hfold] at hsweep
        exact ⟨hsweep.store, hsweep.left⟩
    | ok w =>
        rw [hfold] at hsweep
        exact holds_finish hsweep

theorem holds_round {world : World} (h : I.Holds world) : I.Holds world.round.world := by
  unfold World.round
  split
  · exact holds_roundIn h _
  · exact h

/-- What every visit keeps holds in every world of a run. -/
theorem holds_after {world : World} (h : I.Holds world) (n : Nat) : I.Holds (world.after n) := by
  induction n with
  | zero => exact h
  | succ n ih => exact holds_round ih

theorem holds_initial {body : Computation} (hbody : I.stage (.pending body)) :
    I.Holds (World.initial body) := by
  constructor
  · intro key v hget
    cases hget
  · apply Processes.Holds.insert _ hbody
    intro name p hget
    cases hget

end Invariant

end PushValue
