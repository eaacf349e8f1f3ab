import Mathlib.Data.List.Forall2
import PushValue.Proofs.Invariant
import PushValue.World.Run

/-!
# Bisimulations

A bisimulation relates the values and the processes of two worlds that take the same
course.  If visits to related processes come to related ends, then so do rounds, also
those that break and are given up, and so do runs.
-/

namespace PushValue

/-!
## Results in pairs
-/

/-- Two results that belong together: both fail, or both do not. -/
inductive Tally {ε ε' α α' : Type} (fails : ε -> ε' -> Prop) (holds : α -> α' -> Prop) :
    Except ε α -> Except ε' α' -> Prop
  | ok {a : α} {a' : α'} (h : holds a a') : Tally fails holds (.ok a) (.ok a')
  | error {e : ε} {e' : ε'} (h : fails e e') : Tally fails holds (.error e) (.error e')

namespace Tally

variable {ε ε' α α' β β' : Type} {fails : ε -> ε' -> Prop} {holds : α -> α' -> Prop}

theorem bind {after : β -> β' -> Prop} {x : Except ε α} {x' : Except ε' α'}
    {f : α -> Except ε β} {f' : α' -> Except ε' β'} (hx : Tally fails holds x x')
    (hf : ∀ a a', holds a a' -> Tally fails after (f a) (f' a')) :
    Tally fails after (x >>= f) (x' >>= f') := by
  cases hx with
  | ok h => exact hf _ _ h
  | error h => exact .error h

theorem ite {p p' : Prop} [Decidable p] [Decidable p'] {x y : Except ε α} {x' y' : Except ε' α'}
    (hp : p ↔ p') (hx : Tally fails holds x x') (hy : Tally fails holds y y') :
    Tally fails holds (if p then x else y) (if p' then x' else y') := by
  by_cases h : p
  · rwa [if_pos h, if_pos (hp.1 h)]
  · rwa [if_neg h, if_neg (mt hp.2 h)]

end Tally

/-!
## Tables with the same keys
-/

/-- Two tables with the same keys, and related entries under each of them. -/
def Table.Related {κ α α' : Type} [Ord κ] (rel : α -> α' -> Prop) (s : Table κ α)
    (t : Table κ α') : Prop :=
  ∀ k, Option.Rel rel (s.get? k) (t.get? k)

namespace Table.Related

variable {κ α α' : Type} [Ord κ] {rel : α -> α' -> Prop} {s : Table κ α} {t : Table κ α'}

theorem empty : (Table.empty : Table κ α).Related rel (Table.empty : Table κ α') :=
  fun _ => .none

theorem contains (h : s.Related rel t) (k : κ) : s.contains k = t.contains k := by
  have hget := h k
  unfold Table.contains
  generalize s.get? k = found, t.get? k = found' at hget ⊢
  cases hget <;> rfl

theorem insert [Std.TransOrd κ] [Std.LawfulEqOrd κ] [DecidableEq κ] (h : s.Related rel t) (k : κ)
    {a : α} {a' : α'} (ha : rel a a') : (s.insert k a).Related rel (t.insert k a') := by
  intro j
  rw [get?_insert, get?_insert]
  split
  · exact .some ha
  · exact h j

end Table.Related

namespace Table

variable {κ α β : Type} [Ord κ] [Std.TransOrd κ] [Std.LawfulEqOrd κ] {s t : Table κ α}

theorem related_map_iff {f : α -> β} :
    s.Related (fun a a' => f a = f a') t ↔ s.map f = t.map f := by
  have hentry (x y : Option α) : Option.Rel (fun a a' => f a = f a') x y ↔ x.map f = y.map f := by
    cases x with
    | none => cases y <;> simp
    | some a => cases y <;> simp
  constructor
  · intro h
    apply ext_get?
    intro k
    rw [get?_map, get?_map]
    exact (hentry _ _).mp (h k)
  · intro h k
    rw [hentry, ← get?_map, ← get?_map, h]

theorem related_eq_iff : s.Related Eq t ↔ s = t := by
  have hself (u : Table κ α) : u.map id = u := by
    apply ext_get?
    intro k
    rw [get?_map, Option.map_id, id]
  have hid := @related_map_iff κ α α _ _ _ s t id
  rwa [hself, hself] at hid

end Table

/-!
## Visits in pairs
-/

section

variable (value : Value -> Value -> Prop) (stage : Stage -> Stage -> Prop)

inductive Visit.Outcome.Related : Visit.Outcome -> Visit.Outcome -> Prop
  | resting : Related .resting .resting
  | moved {p p' : Stage} (hp : stage p p') : Related (.moved p) (.moved p')
  | spawned {p p' child child' : Stage} (name : Symbol) (hp : stage p p')
      (hchild : stage child child') : Related (.spawned p name child) (.spawned p' name child')
  | broken (b : Breakage) : Related (.broken b) (.broken b)

structure Visit.Related (v v' : Visit) : Prop where
  outcome : v.outcome.Related stage v'.outcome
  store : v.store.Related value v'.store
  left : stage v.left v'.left

end

/-- Relations on values and on processes that visits respect. -/
structure Bisimulation where
  value : Value -> Value -> Prop
  stage : Stage -> Stage -> Prop
  /-- A new process is known by its own name on both sides. -/
  handle : ∀ {v v' : Value} {name : Symbol}, v = .process name -> v' = .process name -> value v v'
  visit : ∀ {table table' : Processes} {store store' : Store} {p p' : Stage},
    table.Related stage table' -> store.Related value store' -> stage p p' ->
    (p.visit table store).Related value stage (p'.visit table' store')

namespace Bisimulation

variable (B : Bisimulation)

structure Worlds (world world' : World) : Prop where
  store : world.store.Related B.value world'.store
  processes : world.processes.Related B.stage world'.processes

abbrev Children (cs cs' : List (Symbol × Stage)) : Prop :=
  List.Forall₂ (fun c c' => c.1 = c'.1 ∧ B.stage c.2 c'.2) cs cs'

structure Sweeps (w w' : Sweep) : Prop where
  store : w.store.Related B.value w'.store
  next : w.next.Related B.stage w'.next
  left : w.left.Related B.stage w'.left
  children : B.Children w.children w'.children
  progressed : w.progressed = w'.progressed

abbrev Breaks (x x' : Breakage × Sweep) : Prop := x.1 = x'.1 ∧ B.Sweeps x.2 x'.2

structure Rounds (r r' : Round) : Prop where
  result : r.result = r'.result
  world : B.Worlds r.world r'.world

structure Runs (r r' : Run) : Prop where
  ending : r.ending = r'.ending
  world : B.Worlds r.world r'.world

variable {B}

/-!
## Rounds in pairs
-/

namespace Sweeps

variable {table table' : Processes} {w w' : Sweep}

theorem start {world world' : World} (h : B.Worlds world world') :
    B.Sweeps (Sweep.start world) (Sweep.start world') where
  store := h.store
  next := h.processes
  left := h.processes
  children := .nil
  progressed := rfl

theorem abandoned (h : B.Sweeps w w') : B.Worlds w.abandoned w'.abandoned := ⟨h.store, h.left⟩

theorem reserve (h : B.Sweeps w w') (name : Symbol) {child child' : Stage}
    (hchild : B.stage child child') :
    Tally B.Breaks B.Sweeps (w.reserve name child) (w'.reserve name child') := by
  unfold Sweep.reserve
  refine Tally.ite (by rw [h.store.contains name]) (Tally.error ⟨rfl, h⟩) (Tally.ok ?_)
  exact
    { store := h.store.insert name (B.handle rfl rfl)
      next := h.next
      left := h.left
      children := List.rel_append h.children (.cons ⟨rfl, hchild⟩ .nil)
      progressed := h.progressed }

theorem leave (h : B.Sweeps w w') (name : Symbol) {v v' : Visit}
    (hv : v.Related B.value B.stage v') :
    B.Sweeps { w with store := v.store, left := w.left.insert name v.left }
      { w' with store := v'.store, left := w'.left.insert name v'.left } where
  store := hv.store
  next := h.next
  left := h.left.insert name hv.left
  children := h.children
  progressed := h.progressed

theorem move (h : B.Sweeps w w') (name : Symbol) {p p' : Stage} (hp : B.stage p p') :
    B.Sweeps { w with next := w.next.insert name p, progressed := true }
      { w' with next := w'.next.insert name p', progressed := true } where
  store := h.store
  next := h.next.insert name hp
  left := h.left
  children := h.children
  progressed := rfl

theorem visit (htable : table.Related B.stage table') (h : B.Sweeps w w') (name : Symbol) :
    Tally B.Breaks B.Sweeps (w.visit table name) (w'.visit table' name) := by
  unfold Sweep.visit
  have hfound := htable name
  generalize table.get? name = found, table'.get? name = found' at hfound ⊢
  cases hfound with
  | none => exact Tally.ok h
  | @some p p' hp =>
      have hvisit := B.visit htable h.store hp
      have hleft := h.leave name hvisit
      dsimp only
      generalize p.visit table w.store = v, p'.visit table' w'.store = v' at hvisit hleft ⊢
      have houtcome := hvisit.outcome
      generalize v.outcome = outcome, v'.outcome = outcome' at houtcome ⊢
      cases houtcome with
      | resting => exact Tally.ok hleft
      | moved hq => exact Tally.ok (hleft.move name hq)
      | spawned childName hq hchild => exact (hleft.move name hq).reserve childName hchild
      | broken b => exact Tally.error ⟨rfl, hleft⟩

theorem foldlM (htable : table.Related B.stage table') (h : B.Sweeps w w')
    (order : List Symbol) :
    Tally B.Breaks B.Sweeps (order.foldlM (Sweep.visit table) w)
      (order.foldlM (Sweep.visit table') w') := by
  induction order generalizing w w' with
  | nil => exact Tally.ok h
  | cons name rest ih =>
      rw [List.foldlM_cons, List.foldlM_cons]
      exact (h.visit htable name).bind fun _ _ hnext => ih hnext

theorem enroll {children children' : List (Symbol × Stage)}
    (htable : table.Related B.stage table') (h : B.Children children children') :
    Tally Eq (Table.Related B.stage) (Sweep.enroll table children)
      (Sweep.enroll table' children') := by
  induction h generalizing table table' with
  | nil => exact Tally.ok htable
  | @cons c c' _ _ hc _ ih =>
      rcases c with ⟨name, child⟩
      rcases c' with ⟨name', child'⟩
      rcases hc with ⟨hname, hchild⟩
      cases hname
      unfold Sweep.enroll
      exact Tally.ite (by rw [htable.contains name]) (Tally.error rfl)
        (ih (htable.insert name hchild))

theorem finish (h : B.Sweeps w w') : B.Rounds w.finish w'.finish := by
  unfold Sweep.finish
  have henroll := enroll h.next h.children
  generalize Sweep.enroll w.next w.children = x,
    Sweep.enroll w'.next w'.children = x' at henroll ⊢
  cases henroll with
  | ok hprocesses => exact ⟨by rw [h.progressed], h.store, hprocesses⟩
  | error hb =>
      cases hb
      exact ⟨rfl, h.abandoned⟩

end Sweeps

namespace Worlds

variable {world world' : World}

theorem keys (h : B.Worlds world world') : world.processes.keys = world'.processes.keys :=
  Table.keys_congr h.processes.contains

theorem roundIn (h : B.Worlds world world') (order : List Symbol) :
    B.Rounds (world.roundIn order) (world'.roundIn order) := by
  have hempty : world.processes.isEmpty = world'.processes.isEmpty := by
    have hkeys (t : Processes) : t.isEmpty = t.keys.isEmpty := by
      simp only [Table.isEmpty, Table.keys, List.isEmpty_map]
    rw [hkeys, hkeys, h.keys]
  unfold World.roundIn
  rw [hempty]
  split
  · exact ⟨rfl, h⟩
  · have hfold := Sweeps.foldlM h.processes (.start h) order
    generalize order.foldlM (Sweep.visit world.processes) _ = x,
      order.foldlM (Sweep.visit world'.processes) _ = x' at hfold ⊢
    cases hfold with
    | ok hw => exact hw.finish
    | error hbroken => exact ⟨congrArg Except.error hbroken.1, hbroken.2.abandoned⟩

theorem round (h : B.Worlds world world') : B.Rounds world.round world'.round := by
  unfold World.round
  rw [h.keys]
  split
  · exact h.roundIn _
  · exact ⟨rfl, h⟩

theorem after (h : B.Worlds world world') (n : Nat) :
    B.Worlds (world.after n) (world'.after n) := by
  induction n with
  | zero => exact h
  | succ n ih => exact ih.round.world

/-!
## Runs in pairs
-/

theorem runFrom (h : B.Worlds world world') (limit : Option Int) (attempts rounds : Nat) :
    B.Runs (world.runFrom limit attempts rounds) (world'.runFrom limit attempts rounds) := by
  induction attempts generalizing world world' rounds with
  | zero => exact ⟨rfl, h⟩
  | succ attempts ih =>
      have hround := h.round
      have hnext := ih hround.world (rounds + 1)
      unfold World.runFrom
      simp only [hround.result]
      cases world'.round.result with
      | error b => exact ⟨rfl, hround.world⟩
      | ok p =>
          cases p with
          | progress =>
              cases limit with
              | none => exact hnext
              | some n =>
                  show B.Runs (if n < _ then _ else _) (if n < _ then _ else _)
                  split
                  · exact ⟨rfl, hround.world⟩
                  · exact hnext
          | noProgress | noProcesses => exact ⟨rfl, hround.world⟩

theorem run (h : B.Worlds world world') (limit : Option Int) (attempts : Nat) :
    B.Runs (world.run limit attempts) (world'.run limit attempts) := by
  cases limit with
  | none => exact h.runFrom none attempts 0
  | some n => exact h.runFrom (some n) (n.toNat + 1) 0

end Worlds

end Bisimulation

end PushValue
