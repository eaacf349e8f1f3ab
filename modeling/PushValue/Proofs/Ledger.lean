import PushValue.Proofs.Effect
import PushValue.Proofs.Footprint
import PushValue.Proofs.Invariant

/-!
# Ledgers

The ledger of a world lists what its values and processes may refer to: the keys of the
store, the names of processes and the values with which processes have halted.  Rounds
only add to it, also those that break.

Inside a round the ledger has a form of its own.  The handle of a spawned process is in
use as soon as its parent has stepped, and the process itself joins the table when the
round ends.  Until then its name is on the ledger of the round but not in the table, and
if the round is given up, it never gets there.
-/

namespace PushValue

def Stage.result? : Stage -> Option Value
  | .halted v _ => some v
  | _ => none

def Processes.result? (table : Processes) (name : Symbol) : Option Value :=
  (table.get? name).bind Stage.result?

theorem Processes.result?_eq_some_iff {table : Processes} {name : Symbol} {v : Value} :
    table.result? name = some v ↔ ∃ ts, table.get? name = some (.halted v ts) := by
  unfold Processes.result?
  rw [Option.bind_eq_some_iff]
  constructor
  · intro h
    rcases h with ⟨p, hget, hresult⟩
    cases p with
    | halted w ts =>
        cases hresult
        exact ⟨ts, hget⟩
    | _ => cases hresult
  · intro h
    rcases h with ⟨ts, hget⟩
    exact ⟨_, hget, rfl⟩

/-- What values and processes may refer to. -/
structure Ledger where
  entries : Symbol -> Bool
  names : Symbol -> Bool
  results : Symbol -> Option Value

namespace Ledger

structure Within (L M : Ledger) : Prop where
  entries : ∀ s, L.entries s -> M.entries s
  names : ∀ s, L.names s -> M.names s
  results : ∀ s v, L.results s = some v -> M.results s = some v

theorem Within.refl (L : Ledger) : L.Within L :=
  ⟨fun _ h => h, fun _ h => h, fun _ _ h => h⟩

theorem Within.trans {L M N : Ledger} (hLM : L.Within M) (hMN : M.Within N) : L.Within N where
  entries s h := hMN.entries s (hLM.entries s h)
  names s h := hMN.names s (hLM.names s h)
  results s v h := hMN.results s v (hLM.results s v h)

def visited (L : Ledger) (v : Visit) : Ledger where
  entries s := v.store.contains s || v.outcome.child?.any fun c => c.1 == s
  names s := L.names s || v.outcome.child?.any fun c => c.1 == s
  results := L.results

end Ledger

def World.ledger (world : World) : Ledger where
  entries := world.store.contains
  names := world.processes.contains
  results := world.processes.result?

/-- The ledger of a round in progress, which began with the given table. -/
def Sweep.ledger (table : Processes) (w : Sweep) : Ledger where
  entries := w.store.contains
  names s := table.contains s || w.children.any fun c => c.1 == s
  results := table.result?

/-!
## Stores grow
-/

namespace Stage

theorem seek_store {store : Store} {p : Stage} {s : Symbol} {next : Symbol -> Visit}
    (hnext : ∀ key, (next key).store = store) : (seek store p s next).store = store := by
  unfold seek
  split
  · exact hnext _
  · rfl

theorem strayHandover_store (store : Store) (s : Symbol) (v : Value) (o : Object) :
    (strayHandover store s v o).store = store := by
  unfold strayHandover
  split
  · rfl
  · dsimp only
    split
    · split <;> rfl
    · rfl

theorem visitStray_store (table : Processes) (store : Store) (o : Object) :
    (visitStray table store o).store = store := by
  unfold visitStray
  split
  · dsimp only
    unfold strayFailure
    split <;> rfl
  · rfl
  · apply seek_store
    intro key
    split <;> rfl
  · apply seek_store
    intro key
    split
    · rfl
    · exact strayHandover_store store key _ _
    · rfl
  · rfl
  · rfl

theorem contains_visit {store : Store} {key : Symbol} (h : store.contains key)
    (table : Processes) (p : Stage) : (p.visit table store).store.contains key := by
  cases p with
  | running r => exact (r.step_effect store).contains_store h
  | awaitingEntry r s =>
      have hstore : ((awaitingEntry r s).visit table store).store = store := by
        apply seek_store
        intro key
        split <;> rfl
      rw [hstore]
      exact h
  | awaitingHalt r s =>
      have hstore : ((awaitingHalt r s).visit table store).store = store := by
        apply seek_store
        intro key
        split <;> rfl
      rw [hstore]
      exact h
  | stray o =>
      rw [visit, visitStray_store]
      exact h
  | pending body | failed r f | halted v ts => exact h

end Stage

/-!
## Rounds only add
-/

structure Processes.Preserves (table later : Processes) : Prop where
  names : ∀ name, later.contains name = table.contains name
  halted : ∀ name v ts, table.get? name = some (.halted v ts) ->
    later.get? name = some (.halted v ts)

namespace Processes

variable {table later : Processes}

theorem Preserves.refl (table : Processes) : table.Preserves table :=
  ⟨fun _ => rfl, fun _ _ _ h => h⟩

theorem Preserves.insert {name : Symbol} {p q : Stage} (h : table.Preserves later)
    (hget : table.get? name = some p) (hq : ∀ v ts, p = .halted v ts -> q = p) :
    table.Preserves (later.insert name q) where
  names := by
    intro other
    rw [Table.contains_insert, h.names]
    by_cases hother : other = name
    · rw [hother, Table.contains_iff.mpr ⟨p, hget⟩, Bool.or_true]
    · rw [decide_eq_false hother, Bool.false_or]
  halted := by
    intro other v ts hhalted
    by_cases hother : other = name
    · rw [hother] at hhalted ⊢
      rw [hget, Option.some.injEq] at hhalted
      rw [Table.get?_insert_self, hq v ts hhalted, hhalted]
    · rw [Table.get?_insert_of_ne _ hother]
      exact h.halted other v ts hhalted

end Processes

/-- A round in progress has lost nothing of the world with which it began. -/
structure Sweep.Extends (world : World) (w : Sweep) : Prop where
  entries : ∀ key, world.store.contains key -> w.store.contains key
  next : world.processes.Preserves w.next
  left : world.processes.Preserves w.left

namespace Sweep

variable {world : World} {w : Sweep}

theorem extends_start (world : World) : Extends world (start world) :=
  ⟨fun _ h => h, .refl _, .refl _⟩

theorem extends_visit (hw : Extends world w) (name : Symbol) :
    Meets (fun broken => Extends world broken.2) (Extends world)
      (w.visit world.processes name) := by
  unfold visit
  cases hget : world.processes.get? name with
  | none => exact hw
  | some p =>
      have hentries : ∀ key, world.store.contains key ->
          (p.visit world.processes w.store).store.contains key := by
        intro key hkey
        exact p.contains_visit (hw.entries key hkey) world.processes
      have hleft : world.processes.Preserves
          (w.left.insert name (p.visit world.processes w.store).left) := by
        apply hw.left.insert hget
        intro v ts hhalted
        rw [hhalted]
        rfl
      have hnext : ∀ q, (p.visit world.processes w.store).outcome.next? = some q ->
          world.processes.Preserves (w.next.insert name q) := by
        intro q hq
        apply hw.next.insert hget
        intro v ts hhalted
        rw [hhalted] at hq
        cases hq
      dsimp only
      cases houtcome : (p.visit world.processes w.store).outcome with
      | resting => exact ⟨hentries, hw.next, hleft⟩
      | moved q =>
          have hmoved := hnext q (by rw [houtcome]; rfl)
          exact ⟨hentries, hmoved, hleft⟩
      | spawned q childName child =>
          have hmoved := hnext q (by rw [houtcome]; rfl)
          dsimp only [reserve]
          split
          · exact ⟨hentries, hmoved, hleft⟩
          · refine ⟨?_, hmoved, hleft⟩
            intro key hkey
            exact Table.contains_insert_of_contains _ _ (hentries key hkey)
      | broken b => exact ⟨hentries, hw.next, hleft⟩

theorem enroll_spec {table joined : Processes} {children : List (Symbol × Stage)}
    (h : enroll table children = .ok joined) :
    (∀ name p, table.get? name = some p -> joined.get? name = some p) ∧
      ∀ name, joined.contains name = (table.contains name || children.any fun c => c.1 == name) := by
  induction children generalizing table with
  | nil =>
      cases h
      constructor
      · intro name p hget
        exact hget
      · intro name
        rw [List.any_nil, Bool.or_false]
  | cons c rest ih =>
      unfold enroll at h
      split at h
      · cases h
      next hfree =>
        rcases ih h with ⟨hkept, hnames⟩
        constructor
        · intro name p hget
          apply hkept
          have hne : name ≠ c.1 := by
            intro heq
            rw [heq] at hget
            exact hfree (Table.contains_iff.mpr ⟨p, hget⟩)
          rw [Table.get?_insert_of_ne table hne]
          exact hget
        · intro name
          rw [hnames, Table.contains_insert, List.any_cons]
          by_cases hname : name = c.1
          · simp [hname]
          · have hne : (c.1 == name) = false := beq_eq_false_iff_ne.mpr fun h => hname h.symm
            rw [decide_eq_false hname, hne, Bool.false_or, Bool.false_or]

theorem ledger_start (world : World) : (start world).ledger world.processes = world.ledger := by
  unfold ledger World.ledger start
  simp only [List.any_nil, Bool.or_false]

theorem Extends.ledger_within (hw : Extends world w) :
    world.ledger.Within (w.ledger world.processes) where
  entries := hw.entries
  names s h := by
    show (world.processes.contains s || _) = true
    rw [show world.processes.contains s = true from h, Bool.true_or]
  results _ _ h := h

theorem Extends.within_enrolled (hw : Extends world w) {processes : Processes}
    (henroll : enroll w.next w.children = .ok processes) :
    (w.ledger world.processes).Within (World.ledger ⟨w.store, processes⟩) := by
  rcases enroll_spec henroll with ⟨hkept, hnames⟩
  constructor
  · intro s h
    exact h
  · intro s h
    show processes.contains s = true
    rw [hnames, hw.next.names]
    exact h
  · intro s v h
    rcases Processes.result?_eq_some_iff.mp h with ⟨ts, hget⟩
    exact Processes.result?_eq_some_iff.mpr ⟨ts, hkept s _ (hw.next.halted s v ts hget)⟩

/-- A round that is given up keeps everything but the names of its children. -/
theorem Extends.within_abandoned (hw : Extends world w) :
    Ledger.Within { w.ledger world.processes with names := world.processes.contains }
      w.abandoned.ledger where
  entries _ h := h
  names s h := by
    show w.left.contains s = true
    rw [hw.left.names]
    exact h
  results s v h := by
    rcases Processes.result?_eq_some_iff.mp h with ⟨ts, hget⟩
    exact Processes.result?_eq_some_iff.mpr ⟨ts, hw.left.halted s v ts hget⟩

theorem extends_foldlM (hw : Extends world w) (order : List Symbol) :
    Meets (fun broken => Extends world broken.2) (Extends world)
      (order.foldlM (visit world.processes) w) := by
  induction order generalizing w with
  | nil => exact hw
  | cons name rest ih =>
      rw [List.foldlM_cons]
      apply (extends_visit hw name).bind
      intro w' hw'
      exact ih hw'

theorem Extends.ledger_within_abandoned (hw : Extends world w) :
    world.ledger.Within w.abandoned.ledger := by
  apply Ledger.Within.trans _ hw.within_abandoned
  exact ⟨hw.entries, fun _ h => h, fun _ _ h => h⟩

theorem Extends.ledger_within_finish (hw : Extends world w) :
    world.ledger.Within w.finish.world.ledger := by
  unfold finish
  cases henroll : enroll w.next w.children with
  | error b => exact hw.ledger_within_abandoned
  | ok processes => exact hw.ledger_within.trans (hw.within_enrolled henroll)

end Sweep

namespace World

theorem ledger_within_roundIn (world : World) (order : List Symbol) :
    world.ledger.Within (world.roundIn order).world.ledger := by
  have hsweep := Sweep.extends_foldlM (Sweep.extends_start world) order
  unfold roundIn
  split
  · exact Ledger.Within.refl _
  · cases hfold : order.foldlM (Sweep.visit world.processes) (Sweep.start world) with
    | error broken => exact (hsweep.of_eq_error hfold).ledger_within_abandoned
    | ok w => exact (hsweep.of_eq_ok hfold).ledger_within_finish

/-- No round takes an entry, a process or a result away, not even one that breaks. -/
theorem ledger_within_round (world : World) : world.ledger.Within world.round.world.ledger := by
  unfold round
  split
  · exact ledger_within_roundIn world _
  · exact Ledger.Within.refl _

theorem ledger_within_after (world : World) {n m : Nat} (h : n ≤ m) :
    (world.after n).ledger.Within (world.after m).ledger := by
  induction h with
  | refl => exact Ledger.Within.refl _
  | step _ ih => exact ih.trans (ledger_within_round _)

end World

end PushValue
