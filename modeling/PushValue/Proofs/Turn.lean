import PushValue.Proofs.Effect
import PushValue.Process.Visit

/-!
# Turns of a process

In each round every process has its turn.  One that runs makes a step, and what the step
comes to decides its next stage; one that waits looks for what it waits for, and one that
has ended rests.  What can happen in a turn is told here once.
-/

namespace PushValue

/-- What a visit to a process can be, apart from objects in the place of a stage. -/
inductive Turn (table : Processes) (store : Store) : Stage -> Visit -> Prop where
  | start (body : Computation) :
      Turn table store (.pending body)
        ⟨.moved (.running (Running.start body .empty)), store, .pending body⟩
  | step {r : Running} {a : Attempt} (ha : r.step store = a) (houtcome : a.outcome = .moved) :
      Turn table store (.running r) ⟨.moved (.running a.running), a.store, .running a.running⟩
  | halt {r : Running} {a : Attempt} {v : Value} (ha : r.step store = a)
      (houtcome : a.outcome = .signal (.halt v)) :
      Turn table store (.running r)
        ⟨.moved (.halted v a.running.trace), a.store, .running a.running⟩
  | parkForEntry {r : Running} {a : Attempt} {s : Symbol} (ha : r.step store = a)
      (houtcome : a.outcome = .signal (.awaitEntry s)) :
      Turn table store (.running r)
        ⟨.moved (.awaitingEntry a.running s), a.store, .running a.running⟩
  | parkForHalt {r : Running} {a : Attempt} {s : Symbol} (ha : r.step store = a)
      (houtcome : a.outcome = .signal (.awaitHalt s)) :
      Turn table store (.running r)
        ⟨.moved (.awaitingHalt a.running s), a.store, .running a.running⟩
  | spawn {r : Running} {a : Attempt} {name : Symbol} {env : Environment} {body : Computation}
      (ha : r.step store = a) (houtcome : a.outcome = .signal (.spawn name env body))
      (hfree : table.contains name = false) :
      Turn table store (.running r)
        ⟨.spawned (.running a.running) name (.running (Running.start body env)), a.store,
          .running a.running⟩
  | clash {r : Running} {a : Attempt} {name : Symbol} {env : Environment} {body : Computation}
      (ha : r.step store = a) (houtcome : a.outcome = .signal (.spawn name env body))
      (htaken : table.contains name) :
      Turn table store (.running r)
        ⟨.moved (.failed a.running (.duplicateName name)), a.store, .running a.running⟩
  | fail {r : Running} {a : Attempt} {f : Fault} (ha : r.step store = a)
      (houtcome : a.outcome = .failed (.fault f)) :
      Turn table store (.running r) ⟨.moved (.failed a.running f), a.store, .running a.running⟩
  | breakOff {r : Running} {a : Attempt} {b : Breakage} (ha : r.step store = a)
      (houtcome : a.outcome = .failed (.breakage b)) :
      Turn table store (.running r) ⟨.broken b, a.store, .running a.running⟩
  | wake {r : Running} {s : Symbol} (hstored : store.contains s) :
      Turn table store (.awaitingEntry r s) ⟨.moved (.running r), store, .awaitingEntry r s⟩
  | handOver {r : Running} {s : Symbol} {v : Value} {ts : List Trace}
      (hhalted : table.get? s = some (.halted v ts)) :
      Turn table store (.awaitingHalt r s)
        ⟨.moved (.running ((r.record (.link (.process s) v)).returning v)), store,
          .awaitingHalt ((r.record (.link (.process s) v)).returning v) s⟩
  | orphan {r : Running} {s : Symbol} (hmissing : table.get? s = none) :
      Turn table store (.awaitingHalt r s)
        ⟨.moved (.failed r (.noSuchProcess s)), store, .awaitingHalt r s⟩
  | waitForEntry {r : Running} {s : Symbol} (hmissing : store.contains s = false) :
      Turn table store (.awaitingEntry r s) ⟨.resting, store, .awaitingEntry r s⟩
  | waitForHalt {r : Running} {s : Symbol} {q : Stage} (hget : table.get? s = some q)
      (hgoing : ∀ v ts, q ≠ .halted v ts) :
      Turn table store (.awaitingHalt r s) ⟨.resting, store, .awaitingHalt r s⟩
  | stayFailed (r : Running) (f : Fault) :
      Turn table store (.failed r f) ⟨.resting, store, .failed r f⟩
  | stayHalted (v : Value) (ts : List Trace) :
      Turn table store (.halted v ts) ⟨.resting, store, .halted v ts⟩
  /-- A process that waits for what cannot be looked up. -/
  | unfit {p : Stage} {s : Symbol} {b : Breakage} (hkey : s.asKey = .error b) :
      Turn table store p ⟨.broken b, store, p⟩

namespace Turn

variable {table : Processes} {store : Store} {r : Running}

theorem advance {a : Attempt} (ha : r.step store = a) :
    Turn table store (.running r) ⟨Stage.advance table a, a.store, .running a.running⟩ := by
  unfold Stage.advance
  cases houtcome : a.outcome with
  | moved => exact .step ha houtcome
  | signal s =>
      cases s with
      | halt v => exact .halt ha houtcome
      | awaitEntry s => exact .parkForEntry ha houtcome
      | awaitHalt s => exact .parkForHalt ha houtcome
      | spawn name env body =>
          dsimp only
          split
          next htaken => exact .clash ha houtcome htaken
          next hfree => exact .spawn ha houtcome (Bool.eq_false_iff.mpr hfree)
  | failed f =>
      cases f with
      | fault f => exact .fail ha houtcome
      | breakage b => exact .breakOff ha houtcome

theorem seek {p : Stage} {s : Symbol} {next : Symbol -> Visit}
    (hnext : Turn table store p (next s)) : Turn table store p (Stage.seek store p s next) := by
  unfold Stage.seek
  cases hkey : s.asKey with
  | ok key =>
      rw [Symbol.eq_of_asKey hkey]
      exact hnext
  | error b => exact .unfit hkey

/-- Every visit to a process is a turn of the list. -/
theorem of_visit {p : Stage} (hp : ∀ o, p ≠ .stray o) :
    Turn table store p (p.visit table store) := by
  cases p with
  | pending body => exact .start body
  | running r => exact advance rfl
  | awaitingEntry r s =>
      apply seek
      split
      next hstored => exact .wake hstored
      next hmissing => exact .waitForEntry (Bool.eq_false_iff.mpr hmissing)
  | awaitingHalt r s =>
      apply seek
      cases hget : table.get? s with
      | none => exact .orphan hget
      | some q =>
          cases q with
          | halted v ts => exact .handOver hget
          | _ => exact .waitForHalt hget (by intro v ts h; cases h)
  | failed r f => exact .stayFailed r f
  | halted v ts => exact .stayHalted v ts
  | stray o => exact absurd rfl (hp o)

theorem running_of_spawned {p next child : Stage} {v : Visit} {name : Symbol}
    (hturn : Turn table store p v) (h : v.outcome = .spawned next name child) :
    ∃ r r', next = .running r ∧ child = .running r' := by
  cases hturn with
  | spawn =>
      cases h
      exact ⟨_, _, rfl, rfl⟩
  | _ => cases h

end Turn

end PushValue
