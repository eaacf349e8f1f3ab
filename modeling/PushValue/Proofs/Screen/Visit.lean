import PushValue.Proofs.Screen.Step

/-!
# Visits under a screen

A visit to a process that passes a screen leaves a store and a stage that pass it,
and a process that it asks for passes as well.  Under a strict screen no visit breaks,
unless the process has come to a hole.
-/

namespace PushValue

/-- A visit of which everything passes.  If the round is given up, the process is left with a
snapshot that may have holes. -/
structure Visit.Passes (S : Screen) (v : Visit) : Prop where
  store : v.store.all (Value.passes S)
  left : v.left.passes S.holed
  moved : ∀ next, v.outcome = .moved next -> next.passes S
  spawned : ∀ next name child, v.outcome = .spawned next name child ->
    next.passes S ∧ child.passes S ∧ S.symbol name
  fault : ∀ r f, v.outcome = .moved (.failed r f) -> S.Tolerates (.fault f)
  broken : ∀ b, v.outcome = .broken b -> ¬ S.Strict

namespace Stage

variable {S : Screen} {table : Processes} {store : Store}

theorem passes_mono {T : Screen} (h : S.Within T) {p : Stage} (hp : p.passes S) :
    p.passes T := by
  cases p with
  | pending body => exact body.passes_mono h hp
  | running r => exact Running.passes_mono h hp
  | awaitingEntry r s =>
      simp only [Stage.passes, Bool.and_eq_true] at hp ⊢
      exact ⟨Running.passes_mono h hp.1, h.symbol s hp.2⟩
  | awaitingHalt r s =>
      simp only [Stage.passes, Bool.and_eq_true] at hp ⊢
      exact ⟨Running.passes_mono h hp.1, h.process s hp.2⟩
  | failed r f => rfl
  | halted v ts =>
      simp only [Stage.passes, Bool.and_eq_true] at hp ⊢
      exact ⟨v.passes_mono h hp.1, Trace.passesAll_mono h ts hp.2⟩
  | stray o => cases hp

theorem ne_stray_of_passes {p : Stage} (hp : p.passes S) (o : Object) : p ≠ .stray o := by
  intro h
  rw [h] at hp
  cases hp

/-!
## Endings of a visit
-/

theorem visit_passes_resting {p : Stage} (hstore : store.all (Value.passes S))
    (hp : p.passes S) : Visit.Passes S ⟨.resting, store, p⟩ where
  store := hstore
  left := passes_mono S.within_holed hp
  moved := by
    intro next h
    cases h
  spawned := by
    intro next name child h
    cases h
  fault := by
    intro r f h
    cases h
  broken := by
    intro b h
    cases h

theorem visit_passes_moved {p q : Stage} (hstore : store.all (Value.passes S))
    (hp : p.passes S.holed) (hq : q.passes S)
    (hfault : ∀ r f, q = .failed r f -> S.Tolerates (.fault f)) :
    Visit.Passes S ⟨.moved q, store, p⟩ where
  store := hstore
  left := hp
  moved := by
    intro next h
    cases h
    exact hq
  spawned := by
    intro next name child h
    cases h
  fault := by
    intro r f h
    cases h
    exact hfault r f rfl
  broken := by
    intro b h
    cases h

/-- A process that goes on has not failed. -/
theorem visit_passes_running {p : Stage} {r : Running} (hstore : store.all (Value.passes S))
    (hp : p.passes S.holed) (hr : r.passes S) :
    Visit.Passes S ⟨.moved (.running r), store, p⟩ := by
  have hnext : (Stage.running r).passes S := hr
  apply visit_passes_moved hstore hp hnext
  intro r' f h
  cases h

theorem visit_passes_failed {p : Stage} {r : Running} {f : Fault}
    (hstore : store.all (Value.passes S)) (hp : p.passes S.holed)
    (hf : S.Tolerates (.fault f)) : Visit.Passes S ⟨.moved (.failed r f), store, p⟩ := by
  apply visit_passes_moved hstore hp rfl
  intro r' f' h
  cases h
  exact hf

theorem visit_passes_broken {p : Stage} {b : Breakage} (hstore : store.all (Value.passes S))
    (hp : p.passes S.holed) (hstrict : ¬ S.Strict) : Visit.Passes S ⟨.broken b, store, p⟩ where
  store := hstore
  left := hp
  moved := by
    intro next h
    cases h
  spawned := by
    intro next name child h
    cases h
  fault := by
    intro r f h
    cases h
  broken := by
    intro _ _
    exact hstrict

theorem start_passes {body : Computation} {env : Environment} (hbody : body.passes S)
    (henv : env.passes S) : (Running.start body env).passes S := by
  rw [Running.passes_iff]
  exact ⟨Computation.passesControl_of_passes hbody, henv, rfl, rfl⟩

theorem seek_passes {p : Stage} {s : Symbol} {next : Symbol -> Visit}
    (hstore : store.all (Value.passes S)) (hp : p.passes S) (hs : S.Strict -> s.isProper)
    (hnext : Visit.Passes S (next s)) : Visit.Passes S (seek store p s next) := by
  have hkey := Symbol.asKey_meets hs
  unfold seek
  cases heq : s.asKey with
  | ok t =>
      rw [heq] at hkey
      rw [show t = s from hkey]
      exact hnext
  | error b =>
      rw [heq] at hkey
      exact visit_passes_broken hstore (passes_mono S.within_holed hp) hkey

/-!
## All stages
-/

theorem advance_passes {a : Attempt} (ha : a.Passes S) :
    Visit.Passes S ⟨advance table a, a.store, running a.running⟩ := by
  have hleft : (running a.running).passes S.holed := by
    have hrunning := ha.running
    cases houtcome : a.outcome with
    | moved | signal s =>
        rw [houtcome] at hrunning
        exact Running.passes_mono S.within_holed hrunning
    | failed f =>
        rw [houtcome] at hrunning
        exact hrunning
  unfold advance
  cases houtcome : a.outcome with
  | moved =>
      have hrunning := ha.running
      rw [houtcome] at hrunning
      exact visit_passes_running ha.store hleft hrunning
  | failed f =>
      cases f with
      | fault f => exact visit_passes_failed ha.store hleft (ha.failure _ houtcome)
      | breakage b =>
          exact visit_passes_broken ha.store hleft (ha.failure _ houtcome)
  | signal s =>
      have hrunning := ha.running
      rw [houtcome] at hrunning
      have hsignal := ha.signal s houtcome
      cases s with
      | halt v =>
          have hhalted : (Stage.halted v a.running.trace).passes S := by
            simp only [Stage.passes, Bool.and_eq_true]
            exact ⟨hsignal, (Running.passes_iff.mp hrunning).2.2.2⟩
          apply visit_passes_moved ha.store hleft hhalted
          intro r f h
          cases h
      | awaitEntry s =>
          have hwaiting : (Stage.awaitingEntry a.running s).passes S :=
            Bool.and_eq_true_iff.mpr ⟨hrunning, hsignal⟩
          apply visit_passes_moved ha.store hleft hwaiting
          intro r f h
          cases h
      | awaitHalt s =>
          have hwaiting : (Stage.awaitingHalt a.running s).passes S :=
            Bool.and_eq_true_iff.mpr ⟨hrunning, hsignal⟩
          apply visit_passes_moved ha.store hleft hwaiting
          intro r f h
          cases h
      | spawn name env body =>
          simp only [Signal.passes, Bool.and_eq_true] at hsignal
          dsimp only
          split
          · exact visit_passes_failed ha.store hleft trivial
          · exact {
              store := ha.store
              left := hleft
              moved := by
                intro next h
                cases h
              spawned := by
                intro next name' child h
                cases h
                exact ⟨hrunning, start_passes hsignal.2 hsignal.1.2, hsignal.1.1⟩
              fault := by
                intro r f h
                cases h
              broken := by
                intro b h
                cases h }

theorem visit_passes {p : Stage} (htable : table.all (Stage.passes S))
    (hstore : store.all (Value.passes S)) (hp : p.passes S)
    (hadmits : ∀ r, p = .running r -> S.Admits (r.step store))
    (hhole : ∀ r, p = .running r -> r.control = .hole -> ¬ S.Strict) :
    Visit.Passes S (p.visit table store) := by
  have hholed := passes_mono S.within_holed hp
  cases p with
  | pending body =>
      exact visit_passes_running hstore hholed (start_passes hp Environment.passes_empty)
  | running r => exact advance_passes (Running.step_passes hstore hp (hhole r rfl) (hadmits r rfl))
  | awaitingEntry r s =>
      have hparts := hp
      simp only [Stage.passes, Bool.and_eq_true] at hparts
      apply seek_passes hstore hp (fun strict => strict.symbol s hparts.2)
      split
      · exact visit_passes_running hstore hholed hparts.1
      · exact visit_passes_resting hstore hp
  | awaitingHalt r s =>
      have hparts := hp
      simp only [Stage.passes, Bool.and_eq_true] at hparts
      apply seek_passes hstore hp (fun strict => strict.process s hparts.2)
      cases htarget : table.get? s with
      | none => exact visit_passes_failed hstore hholed trivial
      | some q =>
          cases q with
          | halted v ts =>
              have hq := Table.all_iff.mp htable s _ htarget
              simp only [Stage.passes, Bool.and_eq_true] at hq
              have hresumed : ((r.record (.link (.process s) v)).returning v).passes S := by
                rw [Running.passes_iff] at hparts ⊢
                refine ⟨hq.1, hparts.1.2.1, hparts.1.2.2.1, ?_⟩
                show Trace.passesAll S (r.trace ++ [.link (.process s) v])
                rw [Trace.passesAll_append, hparts.1.2.2.2]
                simp only [Trace.passesAll, Trace.passes, Value.passes, hparts.2, hq.1]
                rfl
              apply visit_passes_running hstore _ hresumed
              simp only [Stage.passes, Bool.and_eq_true]
              exact ⟨Running.passes_mono S.within_holed hresumed, hparts.2⟩
          | _ => exact visit_passes_resting hstore hp
  | failed r f | halted v ts => exact visit_passes_resting hstore hp
  | stray o => cases hp

end Stage

end PushValue
