import PushValue.Proofs.Renaming.Step

/-!
# Runs under a renaming

Renamed worlds go through the same rounds.  Every visit of a round comes to the same on both
sides, so the rounds report the same and leave renamed worlds, and runs end in the same way after
the same number of rounds.
-/

namespace PushValue

/-!
## Worlds
-/

section

variable (R : String -> String -> Prop)

inductive Stage.Renamed : Stage -> Stage -> Prop
  | pending {e e' : Computation} (he : e.Renamed R e') : Renamed (.pending e) (.pending e')
  | running {r r' : Running} (hr : r.Renamed R r') : Renamed (.running r) (.running r')
  | awaitingEntry {r r' : Running} (hr : r.Renamed R r') (s : Symbol) :
      Renamed (.awaitingEntry r s) (.awaitingEntry r' s)
  | awaitingHalt {r r' : Running} (hr : r.Renamed R r') (s : Symbol) :
      Renamed (.awaitingHalt r s) (.awaitingHalt r' s)
  | failed {r r' : Running} {f f' : Fault} (hr : r.Renamed R r') (hf : f.Renamed R f') :
      Renamed (.failed r f) (.failed r' f')
  | halted {v v' : Value} {ts ts' : List Trace} (hv : v.Renamed R v')
      (hts : List.Forall₂ (Trace.Renamed R) ts ts') : Renamed (.halted v ts) (.halted v' ts')

abbrev Processes.Renamed (table table' : Processes) : Prop :=
  table.Related (Stage.Renamed R) table'

structure World.Renamed (world world' : World) : Prop where
  store : world.store.Renamed R world'.store
  processes : world.processes.Renamed R world'.processes

structure Round.Renamed (r r' : Round) : Prop where
  result : r.result = r'.result
  world : r.world.Renamed R r'.world

structure Run.Renamed (r r' : Run) : Prop where
  ending : r.ending = r'.ending
  world : r.world.Renamed R r'.world

end

variable {R : String -> String -> Prop}

/-!
## Visits
-/

namespace Stage.Renamed

variable {table table' : Processes} {store store' : Store} {p p' : Stage}

theorem advance (htable : table.Renamed R table') {a a' : Attempt} (ha : a.Renamed R a') :
    (Stage.advance table a).Related (Stage.Renamed R) (Stage.advance table' a') := by
  have hr := ha.running
  have houtcome := ha.outcome
  unfold Stage.advance
  generalize a.outcome = outcome, a'.outcome = outcome' at houtcome ⊢
  cases houtcome with
  | moved => exact .moved (.running hr)
  | signal hs =>
      cases hs with
      | halt hv => exact .moved (.halted hv hr.trace)
      | awaitEntry s => exact .moved (.awaitingEntry hr s)
      | awaitHalt s => exact .moved (.awaitingHalt hr s)
      | spawn name henv he =>
          show Visit.Outcome.Related (Stage.Renamed R) (if table.contains name then _ else _)
            (if table'.contains name then _ else _)
          rw [htable.contains name]
          split
          · exact .moved (.failed hr (.duplicateName name))
          · exact .spawned name (.running hr) (.running (.start he henv))
  | failed hf =>
      cases hf with
      | fault hf => exact .moved (.failed hr hf)
      | breakage b => exact .broken b

theorem seek (hstore : store.Renamed R store') (hp : p.Renamed R p') (s : Symbol)
    {next next' : Symbol -> Visit}
    (hnext : ∀ s, (next s).Related (Value.Renamed R) (Stage.Renamed R) (next' s)) :
    (Stage.seek store p s next).Related (Value.Renamed R) (Stage.Renamed R)
      (Stage.seek store' p' s next') := by
  unfold Stage.seek
  cases s.asKey with
  | ok t => exact hnext t
  | error b => exact ⟨.broken b, hstore, hp⟩

theorem visit (hR : Relator.BiUnique R) (htable : table.Renamed R table')
    (hstore : store.Renamed R store') (hp : p.Renamed R p') :
    (p.visit table store).Related (Value.Renamed R) (Stage.Renamed R)
      (p'.visit table' store') := by
  cases hp with
  | pending he => exact ⟨.moved (.running (.start he .empty)), hstore, .pending he⟩
  | running hr =>
      have ha := hr.step hR hstore
      exact ⟨advance htable ha, ha.store, .running ha.running⟩
  | awaitingEntry hr s =>
      refine seek hstore (.awaitingEntry hr s) s fun t => ?_
      rw [hstore.contains t]
      split
      · exact ⟨.moved (.running hr), hstore, .awaitingEntry hr s⟩
      · exact ⟨.resting, hstore, .awaitingEntry hr s⟩
  | awaitingHalt hr s =>
      refine seek hstore (.awaitingHalt hr s) s fun t => ?_
      have hfound := htable t
      generalize table.get? t = found, table'.get? t = found' at hfound ⊢
      cases hfound with
      | none => exact ⟨.moved (.failed hr (.noSuchProcess t)), hstore, .awaitingHalt hr s⟩
      | some hq =>
          cases hq with
          | halted hv hts =>
              have hlinked := (hr.record (.link (.process t) hv)).returning hv
              exact ⟨.moved (.running hlinked), hstore, .awaitingHalt hlinked t⟩
          | _ => exact ⟨.resting, hstore, .awaitingHalt hr s⟩
  | failed hr hf => exact ⟨.resting, hstore, .failed hr hf⟩
  | halted hv hts => exact ⟨.resting, hstore, .halted hv hts⟩

end Stage.Renamed

def Bisimulation.ofRenaming (hR : Relator.BiUnique R) : Bisimulation where
  value := Value.Renamed R
  stage := Stage.Renamed R
  handle := by
    rintro _ _ name rfl rfl
    exact .process name
  visit := Stage.Renamed.visit hR

namespace World.Renamed

variable {world world' : World}

theorem initial {e e' : Computation} (he : e.Renamed R e') :
    (World.initial e).Renamed R (World.initial e') where
  store := Table.Related.empty
  processes := Table.Related.empty.insert Symbol.anonymous (Stage.Renamed.pending he)

theorem worlds (hR : Relator.BiUnique R) (h : world.Renamed R world') :
    (Bisimulation.ofRenaming hR).Worlds world world' :=
  ⟨h.store, h.processes⟩

theorem of_worlds {hR : Relator.BiUnique R} (h : (Bisimulation.ofRenaming hR).Worlds world world') :
    world.Renamed R world' :=
  ⟨h.store, h.processes⟩

/-!
## Rounds and runs
-/

theorem round (hR : Relator.BiUnique R) (h : world.Renamed R world') :
    world.round.Renamed R world'.round := by
  have hround := (h.worlds hR).round
  exact ⟨hround.result, of_worlds hround.world⟩

theorem after (hR : Relator.BiUnique R) (h : world.Renamed R world') (n : Nat) :
    (world.after n).Renamed R (world'.after n) :=
  of_worlds ((h.worlds hR).after n)

theorem run (hR : Relator.BiUnique R) (h : world.Renamed R world') (limit : Option Int)
    (attempts : Nat) : (world.run limit attempts).Renamed R (world'.run limit attempts) := by
  have hrun := (h.worlds hR).run limit attempts
  exact ⟨hrun.ending, of_worlds hrun.world⟩

end World.Renamed

end PushValue
