import PushValue.Proofs.Growing
import PushValue.Proofs.Screen.Normalize
import PushValue.Proofs.Turn

/-!
# Links

A process records every link that it makes.  A link to a process is made when that
process has halted, and records the value with which it did; halted processes never
change and names are never given twice, so all links to one process record the same
value, and it stays the value of that process.  A link to a symbol records the pointer to
the entry under the symbol, which stays in the store.
-/

namespace PushValue

/-- A ledger bears a link out. -/
def Ledger.Bears (L : Ledger) (target result : Value) : Prop :=
  (∃ q, target = .process q ∧ L.results q = some result) ∨
    ∃ s, target = .symbol s ∧ result = .pointer s ∧ L.entries s

theorem Ledger.Bears.mono {L M : Ledger} {t v : Value} (hlink : L.Bears t v) (h : L.Within M) :
    M.Bears t v := by
  rcases hlink with ⟨q, ht, hresult⟩ | ⟨s, ht, hv, hstored⟩
  · exact .inl ⟨q, ht, h.results q v hresult⟩
  · exact .inr ⟨s, ht, hv, h.entries s hstored⟩

def Ledger.BearsAll (L : Ledger) (past : List Trace) : Prop :=
  ∀ t v, .link t v ∈ past -> L.Bears t v

namespace Ledger

variable {L : Ledger} {r : Running} {store : Store} {table : Processes}

theorem bearsAll_nil : L.BearsAll [] := by
  intro t v h
  cases h

theorem BearsAll.record {entry : Trace} (hr : L.BearsAll r.history)
    (hentry : L.BearsAll entry.flat) : L.BearsAll (r.record entry).history := by
  intro t v hlink
  rw [Running.history_record] at hlink
  rcases List.mem_append.mp hlink with hold | hnew
  · exact hr t v hold
  · exact hentry t v hnew

theorem bearsAll_link {target result : Value} (h : L.Bears target result) :
    L.BearsAll (Trace.flat (.link target result)) := by
  intro t v hlink
  cases List.mem_singleton.mp hlink
  exact h

/-!
## Steps and turns
-/

theorem bearsAll_step {a : Attempt} (ha : Effect store r a)
    (hentries : ∀ s, store.contains s -> L.entries s) (hr : L.BearsAll r.history) :
    L.BearsAll a.running.history := by
  cases ha with
  | quiet hquiet =>
      intro t v hlink
      exact hr t v (hquiet.links t v hlink)
  | put | get =>
      apply hr.record
      intro t v hlink
      cases List.mem_singleton.mp hlink
  | link hcontrol hv hstored =>
      exact hr.record (bearsAll_link (.inr ⟨_, rfl, rfl, hentries _ hstored⟩))
  | miss | awaitEntry | awaitHalt | collide | spawn => exact hr

def BearsStage (L : Ledger) : Stage -> Prop
  | .stray _ => False
  | p => L.BearsAll p.history

theorem BearsStage.history {p : Stage} (hp : L.BearsStage p) : L.BearsAll p.history := by
  cases p with
  | stray o => cases hp
  | _ => exact hp

theorem BearsStage.ne_stray {p : Stage} (hp : L.BearsStage p) (o : Object) : p ≠ .stray o := by
  intro h
  rw [h] at hp
  exact hp

theorem BearsStage.mono {M : Ledger} {p : Stage} (hp : L.BearsStage p) (h : L.Within M) :
    M.BearsStage p := by
  cases p with
  | stray o => cases hp
  | _ =>
      intro t v hlink
      exact (hp t v hlink).mono h

/-- The stages that a turn leaves have only links that the ledger bears out, if it has the entries
of the store and the results of the table. -/
theorem keeps_turn {p : Stage} {v : Visit} (hturn : Turn table store p v)
    (hentries : ∀ s, store.contains s -> L.entries s)
    (hresults : ∀ q x, table.result? q = some x -> L.results q = some x)
    (hp : L.BearsStage p) : v.Keeps (fun _ => True) L.BearsStage := by
  have hstep {r : Running} {a : Attempt} (hr : L.BearsStage (.running r))
      (ha : r.step store = a) : L.BearsAll a.running.history := by
    rw [← ha]
    exact bearsAll_step (r.step_effect store) hentries hr
  have htrue (store : Store) : store.Holds fun _ => True := fun _ _ _ => trivial
  -- Only the step of a link and the handing over of a result add a link to the history.
  cases hturn with
  | start body => exact Visit.keeps_moved (htrue _) hp bearsAll_nil
  | step ha | parkForEntry ha | parkForHalt ha | clash ha | fail ha =>
      exact Visit.keeps_moved (htrue _) (hstep hp ha) (hstep hp ha)
  | halt ha =>
      apply Visit.keeps_moved (htrue _) (hstep hp ha)
      intro t x hlink
      exact hstep hp ha t x (List.mem_append_right _ hlink)
  | spawn ha => exact Visit.keeps_spawned (htrue _) (hstep hp ha) (hstep hp ha) bearsAll_nil
  | breakOff ha => exact Visit.keeps_broken (htrue _) (hstep hp ha)
  | wake | orphan => exact Visit.keeps_moved (htrue _) hp hp
  | @handOver r s x ts hhalted =>
      have hresult : L.Bears (.process s) x :=
        .inl ⟨s, rfl, hresults s x (Processes.result?_eq_some_iff.mpr ⟨ts, hhalted⟩)⟩
      have hlinked : L.BearsAll ((r.record (.link (.process s) x)).returning x).history :=
        BearsAll.record hp (bearsAll_link hresult)
      exact Visit.keeps_moved (htrue _) hlinked hlinked
  | waitForEntry | waitForHalt | stayFailed | stayHalted => exact Visit.keeps_resting (htrue _) hp
  | unfit => exact Visit.keeps_broken (htrue _) hp

end Ledger

def Growing.links : Growing where
  value _ _ := True
  stage := Ledger.BearsStage
  value_mono _ _ := trivial
  stage_mono h hp := hp.mono h
  visit := by
    intro world w p v L hextends _hprocesses _hstore hp hvisit hL
    have hvisited := Sweep.ledger_within_visited hvisit hL
    have hlater := hp.mono (hextends.ledger_within.trans hvisited)
    have hturn := @Turn.of_visit world.processes w.store p hp.ne_stray
    rw [hvisit] at hturn
    constructor
    · exact Ledger.keeps_turn hturn hvisited.entries hvisited.results hlater
    · intro next name child _h
      trivial

theorem Growing.nameless_links : Growing.links.Nameless :=
  ⟨fun _ hv => hv, fun _ hp => hp⟩

namespace World

/-!
## Runs
-/

theorem bears_after {settings : Settings} {e : Computation} {world : World}
    (hworld : ofComputation settings e = .ok world) (n : Nat) {name : Symbol} {p : Stage}
    (hget : (world.after n).processes.get? name = some p) :
    (world.after n).ledger.BearsAll p.history := by
  rcases exists_of_ofComputation hworld with ⟨e', bs, supply, _hoisted, rfl⟩
  have hinitial : Growing.links.Holds (initial (e'.close bs)) :=
    Growing.holds_initial Ledger.bearsAll_nil
  have hholds := Growing.holds_after hinitial n (.inl Growing.nameless_links)
  exact Ledger.BearsStage.history (hholds.2 name p hget)

/-- A link to a process records the value with which that process has halted, and a link to a
symbol records the pointer to an entry, now and at all later times.  So two links to one process
record the same value, whoever made them and when. -/
theorem link_agreement (settings : Settings) (e : Computation) (world : World)
    (hworld : ofComputation settings e = .ok world) :
    (∀ n m name p t v, n ≤ m -> (world.after n).processes.get? name = some p ->
      .link t v ∈ p.history ->
      (∃ q ts, t = .process q ∧ (world.after m).processes.get? q = some (.halted v ts)) ∨
        ∃ s, t = .symbol s ∧ v = .pointer s ∧ (world.after m).store.contains s) ∧
      ∀ n n' name name' p p' q v v', (world.after n).processes.get? name = some p ->
        .link (.process q) v ∈ p.history -> (world.after n').processes.get? name' = some p' ->
        .link (.process q) v' ∈ p'.history -> v = v' := by
  have hborne : ∀ n m name p t v, n ≤ m -> (world.after n).processes.get? name = some p ->
      .link t v ∈ p.history -> (world.after m).ledger.Bears t v := by
    intro n m name p t v hnm hget hlink
    exact (bears_after hworld n hget t v hlink).mono (world.ledger_within_after hnm)
  constructor
  · intro n m name p t v hnm hget hlink
    rcases hborne n m name p t v hnm hget hlink with ⟨q, ht, hresult⟩ | hsymbol
    · rcases Processes.result?_eq_some_iff.mp hresult with ⟨ts, hhalted⟩
      exact .inl ⟨q, ts, ht, hhalted⟩
    · exact .inr hsymbol
  · intro n n' name name' p p' q v v' hget hlink hget' hlink'
    have hleft := hborne n (max n n') name p _ v (Nat.le_max_left n n') hget hlink
    have hright := hborne n' (max n n') name' p' _ v' (Nat.le_max_right n n') hget' hlink'
    rcases hleft with ⟨q₁, ht, hresult⟩ | ⟨s, ht, _⟩
    · rcases hright with ⟨q₂, ht', hresult'⟩ | ⟨s, ht', _⟩
      · cases ht
        cases ht'
        rw [hresult] at hresult'
        exact Option.some.inj hresult'
      · cases ht'
    · cases ht

def twoLinkers : Computation :=
  .bind (.variable "p") (.spawn (.symbol (.name "a")) (.ret (.number 1)))
    (.bind .ignore
      (.spawn (.symbol (.name "b")) (.nest (.symbol (.name "n")) (.link (.variable "p"))))
      (.bind .ignore (.link (.symbol (.name "b"))) (.link (.variable "p"))))

theorem twoLinkers_link_agreement :
    ∃ world p q, ofComputation {} twoLinkers = .ok world ∧
      (world.after 10).processes.get? (.name "b") = some p ∧
      .link (.process (.name "a")) (.number 1) ∈ p.history ∧
      (world.after 13).processes.get? .anonymous = some q ∧
      .link (.process (.name "a")) (.number 1) ∈ q.history ∧
      ∃ ts, (world.after 20).processes.get? (.name "a") = some (.halted (.number 1) ts) := by
  have hagree := link_agreement {} twoLinkers _ rfl
  refine ⟨_, _, _, rfl, rfl, List.mem_cons_self, rfl, List.mem_cons_of_mem _ List.mem_cons_self, ?_⟩
  rcases hagree.1 10 20 (.name "b") _ _ _ (by decide) rfl List.mem_cons_self with
    ⟨q, ts, hq, hhalted⟩ | ⟨s, hs, _⟩
  · cases hq
    exact ⟨ts, hhalted⟩
  · cases hs

end World

end PushValue
