import PushValue.Proofs.Cost
import PushValue.Proofs.Lasting
import PushValue.Proofs.Settling
import PushValue.Proofs.Waiting

/-!
# Runs that end

Boxes are the only way to repeat anything, so a program that extracts none comes to rest.
What is left to be done is added up over all processes, and every turn in which a process
moves lowers the sum.  A process that waits for an entry comes back to the link at which it
fell asleep.  It has the link ahead of it still, but the entry is there by then and stays,
so the link is charged less than one at which the process might fall asleep again.
-/

namespace PushValue

/-!
## Processes
-/

def Running.isLinked (store : Store) (r : Running) : Bool :=
  match r.control with
  | .link v =>
      match v.resolve r.env with
      | .ok (.symbol s) => store.contains s
      | _ => false
  | _ => false

def Stage.tally (c : Cost) (store : Store) : Stage -> Nat
  | .pending body => c.step + body.tally c
  | .running r => if r.isLinked store then 2 * c.step + r.stack.tally c else r.tally c
  | .awaitingEntry r _ | .awaitingHalt r _ => 3 * c.step + r.stack.tally c
  | .failed _ _ | .halted _ _ | .stray _ => 0

section Processes

variable {c : Cost} {store store' : Store} {r : Running}

theorem Running.exists_of_isLinked (h : r.isLinked store) :
    ∃ v s, r.control = .link v ∧ v.resolve r.env = .ok (.symbol s) ∧ store.contains s := by
  unfold isLinked at h
  split at h
  next v hcontrol =>
    split at h
    next s hv => exact ⟨v, s, hcontrol, hv, h⟩
    next => cases h
  next => cases h

theorem Running.isLinked_of_link {v : Value} {s : Symbol} (hcontrol : r.control = .link v)
    (hv : v.resolve r.env = .ok (.symbol s)) (hstored : store.contains s) :
    r.isLinked store := by
  simp only [isLinked, hcontrol, hv, hstored]

theorem Running.isLinked_mono (hstores : ∀ key, store.contains key -> store'.contains key)
    (h : r.isLinked store) : r.isLinked store' := by
  rcases exists_of_isLinked h with ⟨v, s, hcontrol, hv, hstored⟩
  exact isLinked_of_link hcontrol hv (hstores s hstored)

namespace Stage

theorem tally_running_le (c : Cost) (store : Store) (r : Running) :
    (running r).tally c store ≤ r.tally c := by
  rw [tally]
  split
  next hlinked =>
    rcases Running.exists_of_isLinked hlinked with ⟨v, s, hcontrol, _⟩
    rw [Running.tally, hcontrol, Computation.tally]
    omega
  next => exact Nat.le_refl _

theorem tally_mono (hstores : ∀ key, store.contains key -> store'.contains key) (p : Stage) :
    p.tally c store' ≤ p.tally c store := by
  cases p with
  | running r =>
      by_cases hlinked : r.isLinked store
      · have hsame : (running r).tally c store' = (running r).tally c store := by
          rw [tally, tally, if_pos hlinked, if_pos (Running.isLinked_mono hstores hlinked)]
        exact Nat.le_of_eq hsame
      · have hwhole : (running r).tally c store = r.tally c := if_neg hlinked
        rw [hwhole]
        exact tally_running_le c store' r
  | _ => exact Nat.le_refl _

theorem control_ne_extract (h : (running r).tally .extracts store = 0) (v : Value) :
    r.control ≠ .extract v := by
  -- A process at an extract has been charged for it, and the tally is zero.
  intro hcontrol
  have hlinked : ¬ r.isLinked store := by
    intro hlinked
    rcases Running.exists_of_isLinked hlinked with ⟨u, s, hlink, _⟩
    cases hlink.symm.trans hcontrol
  rw [tally, if_neg hlinked, Running.tally, hcontrol] at h
  change 1 + v.tally _ + r.stack.tally _ = 0 at h
  omega

end Stage

theorem Computation.step_le_tally {e : Computation} (h : ∀ v, e ≠ .extract v) (c : Cost) :
    c.step ≤ e.tally c := by
  cases e with
  | extract v => exact absurd rfl (h v)
  | _ =>
      unfold tally
      omega

theorem Stage.step_le_tally (h : ∀ v, r.control ≠ .extract v) :
    c.step ≤ (Stage.running r).tally c store := by
  have hcontrol := Computation.step_le_tally h c
  rw [tally, Running.tally]
  split
  · omega
  · omega

theorem Reduction.stage_tally_le {a : Attempt} (h : Reduction store r a)
    (hextract : ∀ v, r.control ≠ .extract v) :
    a.tally c + c.step ≤ (Stage.running r).tally c store := by
  by_cases hlinked : r.isLinked store
  · rcases Running.exists_of_isLinked hlinked with ⟨v, s, hcontrol, hv, hstored⟩
    rw [Stage.tally, if_pos hlinked]
    cases h with
    | link hlink =>
        show c.step + r.stack.tally c + c.step ≤ _
        omega
    | awaitEntry hlink hsymbol hmissing =>
        cases hcontrol.symm.trans hlink
        cases hv.symm.trans hsymbol
        cases hstored.symm.trans hmissing
    | awaitHalt hlink hprocess =>
        cases hcontrol.symm.trans hlink
        cases hv.symm.trans hprocess
    | halt hhands | leave hhands | bound hhands | boundBox hhands | droppedBox hhands =>
        cases hhands with
        | first hother => cases hcontrol.symm.trans hother
        | again hother => cases hcontrol.symm.trans hother
    | nest hother | spawn hother | bind hother | bindBox hother | extract hother | enter hother
    | choose hother | apply hother | project hother | put hother | get hother | switch hother
    | assert hother => cases hcontrol.symm.trans hother
  · rw [Stage.tally, if_neg hlinked]
    exact h.tally_le hextract

end Processes

/-!
## Turns
-/

/-- A turn in which a process moves lowers the cost of what is to be done, that of a child
included. -/
theorem Turn.tally_le {c : Cost} {table : Processes} {store : Store} {p : Stage} {v : Visit}
    (hturn : Turn table store p v) (hbroken : ∀ b, v.outcome ≠ .broken b) (hp : p.WaitsAtLink)
    (hextract : ∀ r, p = .running r -> ∀ u, r.control ≠ .extract u) :
    (v.outcome.next?.getD p).tally c store +
        Table.totalOf (Stage.tally c store) v.outcome.child?.toList +
        (if v.outcome.next?.isSome then c.step else 0) ≤ p.tally c store := by
  have hstep {r : Running} {a : Attempt} (ha : r.step store = a) (hr : p = .running r)
      (h : ∀ f, a.outcome ≠ .failed f) : a.tally c + c.step ≤ (Stage.running r).tally c store :=
    (Running.reduction_of_step ha h).stage_tally_le (hextract r hr)
  cases hturn with
  | start body =>
      have hbody : (Stage.running (Running.start body .empty)).tally c store ≤ body.tally c + 0 :=
        Stage.tally_running_le c store _
      show (Stage.running (Running.start body .empty)).tally c store + 0 + c.step ≤
        c.step + body.tally c
      omega
  | @step r a ha houtcome =>
      have hlowered := hstep ha rfl (by rw [houtcome]; exact nofun)
      have hnext := Stage.tally_running_le c store a.running
      simp only [Attempt.tally, houtcome] at hlowered
      show (Stage.running a.running).tally c store + 0 + c.step ≤ _
      omega
  | @halt r a w ha houtcome =>
      have hlowered := hstep ha rfl (by rw [houtcome]; exact nofun)
      show 0 + 0 + c.step ≤ _
      omega
  | @parkForEntry r a s ha houtcome | @parkForHalt r a s ha houtcome =>
      have hlowered := hstep ha rfl (by rw [houtcome]; exact nofun)
      rw [Attempt.tally, houtcome] at hlowered
      exact hlowered
  | @spawn r a name env body ha houtcome hfree =>
      have hlowered := hstep ha rfl (by rw [houtcome]; exact nofun)
      have hnext := Stage.tally_running_le c store a.running
      have hchild : (Stage.running (Running.start body env)).tally c store ≤ body.tally c + 0 :=
        Stage.tally_running_le c store _
      simp only [Attempt.tally, houtcome] at hlowered
      show (Stage.running a.running).tally c store +
        ((Stage.running (Running.start body env)).tally c store + 0) + c.step ≤ _
      omega
  | @clash r a name env body ha houtcome htaken =>
      have hlowered := hstep ha rfl (by rw [houtcome]; exact nofun)
      show 0 + 0 + c.step ≤ _
      omega
  | @fail r a f ha houtcome =>
      have hcharged := @Stage.step_le_tally c store r (hextract r rfl)
      show 0 + 0 + c.step ≤ _
      omega
  | breakOff | unfit => exact absurd rfl (hbroken _)
  | @wake r s hstored =>
      have hlinked : r.isLinked store := Running.isLinked_of_link hp rfl hstored
      have hnext : (Stage.running r).tally c store = 2 * c.step + r.stack.tally c := if_pos hlinked
      show (Stage.running r).tally c store + 0 + c.step ≤ 3 * c.step + r.stack.tally c
      omega
  | @handOver r s w ts hhalted =>
      have hnext : (Stage.running ((r.record (.link (.process s) w)).returning w)).tally c store ≤
          c.step + r.stack.tally c := Stage.tally_running_le c store _
      show (Stage.running ((r.record (.link (.process s) w)).returning w)).tally c store + 0 +
        c.step ≤ 3 * c.step + r.stack.tally c
      omega
  | @orphan r s hmissing =>
      show 0 + 0 + c.step ≤ 3 * c.step + r.stack.tally c
      omega
  | waitForEntry | waitForHalt | stayFailed | stayHalted => exact Nat.le_refl _

/-!
## Rounds
-/

namespace Sweep

/-- The cost of what is to be done after the visits so far, and of the step that was made if one
was. -/
def tally (c : Cost) (w : Sweep) : Nat :=
  w.next.total (Stage.tally c w.store) + Table.totalOf (Stage.tally c w.store) w.children +
    (if w.progressed then c.step else 0)

variable {c : Cost} {table : Processes} {w : Sweep} {name : Symbol} {p : Stage}

theorem total_move (f : Stage -> Nat) (hnext : w.next.get? name = some p) (next : Option Stage) :
    (w.next.move name next).total f + f p = w.next.total f + f (next.getD p) := by
  cases next with
  | none => rfl
  | some q => exact Table.total_insert_of_get? hnext q

theorem total_joined (f : Stage -> Nat) {children : List (Symbol × Stage)}
    (hfree : ∀ d ∈ children, table.contains d.1 = false)
    (hdistinct : (children.map Prod.fst).Nodup) :
    (joined table children).total f = table.total f + Table.totalOf f children := by
  induction children generalizing table with
  | nil => rfl
  | cons d rest ih =>
      rw [List.map_cons, List.nodup_cons] at hdistinct
      have hrest := ih (contains_insert_child hfree hdistinct.1) hdistinct.2
      have hd : (table.insert d.1 d.2).total f = table.total f + f d.2 :=
        Table.total_insert_of_contains (hfree d List.mem_cons_self) d.2
      show (joined (table.insert d.1 d.2) rest).total f = _
      rw [hrest, hd, Table.totalOf, Nat.add_assoc]

theorem tally_advance_le (hnext : w.next.get? name = some p)
    (hturn : Turn table w.store p (p.visit table w.store))
    (hbroken : ∀ b, (p.visit table w.store).outcome ≠ .broken b) (hp : p.WaitsAtLink)
    (hextract : ∀ r, p = .running r -> ∀ u, r.control ≠ .extract u) :
    (w.advance table name p).tally c ≤ w.tally c := by
  have hvisit : _ ≤ p.tally c w.store := hturn.tally_le hbroken hp hextract
  show (w.next.move name (p.visit table w.store).outcome.next?).total _ +
    Table.totalOf _ (w.children ++ (p.visit table w.store).outcome.child?.toList) +
    (if w.progressed || (p.visit table w.store).outcome.next?.isSome then c.step else 0) ≤ _
  generalize (p.visit table w.store).outcome.next? = next at hvisit ⊢
  generalize (p.visit table w.store).outcome.child?.toList = children at hvisit ⊢
  -- The entry that the process writes can only make the others cheaper.
  have hcheaper (q : Stage) : q.tally c (w.advance table name p).store ≤ q.tally c w.store :=
    Stage.tally_mono (fun _ hkey => Store.contains_write hkey _) q
  have hprocesses := Table.total_le_total hcheaper (w.next.move name next)
  have hmoved := total_move (Stage.tally c w.store) hnext next
  have hchildren := Table.totalOf_le_totalOf hcheaper (w.children ++ children)
  rw [Table.totalOf_append (Stage.tally c w.store)] at hchildren
  have hprogress : (if w.progressed || next.isSome then c.step else 0) ≤
      (if w.progressed then c.step else 0) + (if next.isSome then c.step else 0) := by
    cases w.progressed with
    | true => exact Nat.le_add_right _ _
    | false => exact Nat.le_add_left _ _
  unfold tally
  omega

/-- What the processes of a round have in common that come to an end. -/
structure Bounded (table : Processes) : Prop where
  live : table.all (Stage.passes .live)
  waiting : table.Holds Stage.WaitsAtLink
  extracts : ∀ name r, table.get? name = some (.running r) -> ∀ u, r.control ≠ .extract u

theorem tally_foldl_le (htable : Bounded table) {order : List Symbol} (hw : Sound table w)
    (hdistinct : order.Nodup) (hnext : ∀ name ∈ order, w.next.get? name = table.get? name) :
    (order.foldl (attend table) w).tally c ≤ w.tally c := by
  induction order generalizing w with
  | nil => exact Nat.le_refl _
  | cons name rest ih =>
      rw [List.nodup_cons] at hdistinct
      have hrest : ∀ other ∈ rest, (w.attend table name).next.get? other = table.get? other := by
        intro other hother
        have hne : other ≠ name := fun heq => hdistinct.1 (heq ▸ hother)
        rw [next_attend_of_ne hne]
        exact hnext other (List.mem_cons_of_mem name hother)
      have hlater := ih (hw.attend htable.live name) hdistinct.2 hrest
      have hhere : (w.attend table name).tally c ≤ w.tally c := by
        unfold attend
        cases hget : table.get? name with
        | none => exact Nat.le_refl _
        | some p =>
            have hp := Table.all_iff.mp htable.live name p hget
            apply tally_advance_le ((hnext name List.mem_cons_self).trans hget)
            · exact Turn.of_visit (Stage.ne_stray_of_passes hp)
            · intro b hb
              exact (Stage.visit_live htable.live hw.store hp).broken b hb Screen.strict_live
            · exact htable.waiting name p hget
            · rintro r rfl
              exact htable.extracts name r hget
      exact Nat.le_trans hlater hhere

end Sweep

namespace World

def tally (c : Cost) (world : World) : Nat := world.processes.total (Stage.tally c world.store)

variable {c : Cost} {world : World}

theorem tally_round_le (hlive : world.passes .live) (hworld : Sweep.Bounded world.processes) :
    world.round.world.tally c +
      (if (world.sweep world.processes.keys).progressed then c.step else 0) ≤ world.tally c := by
  have hsound := sound_sweep hlive world.processes.keys
  have hsweep : (world.sweep world.processes.keys).tally c ≤ (Sweep.start world).tally c :=
    Sweep.tally_foldl_le hworld (Sweep.sound_start world hlive) world.processes.keys_nodup
      fun _ _ => rfl
  have hjoined := Sweep.total_joined (Stage.tally c (world.sweep world.processes.keys).store)
    hsound.free hsound.distinct
  rw [round_eq hlive, roundIn_eq hlive]
  show Table.total _ (Sweep.joined _ _) + _ ≤ _
  rw [hjoined]
  exact hsweep

/-!
## Runs
-/

theorem bounded_of_tally (hlive : world.passes .live)
    (hwaiting : world.processes.Holds Stage.WaitsAtLink) (h : world.tally .extracts = 0) :
    Sweep.Bounded world.processes where
  live := (World.passes_iff.mp hlive).2.1
  waiting := hwaiting
  extracts name r hget := by
    have hr : (Stage.running r).tally .extracts world.store ≤ world.tally .extracts :=
      Table.le_total hget
    exact Stage.control_ne_extract (Nat.le_zero.mp (h ▸ hr))

theorem bounded_after (hlive : world.passes .live)
    (hwaiting : world.processes.Holds Stage.WaitsAtLink) (h : world.tally .extracts = 0)
    (n : Nat) : Sweep.Bounded (world.after n).processes := by
  suffices hnone : (world.after n).tally .extracts = 0 from
    bounded_of_tally (passes_after hlive n) (waitsAtLink_after hlive hwaiting n) hnone
  induction n with
  | zero => exact h
  | succ n ih =>
      have hbounded :=
        bounded_of_tally (passes_after hlive n) (waitsAtLink_after hlive hwaiting n) ih
      have hround := @tally_round_le .extracts _ (passes_after hlive n) hbounded
      rw [ih] at hround
      exact Nat.le_zero.mp (Nat.le_trans (Nat.le_add_right _ _) hround)

theorem tally_after_le (hlive : world.passes .live)
    (hbounded : ∀ n, Sweep.Bounded (world.after n).processes) {n : Nat}
    (hprogress : ∀ j, j < n -> (world.after j).round.result = .ok .progress) :
    (world.after n).tally .steps + n ≤ world.tally .steps := by
  induction n with
  | zero => exact Nat.le_refl _
  | succ n ih =>
      have hearlier := ih fun j hj => hprogress j (Nat.lt_succ_of_lt hj)
      have hlast := hprogress n (Nat.lt_succ_self n)
      rw [round_progress_iff (passes_after hlive n)] at hlast
      have hround := @tally_round_le .steps _ (passes_after hlive n) (hbounded n)
      rw [if_pos hlast] at hround
      change (world.after (n + 1)).tally .steps + 1 ≤ _ at hround
      omega

theorem progresses_or_settles (world : World) (n : Nat) :
    (∀ j, j < n -> (world.after j).round.result = .ok .progress) ∨
      ∃ k, k < n ∧ (∀ j, j < k -> (world.after j).round.result = .ok .progress) ∧
        (world.after k).round.result ≠ .ok .progress := by
  induction n with
  | zero => exact .inl nofun
  | succ n ih =>
      rcases ih with hall | ⟨k, hk, hbefore, hsettled⟩
      · by_cases hn : (world.after n).round.result = .ok .progress
        · left
          intro j hj
          rcases Nat.lt_succ_iff_lt_or_eq.mp hj with hlt | rfl
          · exact hall j hlt
          · exact hn
        · exact .inr ⟨n, Nat.lt_succ_self n, hall, hn⟩
      · exact .inr ⟨k, Nat.lt_succ_of_lt hk, hbefore, hsettled⟩

/-- A program that extracts nothing, apart from what the code of its boxes does, comes to rest: a
number of rounds that is bounded by the work in its text make progress and none does after them, so
a run without a limit ends. -/
theorem runs_settle (settings : Settings) (e : Computation) (he : e.passes .source)
    (hextracts : e.extracts = 0) :
    ∃ world k, ofComputation settings e = .ok world ∧ k ≤ e.work + 1 ∧
      (∀ n, (world.after n).round.result = .ok .progress ↔ n < k) ∧
      ∀ attempts, k < attempts -> world.runFor attempts = ⟨.settled k, world.after k⟩ := by
  rcases exists_hoisted settings he with ⟨names, hoisted, bs, hhoists, hworld, hlive⟩
  have htally (c : Cost) : (initial (hoisted.close bs)).tally c = c.step + e.tally c := by
    show c.step + (hoisted.close bs).tally c + 0 = c.step + e.tally c
    rw [Computation.tally_close, hhoists.tally_eq, Nat.add_zero]
  have hnone : (initial (hoisted.close bs)).tally .extracts = 0 :=
    (htally .extracts).trans ((Nat.zero_add _).trans hextracts)
  have hbounded := bounded_after hlive (Stage.Lasts.holds_initial trivial) hnone
  have hwork : (initial (hoisted.close bs)).tally .steps = 1 + e.work := htally .steps
  rcases progresses_or_settles (initial (hoisted.close bs)) (e.work + 2) with
    hall | ⟨k, hk, hbefore, hsettled⟩
  · have hused := tally_after_le hlive hbounded hall
    omega
  refine ⟨_, k, hworld, by omega, ?_, ?_⟩
  · intro n
    constructor
    · intro hprogress
      by_cases hn : n < k
      · exact hn
      · rw [after_of_not_progress hlive hsettled (Nat.not_lt.mp hn)] at hprogress
        exact absurd hprogress hsettled
    · exact hbefore n
  · intro attempts hattempts
    exact runFrom_eq_settled hlive hbefore hsettled (Nat.zero_le k) (by omega)

def spawnWaiterThenPut : Computation :=
  .bindBox (.variable "f")
    (.ret (.box (.mk (.extract (.variable "f")) (some "f") .nil)))
    (.bind (.variable "p")
      (.spawn (.symbol (.name "p"))
        (.bind (.variable "x") (.link (.symbol (.name "a"))) (.get (.variable "x"))))
      (.bind .ignore (.nest (.symbol (.name "n")) (.ret (.operand (.ret (.number 1)))))
        (.bind .ignore (.put (.symbol (.name "a")) (.number 2)) (.link (.variable "p")))))

theorem spawnWaiterThenPut_settles :
    spawnWaiterThenPut.passes .source ∧ spawnWaiterThenPut.extracts = 0 ∧
      spawnWaiterThenPut.work = 25 ∧
      ∃ world, ofComputation {} spawnWaiterThenPut = .ok world ∧
        (∀ attempts, 20 < attempts -> world.runFor attempts = ⟨.settled 20, world.after 20⟩) ∧
        (world.after 20).processes.result? .anonymous = some (.number 2) := by
  rcases runs_settle {} spawnWaiterThenPut rfl rfl with ⟨world, k, hworld, _, hprogress, hrun⟩
  cases hworld
  have hlast : 19 < k := (hprogress 19).mp rfl
  have hrest : ¬ 20 < k := by
    intro h
    cases (hprogress 20).mpr h
  have hk : k = 20 := by omega
  subst hk
  exact ⟨rfl, rfl, rfl, _, rfl, hrun, rfl⟩

end World

end PushValue
