import PushValue.Proofs.Lifecycle

/-!
# Isolation of failures

A process that fails changes nothing but itself.  The step that fails writes no entry and
asks for no process.  The other processes look at it in two ways only: a spawn asks whether
its name is taken, and a link asks whether it has halted.  A process that is about to
fail, one that has just failed and one that failed long ago give the same answers.

The proof compares two runs that differ in the process of one name.  Both go through the
same visits in the same order, and the difference stays where it is.
-/

namespace PushValue

/-!
## Failing steps and turns
-/

theorem Effect.store_eq_of_ne_moved {store : Store} {r : Running} {a : Attempt}
    (ha : Effect store r a) (h : a.outcome ≠ .moved) : a.store = store := by
  cases ha with
  | quiet hquiet => exact hquiet.store
  | put => exact absurd rfl h
  | _ => rfl

theorem Turn.inert_of_failed {table : Processes} {store : Store} {p : Stage} {v : Visit}
    {r : Running} {f : Fault} (hturn : Turn table store p v)
    (h : v.outcome.next?.getD p = .failed r f) :
    v.store = store ∧ v.outcome.child? = none := by
  have hstep {r : Running} {a : Attempt} (ha : r.step store = a) (hmoved : a.outcome ≠ .moved) :
      a.store = store := by
    rw [← ha] at hmoved ⊢
    exact (r.step_effect store).store_eq_of_ne_moved hmoved
  cases hturn with
  | fail ha houtcome | clash ha houtcome =>
      constructor
      · apply hstep ha
        rw [houtcome]
        intro hmoved
        cases hmoved
      · rfl
  | orphan | stayFailed | unfit => exact ⟨rfl, rfl⟩
  | _ => cases h

/-!
## What processes see of each other
-/

/-- Two process tables that no visit can tell apart. -/
structure Processes.Alike (table table' : Processes) : Prop where
  names : ∀ name, table.contains name = table'.contains name
  results : ∀ name, table.result? name = table'.result? name

namespace Stage

variable {table table' : Processes} {p : Stage}

theorem visit_alike (h : table.Alike table') (hp : p.passes .live) (store : Store) :
    p.visit table store = p.visit table' store := by
  cases p with
  | running r =>
      have hadvance : advance table (r.step store) = advance table' (r.step store) := by
        unfold advance
        simp only [h.names]
      rw [visit, visit, hadvance]
  | awaitingHalt r s =>
      simp only [Stage.passes, Bool.and_eq_true] at hp
      rw [visit_awaitingHalt hp.2, visit_awaitingHalt hp.2]
      have hname := h.names s
      have hresult := h.results s
      simp only [Table.contains] at hname
      simp only [Processes.result?] at hresult
      cases hq : table.get? s with
      | none =>
          cases hq' : table'.get? s with
          | none => rfl
          | some q' => simp [hq, hq'] at hname
      | some q =>
          cases hq' : table'.get? s with
          | none => simp [hq, hq'] at hname
          | some q' =>
              rw [hq, hq', Option.bind_some, Option.bind_some] at hresult
              cases q with
              | halted v ts =>
                  cases q' with
                  | halted v' ts' =>
                      cases hresult
                      rfl
                  | _ => cases hresult
              | _ =>
                  cases q' with
                  | halted v' ts' => cases hresult
                  | _ => rfl
  | pending body | awaitingEntry r s | failed r f | halted v ts => rfl
  | stray o => cases hp

theorem written?_alike (h : table.Alike table') (p : Stage) (store : Store) :
    p.written? table store = p.written? table' store := by
  cases p with
  | running r => simp only [written?, h.names]
  | _ => rfl

end Stage

/-!
## Rounds in progress
-/

structure Sweep.AgreeBeside (name : Symbol) (w w' : Sweep) : Prop where
  store : w.store = w'.store
  children : w.children = w'.children
  next : ∀ other, other ≠ name -> w.next.get? other = w'.next.get? other

namespace Sweep

variable {table table' : Processes} {name other : Symbol} {w w' : Sweep}

theorem AgreeBeside.attend (h : AgreeBeside name w w') (halike : table.Alike table')
    (htable : table.all (Stage.passes .live))
    (hget : table.get? other = table'.get? other) :
    AgreeBeside name (w.attend table other) (w'.attend table' other) := by
  unfold Sweep.attend
  rw [← hget]
  cases hother : table.get? other with
  | none => exact h
  | some q =>
      have hq := Table.all_iff.mp htable other q hother
      have hvisit := Stage.visit_alike halike hq w'.store
      have hwritten := Stage.written?_alike halike q w'.store
      constructor
      · show w.store.write (q.written? table w.store) = w'.store.write (q.written? table' w'.store)
        rw [h.store, hwritten]
      · show w.children ++ (q.visit table w.store).outcome.child?.toList =
          w'.children ++ (q.visit table' w'.store).outcome.child?.toList
        rw [h.children, h.store, hvisit]
      · intro third hthird
        show (w.next.move other (q.visit table w.store).outcome.next?).get? third =
          (w'.next.move other (q.visit table' w'.store).outcome.next?).get? third
        rw [h.store, hvisit]
        cases (q.visit table' w'.store).outcome.next? with
        | none => exact h.next third hthird
        | some next =>
            simp only [Processes.move, Table.get?_insert, h.next third hthird]

theorem AgreeBeside.foldl (h : AgreeBeside name w w') (halike : table.Alike table')
    (htable : table.all (Stage.passes .live))
    (hothers : ∀ other, other ≠ name -> table.get? other = table'.get? other)
    {order : List Symbol} (horder : name ∉ order) :
    AgreeBeside name (order.foldl (Sweep.attend table) w)
      (order.foldl (Sweep.attend table') w') := by
  induction order generalizing w w' with
  | nil => exact h
  | cons other rest ih =>
      rw [List.mem_cons, not_or] at horder
      have hget := hothers other (Ne.symm horder.1)
      exact ih (h.attend halike htable hget) horder.2

theorem attend_of_failed (htable : table.all (Stage.passes .live)) {p : Stage}
    (hget : table.get? name = some p) {r : Running} {f : Fault}
    (hfailed : (p.visit table w.store).outcome.next?.getD p = .failed r f) :
    AgreeBeside name (w.attend table name) w := by
  have hp := Table.all_iff.mp htable name p hget
  have hturn := @Turn.of_visit table w.store p (Stage.ne_stray_of_passes hp)
  rcases hturn.inert_of_failed hfailed with ⟨hstore, hchild⟩
  have hwrite := @Stage.reserve_eq_write table w.store p hp
  rw [hchild] at hwrite
  unfold Sweep.attend
  rw [hget]
  constructor
  · exact hwrite.symm.trans hstore
  · show w.children ++ (p.visit table w.store).outcome.child?.toList = w.children
    rw [hchild, Option.toList_none, List.append_nil]
  · intro other hother
    show (w.next.move name (p.visit table w.store).outcome.next?).get? other = w.next.get? other
    cases (p.visit table w.store).outcome.next? with
    | none => rfl
    | some next => exact Table.get?_insert_of_ne w.next hother next

theorem AgreeBeside.symm (h : AgreeBeside name w w') : AgreeBeside name w' w where
  store := h.store.symm
  children := h.children.symm
  next other hother := (h.next other hother).symm

theorem AgreeBeside.trans {w'' : Sweep} (h : AgreeBeside name w w')
    (h' : AgreeBeside name w' w'') : AgreeBeside name w w'' where
  store := h.store.trans h'.store
  children := h.children.trans h'.children
  next other hother := (h.next other hother).trans (h'.next other hother)

end Sweep

namespace World

/-!
## Whole rounds and runs
-/

structure AgreeBeside (name : Symbol) (world world' : World) : Prop where
  store : world.store = world'.store
  others : ∀ other, other ≠ name -> world.processes.get? other = world'.processes.get? other

/-- The process of a name has failed when the next round is over. -/
def FailsNext (world : World) (name : Symbol) : Prop :=
  ∃ r f, world.round.world.processes.get? name = some (.failed r f)

def withFailed (world : World) (name : Symbol) (r : Running) (f : Fault) : World :=
  { world with processes := world.processes.insert name (.failed r f) }

variable {world world' : World} {name : Symbol} {r : Running} {f : Fault}

theorem failsNext_of_failed (hlive : world.passes .live)
    (hget : world.processes.get? name = some (.failed r f)) : world.FailsNext name :=
  ⟨r, f, get?_round_of_isOver hlive hget rfl⟩

/-- A process that fails in the next round is there: those that join a table are about to run. -/
theorem FailsNext.contains (hlive : world.passes .live) (h : world.FailsNext name) :
    world.processes.contains name := by
  rcases h with ⟨r, f, hfailed⟩
  rcases turn_of_get?_round hlive hfailed with ⟨p, _v, _store, hget, _⟩ | ⟨r', hrunning⟩
  · exact Table.contains_iff.mpr ⟨p, hget⟩
  · cases hrunning

theorem FailsNext.result?_eq_none (hlive : world.passes .live) (h : world.FailsNext name) :
    world.processes.result? name = none := by
  rcases h with ⟨r, f, hfailed⟩
  cases hresult : world.processes.result? name with
  | none => rfl
  | some v =>
      rcases Processes.result?_eq_some_iff.mp hresult with ⟨ts, hget⟩
      rcases exists_keys_eq hget with ⟨before, later, hkeys⟩
      rw [get?_round hlive hkeys hget] at hfailed
      cases hfailed

theorem alike_of_agreeBeside (hlive : world.passes .live) (hlive' : world'.passes .live)
    (h : AgreeBeside name world world') (hfails : world.FailsNext name)
    (hfails' : world'.FailsNext name) : world.processes.Alike world'.processes := by
  constructor
  · intro other
    by_cases hother : other = name
    · rw [hother, hfails.contains hlive, hfails'.contains hlive']
    · exact Table.contains_congr (h.others other hother)
  · intro other
    by_cases hother : other = name
    · rw [hother, hfails.result?_eq_none hlive, hfails'.result?_eq_none hlive']
    · unfold Processes.result?
      rw [h.others other hother]

theorem FailsNext.agreeBeside_attend (hlive : world.passes .live) (h : world.FailsNext name)
    {before later : List Symbol} (hkeys : world.processes.keys = before ++ name :: later) :
    Sweep.AgreeBeside name ((world.sweep before).attend world.processes name)
      (world.sweep before) := by
  rcases Table.contains_iff.mp (h.contains hlive) with ⟨p, hget⟩
  rcases h with ⟨r, f, hfailed⟩
  rw [get?_round hlive hkeys hget] at hfailed
  exact Sweep.attend_of_failed (World.passes_iff.mp hlive).2.1 hget (Option.some.inj hfailed)

theorem AgreeBeside.round (hlive : world.passes .live) (hlive' : world'.passes .live)
    (h : AgreeBeside name world world') (hfails : world.FailsNext name)
    (hfails' : world'.FailsNext name) :
    AgreeBeside name world.round.world world'.round.world := by
  have halike := alike_of_agreeBeside hlive hlive' h hfails hfails'
  have htable := (World.passes_iff.mp hlive).2.1
  have hsame : world'.processes.keys = world.processes.keys :=
    Table.keys_congr fun other => (halike.names other).symm
  rcases Table.contains_iff.mp (hfails.contains hlive) with ⟨p, hget⟩
  rcases exists_keys_eq hget with ⟨before, later, hkeys⟩
  have hdistinct := world.processes.keys_nodup
  rw [hkeys] at hdistinct
  have hbefore := notMem_of_nodup hdistinct
  rw [List.nodup_append, List.nodup_cons] at hdistinct
  -- Before the visit to the process, at it and after it the two rounds go side by side.
  have hstart : Sweep.AgreeBeside name (Sweep.start world) (Sweep.start world') :=
    ⟨h.store, rfl, h.others⟩
  have hearlier := hstart.foldl halike htable h.others hbefore
  have hvisited := hfails.agreeBeside_attend hlive hkeys
  have hvisited' := hfails'.agreeBeside_attend hlive' (hsame.trans hkeys)
  have hhere := (hvisited.trans hearlier).trans hvisited'.symm
  have hsweep := hhere.foldl halike htable h.others hdistinct.2.1.1
  have hwhole (world : World) : (later.foldl (Sweep.attend world.processes)
      ((world.sweep before).attend world.processes name)) =
        world.sweep (before ++ name :: later) := by
    unfold sweep
    rw [List.foldl_append, List.foldl_cons]
  rw [hwhole, hwhole, ← hkeys] at hsweep
  have hsound := sound_sweep hlive world.processes.keys
  rw [round_eq hlive, round_eq hlive', roundIn_eq hlive, roundIn_eq hlive', hsame]
  constructor
  · exact hsweep.store
  · intro other hother
    show (Sweep.joined (world.sweep world.processes.keys).next _).get? other =
      (Sweep.joined (world'.sweep world.processes.keys).next _).get? other
    rw [← hsweep.children]
    by_cases hchild : other ∈ (world.sweep world.processes.keys).children.map Prod.fst
    · rcases List.mem_map.mp hchild with ⟨c, hc, rfl⟩
      rw [Sweep.get?_joined_of_mem hsound.distinct hc, Sweep.get?_joined_of_mem hsound.distinct hc]
    · rw [Sweep.get?_joined_of_notMem hchild, Sweep.get?_joined_of_notMem hchild]
      exact hsweep.next other hother

theorem passes_withFailed (hlive : world.passes .live) (hcontains : world.processes.contains name)
    (r : Running) (f : Fault) : (world.withFailed name r f).passes .live := by
  rcases World.passes_iff.mp hlive with ⟨hstore, hprocesses, hnames⟩
  have hsame : (world.withFailed name r f).processes.keys = world.processes.keys := by
    apply Table.keys_congr
    intro other
    rw [withFailed, Table.contains_insert]
    by_cases hother : other = name
    · rw [hother, hcontains, Bool.or_true]
    · rw [decide_eq_false hother, Bool.false_or]
  rw [World.passes_iff, hsame]
  exact ⟨hstore, Table.all_insert name hprocesses rfl, hnames⟩

theorem agreeBeside_after (hlive : world.passes .live) (hfails : world.FailsNext name)
    (r : Running) (f : Fault) (n : Nat) :
    AgreeBeside name (world.after n) ((world.withFailed name r f).after n) ∧
      (world.after n).FailsNext name ∧
      ((world.withFailed name r f).after n).processes.get? name = some (.failed r f) := by
  have hlive' := passes_withFailed hlive (hfails.contains hlive) r f
  induction n with
  | zero =>
      refine ⟨⟨rfl, ?_⟩, hfails, Table.get?_insert_self _ _ _⟩
      intro other hother
      exact (Table.get?_insert_of_ne world.processes hother _).symm
  | succ n ih =>
      rcases ih with ⟨hagree, hnext, hfailed'⟩
      have hn := passes_after hlive n
      have hn' := passes_after hlive' n
      have hround := hagree.round hn hn' hnext (failsNext_of_failed hn' hfailed')
      rcases hnext with ⟨r', f', hfailed⟩
      exact ⟨hround, failsNext_of_failed (passes_after hlive (n + 1)) hfailed,
        get?_round_of_isOver hn' hfailed' rfl⟩

/-- A process that fails in a round is isolated: its visit writes no entry and asks for no process,
and the store and all other processes are, after this round and after all later ones, what they
would be if the process had failed beforehand, in whatever state and for whatever reason. -/
theorem failure_isolated (world : World) (hlive : world.passes .live) (name : Symbol)
    (r : Running) (f : Fault)
    (hfailed : world.round.world.processes.get? name = some (.failed r f)) :
    (∀ r₀ f₀ n, (world.after n).store = ((world.withFailed name r₀ f₀).after n).store ∧
      ∀ other, other ≠ name -> (world.after n).processes.get? other =
        ((world.withFailed name r₀ f₀).after n).processes.get? other) ∧
      ∀ before later, world.processes.keys = before ++ name :: later ->
        ∃ w w', before.foldlM (Sweep.visit world.processes) (Sweep.start world) = .ok w ∧
          Sweep.visit world.processes w name = .ok w' ∧
          w'.next.get? name = some (.failed r f) ∧
          w'.store = w.store ∧ w'.children = w.children ∧
          ∀ other, other ≠ name -> w'.next.get? other = w.next.get? other := by
  have hfails : world.FailsNext name := ⟨r, f, hfailed⟩
  constructor
  · intro r₀ f₀ n
    have hagree := (agreeBeside_after hlive hfails r₀ f₀ n).1
    exact ⟨hagree.store, hagree.others⟩
  · intro before later hkeys
    have hvisit := Sweep.visit_eq_attend (World.passes_iff.mp hlive).2.1
      (sound_sweep hlive before).store name
    have hagree := hfails.agreeBeside_attend hlive hkeys
    refine ⟨_, _, foldlM_eq_sweep hlive before, hvisit, ?_, hagree.store, hagree.children,
      hagree.next⟩
    rcases Table.contains_iff.mp (hfails.contains hlive) with ⟨p, hget⟩
    have hdistinct := world.processes.keys_nodup
    rw [hkeys] at hdistinct
    have hfound : (world.sweep before).next.get? name = some p := by
      unfold sweep
      rw [Sweep.next_foldl_of_notMem (notMem_of_nodup hdistinct)]
      exact hget
    rw [Sweep.next_attend_self hget hfound, ← get?_round hlive hkeys hget]
    exact hfailed

def getBeforePut : World where
  processes := Table.ofList
    [(.anonymous, .running { control := .get (.pointer (.name "x")) }),
      (.name "a", .awaitingHalt { control := .link (.process .anonymous) } .anonymous),
      (.name "b", .running { control := .spawn (.symbol .anonymous) (.ret (.number 1)) }),
      (.name "c", .running { control := .put (.symbol (.name "x")) (.number 2) }),
      (.name "d", .running
        { control := .spawn (.symbol (.name "e")) (.get (.pointer (.name "x"))) })]

theorem getBeforePut_failure_isolated :
    getBeforePut.passes .live ∧
      getBeforePut.round.world.processes.get? .anonymous =
        some (.failed { control := .get (.pointer (.name "x")) } (.undefinedEntry (.name "x"))) ∧
      (getBeforePut.after 4).store =
        ((getBeforePut.withFailed .anonymous { control := .hole } .noStep).after 4).store ∧
      ((getBeforePut.withFailed .anonymous { control := .hole } .noStep).after 4).processes.get?
        (.name "e") = some (.halted (.number 2) [.get (.name "x") (.number 2)]) := by
  have hisolated := failure_isolated getBeforePut rfl .anonymous _ _ rfl
  rcases hisolated.1 { control := .hole } .noStep 4 with ⟨hstore, hothers⟩
  refine ⟨rfl, rfl, hstore, ?_⟩
  rw [← hothers (.name "e") (by decide)]
  rfl

end World

end PushValue
