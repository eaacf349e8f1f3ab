import PushValue.Proofs.Round

/-!
# Spawned processes

A process is spawned under a name that neither the store nor the process table has.  The
name is reserved in the store before the next process of the round is visited, so a
second spawn under it fails, in the same round or in a later one.
-/

namespace PushValue

/-!
## Visits to a process that spawns
-/

namespace Sweep

variable {table : Processes} {w : Sweep} {parent name : Symbol} {r : Running} {v : Value}
  {body : Computation}

theorem attend_of_moved {p next left : Stage} {store : Store}
    (hget : table.get? parent = some p)
    (hvisit : p.visit table w.store = ⟨.moved next, store, left⟩)
    (hwritten : p.written? table w.store = none) :
    w.attend table parent = { w with
      next := w.next.insert parent next
      left := w.left.insert parent left
      progressed := true } := by
  simp only [attend, hget, advance, hvisit, hwritten, Visit.Outcome.next?, Visit.Outcome.child?,
    Option.toList_none, List.append_nil, Option.isSome_some, Bool.or_true]
  rfl

theorem attend_spawn_taken (hget : table.get? parent = some (.running r)) (hr : r.passes .live)
    (hcontrol : r.control = .spawn v body) (hname : r.spawn? = some name)
    (htaken : w.store.contains name || table.contains name) :
    ∃ r', w.attend table parent = { w with
      next := w.next.insert parent (.failed r' (.duplicateName name))
      left := w.left.insert parent (.running r')
      progressed := true } := by
  have hwritten : (Stage.running r).written? table w.store = none := by
    simp only [Stage.written?, hname, htaken, if_true]
  have hvisit := @Stage.visit_spawn table w.store r hr v body name hcontrol hname
  by_cases hstored : w.store.contains name
  · rw [if_pos hstored] at hvisit
    exact ⟨_, attend_of_moved hget hvisit hwritten⟩
  · have hprocess : table.contains name := by
      rw [Bool.or_eq_true] at htaken
      exact htaken.resolve_left hstored
    rw [if_neg hstored, if_pos hprocess] at hvisit
    exact ⟨_, attend_of_moved hget hvisit hwritten⟩

theorem attend_spawn_free (hget : table.get? parent = some (.running r)) (hr : r.passes .live)
    (hcontrol : r.control = .spawn v body) (hname : r.spawn? = some name)
    (hfree : ¬ (w.store.contains name || table.contains name)) :
    w.attend table parent = {
      store := w.store.insert name (.process name)
      next := w.next.insert parent (.running (r.returning (.process name)))
      left := w.left.insert parent (.running (r.returning (.process name)))
      children := w.children ++ [(name, .running (Running.start body r.env))]
      progressed := true } := by
  have hwritten : (Stage.running r).written? table w.store = some (name, .process name) := by
    simp only [Stage.written?, hname, if_neg hfree]
  have hvisit := @Stage.visit_spawn table w.store r hr v body name hcontrol hname
  rw [Bool.or_eq_true, not_or] at hfree
  rw [if_neg hfree.1, if_neg hfree.2] at hvisit
  simp only [attend, hget, advance, hvisit, hwritten, Visit.Outcome.next?, Visit.Outcome.child?,
    Option.toList_some, Option.isSome_some, Bool.or_true]
  rfl

theorem contains_attend {key : Symbol} (h : w.store.contains key) (name : Symbol) :
    (w.attend table name).store.contains key := by
  unfold attend
  cases table.get? name with
  | none => exact h
  | some p => exact Store.contains_write h _

theorem contains_foldl {key : Symbol} (h : w.store.contains key) (order : List Symbol) :
    (order.foldl (attend table) w).store.contains key := by
  induction order generalizing w with
  | nil => exact h
  | cons name rest ih => exact ih (contains_attend h name)

theorem mem_children_attend {c : Symbol × Stage} (h : c ∈ w.children) (name : Symbol) :
    c ∈ (w.attend table name).children := by
  unfold attend
  cases table.get? name with
  | none => exact h
  | some p => exact List.mem_append_left _ h

theorem mem_children_foldl {c : Symbol × Stage} (h : c ∈ w.children) (order : List Symbol) :
    c ∈ (order.foldl (attend table) w).children := by
  induction order generalizing w with
  | nil => exact h
  | cons name rest ih => exact ih (mem_children_attend h name)

end Sweep

namespace World

variable {world : World}

/-!
## The processes that a run admits
-/

def admitted (world : World) : List (Symbol × Stage) :=
  match world.processes.keys.foldlM (Sweep.visit world.processes) (Sweep.start world) with
  | .ok w => w.children
  | .error _ => []

/-- The names of the processes that a number of rounds add, in order. -/
def admittedNames (world : World) : Nat -> List Symbol
  | 0 => []
  | n + 1 => world.admittedNames n ++ (world.after n).admitted.map Prod.fst

theorem admitted_eq (hlive : world.passes .live) :
    world.admitted = (world.sweep world.processes.keys).children := by
  rw [admitted, foldlM_eq_sweep hlive]

theorem contains_admitted (hlive : world.passes .live) {name : Symbol}
    (h : name ∈ world.admitted.map Prod.fst) :
    world.processes.contains name = false ∧ world.round.world.store.contains name := by
  rcases List.mem_map.mp h with ⟨c, hc, rfl⟩
  rw [admitted_eq hlive] at hc
  rcases (sound_sweep hlive _).reserved c hc with ⟨hstored, hfree⟩
  rw [round_eq hlive, roundIn_eq hlive]
  exact ⟨hfree, hstored⟩

theorem contains_round_iff (hlive : world.passes .live) (name : Symbol) :
    world.round.world.processes.contains name ↔
      world.processes.contains name ∨ name ∈ world.admitted.map Prod.fst := by
  have hsound := sound_sweep hlive world.processes.keys
  rw [round_eq hlive, roundIn_eq hlive, admitted_eq hlive, ← hsound.names]
  by_cases hname : name ∈ (world.sweep world.processes.keys).children.map Prod.fst
  · rcases List.mem_map.mp hname with ⟨c, hc, rfl⟩
    constructor
    · intro _
      exact .inr hname
    · intro _
      exact Table.contains_iff.mpr ⟨c.2, Sweep.get?_joined_of_mem hsound.distinct hc⟩
  · unfold Table.contains
    rw [Sweep.get?_joined_of_notMem hname]
    constructor
    · exact .inl
    · rintro (hold | hnew)
      · exact hold
      · exact absurd hnew hname

theorem contains_store_round (hlive : world.passes .live) {key : Symbol}
    (h : world.store.contains key) : world.round.world.store.contains key := by
  rw [round_eq hlive, roundIn_eq hlive]
  exact Sweep.contains_foldl h world.processes.keys

theorem admittedNames_nodup (hlive : world.passes .live) (n : Nat) :
    (world.admittedNames n).Nodup ∧
      (∀ name, world.processes.contains name -> (world.after n).processes.contains name) ∧
      ∀ name ∈ world.admittedNames n,
        world.processes.contains name = false ∧ (world.after n).processes.contains name := by
  induction n with
  | zero =>
      refine ⟨List.nodup_nil, fun _ h => h, ?_⟩
      intro name hname
      cases hname
  | succ n ih =>
      rcases ih with ⟨hdistinct, hkept, hadmitted⟩
      have hn := passes_after hlive n
      have hgrow : ∀ name, (world.after n).processes.contains name ->
          (world.after (n + 1)).processes.contains name := by
        intro name hname
        exact (contains_round_iff hn name).mpr (.inl hname)
      refine ⟨?_, ?_, ?_⟩
      · show (world.admittedNames n ++ (world.after n).admitted.map Prod.fst).Nodup
        rw [List.nodup_append]
        refine ⟨hdistinct, ?_, ?_⟩
        · rw [admitted_eq hn]
          exact (sound_sweep hn _).distinct
        · rintro name hold other hnew rfl
          have hfree := (contains_admitted hn hnew).1
          rw [(hadmitted name hold).2] at hfree
          cases hfree
      · intro name hname
        exact hgrow name (hkept name hname)
      · intro name hname
        rcases List.mem_append.mp hname with hold | hnew
        · rcases hadmitted name hold with ⟨hfree, hlater⟩
          exact ⟨hfree, hgrow name hlater⟩
        · constructor
          · have hfree := (contains_admitted hn hnew).1
            cases hfirst : world.processes.contains name with
            | false => rfl
            | true =>
                rw [hkept name hfirst] at hfree
                cases hfree
          · exact (contains_round_iff hn name).mpr (.inr hnew)

/-- Every process but those of the first world has its name in the store. -/
theorem contains_store_after (hlive : world.passes .live) (n : Nat) {name : Symbol}
    (h : (world.after n).processes.contains name) :
    world.processes.contains name ∨ (world.after n).store.contains name := by
  induction n with
  | zero => exact .inl h
  | succ n ih =>
      have hn := passes_after hlive n
      rcases (contains_round_iff hn name).mp h with hold | hnew
      · rcases ih hold with hfirst | hstored
        · exact .inl hfirst
        · exact .inr (contains_store_round hn hstored)
      · exact .inr (contains_admitted hn hnew).2

/-!
## What comes of a spawn
-/

/-- What comes of a spawn in a round, told from the round as the parent finds it.  If the name is
taken, the parent fails and nothing else changes.  If it is free, it is reserved at once and the
process is in the table after the round. -/
def SpawnSettled (world : World) (parent : Symbol) (r : Running) (body : Computation)
    (name : Symbol) (w : Sweep) : Prop :=
  if w.store.contains name || world.processes.contains name then
    ∃ r', Sweep.visit world.processes w parent = .ok { w with
        next := w.next.insert parent (.failed r' (.duplicateName name))
        left := w.left.insert parent (.running r')
        progressed := true } ∧
      world.round.world.processes.get? parent = some (.failed r' (.duplicateName name))
  else
    (∃ w', Sweep.visit world.processes w parent = .ok w' ∧
      w'.store = w.store.insert name (.process name)) ∧
      world.round.world.processes.get? name =
        some (.running { control := body, env := r.env, stack := [], trace := [] })

theorem spawnSettled_sweep (hlive : world.passes .live) {parent name : Symbol} {r : Running}
    {v : Value} {body : Computation} {before later : List Symbol}
    (hkeys : world.processes.keys = before ++ parent :: later)
    (hget : world.processes.get? parent = some (.running r))
    (hcontrol : r.control = .spawn v body) (hname : r.spawn? = some name) :
    world.SpawnSettled parent r body name (world.sweep before) := by
  have htable := (World.passes_iff.mp hlive).2.1
  have hr : r.passes .live := World.passes_get? hlive hget
  have hdistinct := world.processes.keys_nodup
  rw [hkeys] at hdistinct
  have hvisit := Sweep.visit_eq_attend htable (sound_sweep hlive before).store parent
  unfold SpawnSettled
  by_cases htaken : (world.sweep before).store.contains name || world.processes.contains name
  · rw [if_pos htaken]
    rcases Sweep.attend_spawn_taken hget hr hcontrol hname htaken with ⟨r', hattend⟩
    refine ⟨r', ?_, ?_⟩
    · rw [hvisit, hattend]
    · have hfound : (world.sweep before).next.get? parent = some (.running r) := by
        unfold sweep
        rw [Sweep.next_foldl_of_notMem (notMem_of_nodup hdistinct)]
        exact hget
      have hself := Sweep.next_attend_self hget hfound
      rw [hattend, Table.get?_insert_self] at hself
      rw [round_eq hlive, hkeys, get?_roundIn hlive hget hdistinct, ← hself]
  · rw [if_neg htaken]
    have hattend := Sweep.attend_spawn_free hget hr hcontrol hname htaken
    refine ⟨⟨_, hvisit, ?_⟩, ?_⟩
    · rw [hattend]
    · have hchild : (name, Stage.running (Running.start body r.env)) ∈
          (world.sweep world.processes.keys).children := by
        rw [hkeys, sweep, List.foldl_append, List.foldl_cons]
        apply Sweep.mem_children_foldl
        show _ ∈ ((world.sweep before).attend world.processes parent).children
        rw [hattend]
        exact List.mem_append_right _ List.mem_cons_self
      rw [round_eq hlive, roundIn_eq hlive]
      exact Sweep.get?_joined_of_mem (sound_sweep hlive _).distinct hchild

/-- In every run of a well-sorted program without holes and return markers, a process is admitted
at most once under each name and never under that of the first process, every other process has
its name in the store, and every spawn fails or reserves its name at once. -/
theorem spawn_unique (e : Computation) (he : e.passes .source) (n : Nat) :
    ((initial e).admittedNames n).Nodup ∧
      Symbol.anonymous ∉ (initial e).admittedNames n ∧
      (∀ name, ((initial e).after n).round.world.processes.contains name ↔
        ((initial e).after n).processes.contains name ∨
          name ∈ ((initial e).after n).admitted.map Prod.fst) ∧
      (∀ name, ((initial e).after n).processes.contains name ->
        name = .anonymous ∨ ((initial e).after n).store.contains name) ∧
      (∀ parent r v body s before later,
        ((initial e).after n).processes.keys = before ++ parent :: later ->
        ((initial e).after n).processes.get? parent = some (.running r) ->
        r.control = .spawn v body -> v.resolveSymbol r.env = .ok s ->
        ∃ w, before.foldlM (Sweep.visit ((initial e).after n).processes)
            (Sweep.start ((initial e).after n)) = .ok w ∧
          ((initial e).after n).SpawnSettled parent r body (r.stack.qualify s) w) := by
  have hinitial := live_initial he
  have hlive := passes_after hinitial n
  rcases admittedNames_nodup hinitial n with ⟨hdistinct, _hkept, hadmitted⟩
  refine ⟨hdistinct, ?_, ?_, ?_, ?_⟩
  · intro hmem
    cases (hadmitted .anonymous hmem).1
  · exact contains_round_iff hlive
  · intro name hname
    rcases contains_store_after hinitial n hname with hfirst | hstored
    · rw [initial, Table.contains_insert, Bool.or_eq_true, decide_eq_true_iff] at hfirst
      rcases hfirst with heq | hempty
      · exact .inl heq
      · cases hempty
    · exact .inr hstored
  · intro parent r v body s before later hkeys hget hcontrol hv
    have hname : r.spawn? = some (r.stack.qualify s) := by
      simp only [Running.spawn?, hcontrol, hv]
    refine ⟨_, foldlM_eq_sweep hlive before, ?_⟩
    exact spawnSettled_sweep hlive hkeys hget hcontrol hname

def spawnTwice : Computation :=
  .bind .ignore (.spawn (.symbol (.name "a")) (.ret (.number 1)))
    (.spawn (.symbol (.name "a")) (.ret (.number 2)))

theorem spawnTwice_spawn_unique :
    spawnTwice.passes .source ∧ ((initial spawnTwice).admittedNames 4).Nodup ∧
      (initial spawnTwice).admittedNames 4 = [.name "a"] ∧
      ∃ r, ((initial spawnTwice).after 5).processes.get? .anonymous =
        some (.failed r (.duplicateName (.name "a"))) := by
  rcases spawn_unique spawnTwice rfl 4 with ⟨hdistinct, _, _, _, hspawn⟩
  rcases hspawn .anonymous
    { control := .spawn (.symbol (.name "a")) (.ret (.number 2)) } _ _ _ [] _ rfl rfl rfl rfl with
    ⟨w, hw, hsettled⟩
  cases hw
  rcases hsettled with ⟨r, _hvisit, hfailed⟩
  exact ⟨rfl, hdistinct, rfl, r, hfailed⟩

end World

end PushValue
