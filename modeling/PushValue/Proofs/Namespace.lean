import PushValue.Proofs.Lifecycle
import PushValue.Proofs.Nesting
import PushValue.Proofs.Replay

/-!
# Nests as namespaces

A program that runs inside a nest writes all its entries under names inside the nest: the
boundary of the nest is the outermost frame of its stack until its value is there.  A
spawned process starts with a stack of its own.  It is named inside the nest but does not
run inside it, and what it puts and spawns is under the names of its own nests only.
-/

namespace PushValue

/-!
## Stacks
-/

/-- The outermost frame of a stack is the boundary of a nest. -/
def Stack.BasedOn (stack : Stack) (n : Symbol) : Prop :=
  ∃ ts, stack.getLast? = some (.mk (.nest n) ts)

namespace Stack.BasedOn

variable {stack rest : Stack} {frame : Frame} {n : Symbol}

theorem push (h : stack.BasedOn n) (frame : Frame) : Stack.BasedOn (frame :: stack) n := by
  rcases h with ⟨ts, hlast⟩
  refine ⟨ts, ?_⟩
  rw [List.getLast?_cons, hlast]
  rfl

theorem pop (h : Stack.BasedOn (frame :: rest) n) :
    rest = [] ∧ frame.context = .ok (.nest n) ∨ rest.BasedOn n := by
  rcases h with ⟨ts, hlast⟩
  cases rest with
  | nil =>
      cases hlast
      exact .inl ⟨rfl, rfl⟩
  | cons next rest => exact .inr ⟨ts, hlast⟩

theorem exists_path_eq (h : stack.BasedOn n) : ∃ path, stack.path = n :: path := by
  induction stack with
  | nil =>
      rcases h with ⟨ts, hlast⟩
      cases hlast
  | cons frame rest ih =>
      rcases h.pop with ⟨rfl, hcontext⟩ | hrest
      · exact ⟨[], Stack.path_nest hcontext⟩
      · rcases ih hrest with ⟨path, hpath⟩
        refine ⟨path ++ frame.nests, ?_⟩
        rw [Stack.path, hpath]
        rfl

theorem qualify (h : stack.BasedOn n) (s : Symbol) : ∃ t, stack.qualify s = .within n t := by
  rcases h.exists_path_eq with ⟨path, hpath⟩
  refine ⟨Symbol.inside path s, ?_⟩
  rw [Stack.qualify_eq_inside, hpath]
  rfl

end Stack.BasedOn

/-!
## Processes
-/

/-- A process that is about to enter a nest, is inside it, or has left it with a value. -/
inductive Running.ConfinedTo (n : Symbol) (r : Running) : Prop where
  | outside {body : Computation} (hstack : r.stack = [])
      (hcontrol : r.control = .nest (.symbol n) body)
  | inside (hstack : r.stack.BasedOn n)
  | done {v : Value} (hstack : r.stack = []) (hcontrol : r.control = .returned v)

def Stage.ConfinedTo (n : Symbol) : Stage -> Prop
  | .pending body => ∃ inner, body = .nest (.symbol n) inner
  | .running r | .awaitingEntry r _ | .awaitingHalt r _ => r.ConfinedTo n
  | .failed _ _ | .halted _ _ => True
  | .stray _ => False

section Steps

variable {store : Store} {table : Processes} {r r' : Running} {a : Attempt} {n : Symbol}
  {v : Value}

theorem Running.Hands.control_ne_nest (h : r.Hands v r') (u : Value) (body : Computation) :
    r.control ≠ .nest u body := by
  intro hnest
  cases h with
  | first hcontrol hu => cases hcontrol.symm.trans hnest
  | again hcontrol => cases hcontrol.symm.trans hnest

theorem Reduction.basedOn_of_nest (h : Reduction store r a) {body : Computation}
    (hstack : r.stack = []) (hcontrol : r.control = .nest (.symbol n) body) :
    a.running.stack.BasedOn n := by
  cases h with
  | nest hnest hv =>
      cases hcontrol.symm.trans hnest
      cases hv
      refine ⟨r.trace, ?_⟩
      show List.getLast? (.mk (.nest n) r.trace :: r.stack) = _
      rw [hstack]
      rfl
  | halt hv | leave hv | bound hv | boundBox hv | droppedBox hv =>
      exact absurd hcontrol (hv.control_ne_nest _ _)
  | spawn hother | bind hother | bindBox hother | extract hother | enter hother | choose hother
  | apply hother | project hother | put hother | get hother | switch hother | link hother
  | awaitEntry hother | awaitHalt hother | assert hother => cases hcontrol.symm.trans hother

theorem Reduction.confinedTo_of_basedOn (h : Reduction store r a) (hr : r.stack.BasedOn n) :
    a.running.ConfinedTo n := by
  have hrest {frame : Frame} {rest : Stack} {context : Context} (hstack : r.stack = frame :: rest)
      (hcontext : frame.context = .ok context) (hother : ∀ s, context ≠ .nest s) :
      rest.BasedOn n := by
    rw [hstack] at hr
    rcases hr.pop with ⟨_, hnest⟩ | hrest
    · cases hcontext.symm.trans hnest
      exact absurd rfl (hother n)
    · exact hrest
  cases h with
  | halt hv hstack => exact .inside (hv.stack_eq ▸ hr)
  | leave hv hstack hcontext =>
      rw [hstack] at hr
      rcases hr.pop with ⟨hlast, _⟩ | hrest
      · exact .done hlast hv.control_eq
      · exact .inside hrest
  | bound hv hstack hcontext => exact .inside (hrest hstack hcontext nofun)
  | boundBox hv hstack hcontext => exact .inside (hrest hstack hcontext nofun)
  | droppedBox hv hstack hcontext => exact .inside (hrest hstack hcontext nofun)
  | enter hcontrol hstack hcontext => exact .inside (hrest hstack hcontext nofun)
  | choose hcontrol hstack hcontext => exact .inside (hrest hstack hcontext nofun)
  | nest | bind | bindBox | apply | project => exact .inside (hr.push _)
  | assert => exact .inside ((r.recordReturn_stack _).symm ▸ hr)
  | spawn | extract | put | get | switch | link | awaitEntry | awaitHalt => exact .inside hr

theorem Reduction.confinedTo_of_returned (h : Reduction store r a) (hstack : r.stack = [])
    (hcontrol : r.control = .returned v) : a.running.ConfinedTo n := by
  -- With a value and an empty stack there is nothing to do but halt.
  cases h with
  | halt hv hempty => exact .done (hv.stack_eq.trans hempty) hv.control_eq
  | leave hv hframe | bound hv hframe | boundBox hv hframe | droppedBox hv hframe =>
      cases hstack.symm.trans hframe
  | nest hother | spawn hother | bind hother | bindBox hother | extract hother | enter hother
  | choose hother | apply hother | project hother | put hother | get hother | switch hother
  | link hother | awaitEntry hother | awaitHalt hother | assert hother =>
      cases hcontrol.symm.trans hother

theorem Reduction.confinedTo (h : Reduction store r a) (hr : r.ConfinedTo n) :
    a.running.ConfinedTo n := by
  cases hr with
  | outside hstack hcontrol => exact .inside (h.basedOn_of_nest hstack hcontrol)
  | inside hstack => exact h.confinedTo_of_basedOn hstack
  | done hstack hcontrol => exact h.confinedTo_of_returned hstack hcontrol

theorem Turn.confinedTo {p : Stage} {visit : Visit} (hturn : Turn table store p visit)
    (hp : p.ConfinedTo n) : (visit.outcome.next?.getD p).ConfinedTo n := by
  cases hturn with
  | start body =>
      rcases hp with ⟨inner, hbody⟩
      exact .outside rfl hbody
  | step ha houtcome | parkForEntry ha houtcome | parkForHalt ha houtcome | spawn ha houtcome =>
      exact (Running.reduction_of_step ha (by rw [houtcome]; exact nofun)).confinedTo hp
  | halt | clash | fail | orphan | stayFailed | stayHalted => trivial
  | wake | waitForEntry | waitForHalt | breakOff | unfit => exact hp
  | handOver =>
      cases hp with
      | outside hstack hcontrol => exact .done hstack rfl
      | inside hstack => exact .inside hstack
      | done hstack hcontrol => exact .done hstack rfl

theorem Running.ConfinedTo.basedOn (hr : r.ConfinedTo n)
    (hnest : ∀ u body, r.control ≠ .nest u body) (hreturned : ∀ w, r.control ≠ .returned w) :
    r.stack.BasedOn n := by
  cases hr with
  | outside _ hcontrol => exact absurd hcontrol (hnest _ _)
  | inside hstack => exact hstack
  | done _ hcontrol => exact absurd hcontrol (hreturned _)

theorem Stage.ConfinedTo.written {p : Stage} (hp : p.ConfinedTo n) {key : Symbol}
    (h : p.written? table store = some (key, v)) : ∃ t, key = .within n t := by
  cases p with
  | running r =>
      rw [written?] at h
      cases hspawn : r.spawn? with
      | some name =>
          rcases Running.exists_of_spawn? hspawn with ⟨u, body, s, hcontrol, _, hname⟩
          simp only [hspawn] at h
          split at h
          · cases h
          · cases h
            rw [hname]
            have hbased : r.stack.BasedOn n :=
              hp.basedOn (by simp [hcontrol]) (by simp [hcontrol])
            exact hbased.qualify s
      | none =>
          simp only [hspawn] at h
          rcases Running.exists_of_put? h with ⟨u, w, s, hcontrol, _, _, rfl⟩
          have hbased : r.stack.BasedOn n :=
            hp.basedOn (by simp [hcontrol]) (by simp [hcontrol])
          exact hbased.qualify s
  | _ => cases h

end Steps

/-!
## Who writes an entry
-/

theorem Sweep.written_of_contains_foldl {table : Processes} {w : Sweep} {order : List Symbol}
    {key : Symbol} (h : (order.foldl (attend table) w).store.contains key) :
    w.store.contains key ∨ ∃ before name later p v, order = before ++ name :: later ∧
      table.get? name = some p ∧
      p.written? table (before.foldl (attend table) w).store = some (key, v) := by
  induction order generalizing w with
  | nil => exact .inl h
  | cons name rest ih =>
      rcases ih h with hhere | ⟨before, other, later, p, v, rfl, hget, hwritten⟩
      · unfold attend at hhere
        cases hget : table.get? name with
        | none =>
            rw [hget] at hhere
            exact .inl hhere
        | some p =>
            rw [hget] at hhere
            change (w.store.write (p.written? table w.store)).contains key at hhere
            cases hwritten : p.written? table w.store with
            | none =>
                rw [hwritten] at hhere
                exact .inl hhere
            | some entry =>
                rw [hwritten, Store.write, Table.contains_insert, Bool.or_eq_true] at hhere
                rcases hhere with hnew | hold
                · rw [of_decide_eq_true hnew]
                  exact .inr ⟨[], name, rest, p, entry.2, rfl, hget, hwritten⟩
                · exact .inl hold
      · exact .inr ⟨name :: before, other, later, p, v, rfl, hget, hwritten⟩

namespace World

def Writes (world : World) (name key : Symbol) : Prop :=
  ∃ before later p v, world.processes.keys = before ++ name :: later ∧
    world.processes.get? name = some p ∧
    p.written? world.processes (world.sweep before).store = some (key, v)

variable {world : World} {n : Symbol}

theorem writes_of_contains_round (hlive : world.passes .live) {key : Symbol}
    (h : world.round.world.store.contains key) :
    world.store.contains key ∨ ∃ name, world.Writes name key := by
  rw [round_eq hlive, roundIn_eq hlive] at h
  rcases Sweep.written_of_contains_foldl h with
    hold | ⟨before, name, later, p, v, hkeys, hget, hwritten⟩
  · exact .inl hold
  · exact .inr ⟨name, before, later, p, v, hkeys, hget, hwritten⟩

theorem writes_of_contains_after (hlive : world.passes .live) {key : Symbol} (k : Nat)
    (h : (world.after k).store.contains key) :
    world.store.contains key ∨ ∃ j, j < k ∧ ∃ name, (world.after j).Writes name key := by
  induction k with
  | zero => exact .inl h
  | succ k ih =>
      rcases writes_of_contains_round (passes_after hlive k) h with hold | hwrites
      · rcases ih hold with hfirst | ⟨j, hj, hwrites⟩
        · exact .inl hfirst
        · exact .inr ⟨j, Nat.lt_succ_of_lt hj, hwrites⟩
      · exact .inr ⟨k, Nat.lt_succ_self k, hwrites⟩

/-!
## Runs
-/

theorem confinedTo_after (hlive : world.passes .live) {name : Symbol} {p : Stage}
    (hget : world.processes.get? name = some p) (hp : p.ConfinedTo n) (k : Nat) :
    ∃ q, (world.after k).processes.get? name = some q ∧ q.ConfinedTo n := by
  induction k with
  | zero => exact ⟨p, hget, hp⟩
  | succ k ih =>
      rcases ih with ⟨q, hq, hconfined⟩
      have hlater := passes_after hlive k
      rcases exists_keys_eq hq with ⟨before, later, hkeys⟩
      have hturn : Turn (world.after k).processes ((world.after k).sweep before).store q _ :=
        Turn.of_visit (Stage.ne_stray_of_passes (passes_get? hlater hq))
      exact ⟨_, get?_round hlater hkeys hq, hturn.confinedTo hconfined⟩

theorem exists_ofComputation_nest (settings : Settings) {e : Computation}
    (he : (Computation.nest (.symbol n) e).passes .source) :
    ∃ e', ofComputation settings (.nest (.symbol n) e) = .ok (initial (.nest (.symbol n) e')) ∧
      (initial (.nest (.symbol n) e')).passes .live := by
  rcases exists_hoisted settings he with ⟨names, hoisted, bs, hhoists, hworld, hlive⟩
  cases hhoists with
  | @nest v v' inner inner' ns ms bs cs hv hinner =>
      cases hv
      exact ⟨inner'.close cs, hworld, hlive⟩

theorem eq_anonymous_of_writes {settings : Settings} {e : Computation}
    (he : e.passes Screen.sorted.spawnless) (hworld : ofComputation settings e = .ok world)
    (j : Nat) {name key : Symbol} (h : (world.after j).Writes name key) : name = .anonymous := by
  rcases passes_of_ofComputation he hworld with ⟨body, rfl, hbody⟩
  -- Without spawns the first process stays alone.
  rcases recounted_after (recounted_initial hbody) Screen.sorted_spawnless_admits j
    (.inl Screen.strict_sorted_spawnless) with ⟨store, p, hrecounted⟩
  rcases h with ⟨before, later, q, v, hkeys, _⟩
  rw [hrecounted.alone] at hkeys
  have hmem : name ∈ (solo store p).processes.keys := by
    rw [hkeys]
    exact List.mem_append_right _ List.mem_cons_self
  exact List.mem_singleton.mp hmem

theorem within_of_writes {e : Computation} (hlive : (initial (.nest (.symbol n) e)).passes .live)
    {j : Nat} {key : Symbol}
    (h : ((initial (.nest (.symbol n) e)).after j).Writes .anonymous key) :
    ∃ t, key = .within n t := by
  rcases h with ⟨before, later, p, v, _, hget, hwritten⟩
  rcases confinedTo_after hlive (Table.get?_insert_self _ _ _) ⟨e, rfl⟩ j with ⟨q, hq, hconfined⟩
  cases hget.symm.trans hq
  exact hconfined.written hwritten

/-- A program that runs inside a nest writes entries inside the nest only, so every other entry of
the store was written by a process that it has spawned.  Without spawns there is none. -/
theorem nest_confines (settings : Settings) (n : Symbol) (e : Computation)
    (he : (Computation.nest (.symbol n) e).passes .source) :
    ∃ world, ofComputation settings (.nest (.symbol n) e) = .ok world ∧
      (∀ j key, (world.after j).Writes .anonymous key -> ∃ t, key = .within n t) ∧
      (∀ k key, (world.after k).store.contains key -> (∃ t, key = .within n t) ∨
        ∃ j, j < k ∧ ∃ name, name ≠ .anonymous ∧ (world.after j).Writes name key) ∧
      (e.passes Screen.sorted.spawnless ->
        ∀ k key, (world.after k).store.contains key -> ∃ t, key = .within n t) := by
  rcases exists_ofComputation_nest settings he with ⟨e', hworld, hlive⟩
  have hwriter (k : Nat) (key : Symbol)
      (hkey : ((initial (.nest (.symbol n) e')).after k).store.contains key) :
      ∃ j, j < k ∧ ∃ name, ((initial (.nest (.symbol n) e')).after j).Writes name key :=
    (writes_of_contains_after hlive k hkey).resolve_left nofun
  refine ⟨_, hworld, fun j key => within_of_writes hlive, ?_, ?_⟩
  · intro k key hkey
    rcases hwriter k key hkey with ⟨j, hj, name, hwrites⟩
    by_cases hname : name = .anonymous
    · rw [hname] at hwrites
      exact .inl (within_of_writes hlive hwrites)
    · exact .inr ⟨j, hj, name, hname, hwrites⟩
  · intro hspawnless k key hkey
    rcases hwriter k key hkey with ⟨j, _, name, hwrites⟩
    have hsymbol : n.isProper := (Bool.and_eq_true_iff.mp he).1
    have hall : (Computation.nest (.symbol n) e).passes Screen.sorted.spawnless :=
      Bool.and_eq_true_iff.mpr ⟨hsymbol, hspawnless⟩
    rw [eq_anonymous_of_writes hall hworld j hwrites] at hwrites
    exact within_of_writes hlive hwrites

theorem nestedPuts_nest_confines :
    nestedPuts.passes .source ∧ ∃ world, ofComputation {} nestedPuts = .ok world ∧
      (world.after 12).store.keys =
        [.within (.name "k") (.name "b"), .within (.name "n") (.name "c"),
          .within (.name "n") (.name "p"),
          .within (.name "n") (.within (.name "m") (.name "a"))] ∧
      ∃ j, j < 12 ∧ ∃ name, name ≠ .anonymous ∧
        (world.after j).Writes name (.within (.name "k") (.name "b")) := by
  rcases nest_confines {} (.name "n") _ (show nestedPuts.passes .source from rfl) with
    ⟨world, hworld, _, hwritten, _⟩
  cases hworld
  refine ⟨rfl, _, rfl, rfl, ?_⟩
  rcases hwritten 12 (.within (.name "k") (.name "b")) rfl with ⟨t, ht⟩ | hother
  · injection ht with hname
    injection hname with htext
    exact absurd htext (by decide)
  · exact hother

def spawnInNest : Computation :=
  .nest (.symbol (.name "n"))
    (.spawn (.symbol (.name "p")) (.put (.symbol (.name "a")) (.number 1)))

/-- What a process puts that was spawned inside a nest is not inside the nest. -/
theorem spawnInNest_escapes :
    spawnInNest.passes .source ∧ ∃ world, ofComputation {} spawnInNest = .ok world ∧
      (world.after 5).store.contains (.name "a") ∧
      ∀ t, Symbol.name "a" ≠ .within (.name "n") t :=
  ⟨rfl, _, rfl, rfl, nofun⟩

end World

end PushValue
