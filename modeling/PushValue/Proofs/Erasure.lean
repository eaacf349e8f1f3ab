import PushValue.Proofs.Bisimulation

/-!
# Erased traces

A process writes its trace and never reads it.  Here the traces of a world are erased:
those of its running processes, those saved in their frames, and those of the processes
that have halted.  Worlds that differ in their traces only go through the same rounds, with
the same store and the same processes up to traces.
-/

namespace PushValue

/-!
## Erasure
-/

namespace Frame

def untraced : Frame -> Frame
  | mk c _ => mk c []
  | stray o => stray o

@[simp]
theorem context_untraced (f : Frame) : f.untraced.context = f.context := by
  cases f with
  | mk | stray => rfl

@[simp]
theorem untraced_untraced (f : Frame) : f.untraced.untraced = f.untraced := by
  cases f with
  | mk | stray => rfl

end Frame

namespace Stack

def untraced (stack : Stack) : Stack := stack.map Frame.untraced

@[simp]
theorem untraced_cons (f : Frame) (rest : Stack) :
    untraced (f :: rest) = f.untraced :: rest.untraced := rfl

@[simp]
theorem untraced_untraced (stack : Stack) : stack.untraced.untraced = stack.untraced := by
  simp [untraced]

@[simp]
theorem qualify_untraced (stack : Stack) (s : Symbol) :
    stack.untraced.qualify s = stack.qualify s := by
  induction stack generalizing s with
  | nil => rfl
  | cons f rest ih => simp [qualify, ih]

@[simp]
theorem checkTop_untraced (stack : Stack) : stack.untraced.checkTop = stack.checkTop := by
  cases stack with
  | nil => rfl
  | cons f rest => simp [checkTop]

@[simp]
theorem check_untraced (stack : Stack) : stack.untraced.check = stack.check := by
  induction stack with
  | nil => rfl
  | cons f rest ih => simp [check, ih]

end Stack

namespace Running

/-- The process without its trace and those that its frames have saved. -/
def untraced (r : Running) : Running := { r with stack := r.stack.untraced, trace := [] }

variable (r : Running)

@[simp]
theorem env_untraced : r.untraced.env = r.env := rfl

theorem stack_untraced : r.untraced.stack = r.stack.untraced := rfl

@[simp]
theorem untraced_untraced : r.untraced.untraced = r.untraced := by
  simp [untraced]

@[simp]
theorem untraced_record (t : Trace) : (r.record t).untraced = r.untraced := rfl

@[simp]
theorem untraced_recordReturn (v : Value) : (r.recordReturn v).untraced = r.untraced := by
  unfold recordReturn
  split
  · exact r.untraced_record (.ret v)
  · rfl

@[simp]
theorem untraced_returning (v : Value) : (r.returning v).untraced = r.untraced.returning v := rfl

@[simp]
theorem untraced_push (c : Context) (e : Computation) :
    (r.push c e).untraced = r.untraced.push c e := rfl

theorem untraced_pop (rest : Stack) :
    Running.untraced { r.untraced with stack := rest.untraced } =
      Running.untraced { r with stack := rest } := by
  simp [untraced]

variable {r} {r' : Running} (h : r.untraced = r'.untraced)

include h

theorem untraced_rejoin {f f' : Frame} : (r.rejoin f).untraced = (r'.rejoin f').untraced := h

theorem untraced_withControl {e : Computation} :
    Running.untraced { r with control := e } = Running.untraced { r' with control := e } :=
  congrArg (fun r => { r with control := e }) h

theorem untraced_withEnv {env : Environment} :
    Running.untraced { r with env } = Running.untraced { r' with env } :=
  congrArg (fun r => { r with env }) h

theorem untraced_resume {f f' : Frame} {env : Environment} {e : Computation} :
    (r.resume f env e).untraced = (r'.resume f' env e).untraced :=
  congrArg (fun r => { r with control := e, env }) h

end Running

namespace Attempt

def untraced (a : Attempt) : Attempt := { a with running := a.running.untraced }

variable {α : Type} {store : Store} {r r' : Running}

theorem untraced_eq_iff {a a' : Attempt} :
    a.untraced = a'.untraced ↔
      a.outcome = a'.outcome ∧ a.store = a'.store ∧
        a.running.untraced = a'.running.untraced := by
  simp [untraced]

theorem untraced_congr (hr : r.untraced = r'.untraced) (outcome : Outcome) (store : Store) :
    (Attempt.mk outcome store r).untraced = (Attempt.mk outcome store r').untraced :=
  congrArg (Attempt.mk outcome store) hr

theorem untraced_proceed (hr : r.untraced = r'.untraced) (result : Except Failure α)
    {next next' : α -> Attempt} (hnext : ∀ a, (next a).untraced = (next' a).untraced) :
    (proceed store r result next).untraced = (proceed store r' result next').untraced := by
  cases result with
  | ok a => exact hnext a
  | error f => exact untraced_congr hr (.failed f) store

end Attempt

/-!
## Steps

A step of the erased process comes to the same, up to traces, as one of the process itself.
-/

namespace Running

open Attempt

variable (store : Store) (r : Running)

theorem untraced_deliver (v : Value) :
    (deliver store r.untraced v).untraced = (deliver store r v).untraced := by
  rcases r with ⟨control, env, stack, trace⟩
  cases stack with
  | nil => rfl
  | cons frame rest =>
      have hpop := untraced_pop ⟨control, env, frame :: rest, trace⟩ rest
      simp only [deliver, untraced, Stack.untraced_cons, Frame.context_untraced]
      refine untraced_proceed hpop _ fun c => ?_
      cases c with
      | nest s => exact untraced_congr hpop .moved store
      | bind env p body =>
          refine untraced_proceed hpop _ fun env => ?_
          exact untraced_congr (untraced_resume hpop) .moved store
      | bindBox env p body =>
          cases v with
          | box b =>
              cases p with
              | «variable» x =>
                  refine untraced_proceed hpop _ fun env => ?_
                  exact untraced_congr (untraced_resume hpop) .moved store
              | ignore => exact untraced_congr (untraced_resume hpop) .moved store
              | _ => exact untraced_congr hpop _ store
          | _ => exact untraced_congr hpop _ store
      | argument | label | stray => exact untraced_congr hpop _ store

variable {store r} in
theorem deliver_congr {r' : Running} (h : r.untraced = r'.untraced) (v : Value) :
    (deliver store r v).untraced = (deliver store r' v).untraced := by
  rw [← untraced_deliver, h, untraced_deliver]

theorem untraced_enter (p : Pattern) (body : Computation) :
    (enter store r.untraced p body).untraced = (enter store r p body).untraced := by
  rcases r with ⟨control, env, stack, trace⟩
  cases stack with
  | nil => rfl
  | cons frame rest =>
      have hpop := untraced_pop ⟨control, env, frame :: rest, trace⟩ rest
      simp only [enter, untraced, Stack.untraced_cons, Frame.context_untraced]
      refine untraced_proceed hpop _ fun c => ?_
      cases c with
      | argument v =>
          refine untraced_proceed hpop _ fun env => ?_
          exact untraced_congr (untraced_resume hpop) .moved store
      | _ => exact untraced_congr hpop _ store

theorem untraced_choose (bs : Branches) :
    (choose store r.untraced bs).untraced = (choose store r bs).untraced := by
  rcases r with ⟨control, env, stack, trace⟩
  cases stack with
  | nil => rfl
  | cons frame rest =>
      have hpop := untraced_pop ⟨control, env, frame :: rest, trace⟩ rest
      simp only [choose, untraced, Stack.untraced_cons, Frame.context_untraced]
      refine untraced_proceed hpop _ fun c => ?_
      cases c with
      | label v =>
          refine untraced_proceed hpop _ fun s => ?_
          refine untraced_proceed hpop _ fun part => ?_
          have hjoined := @untraced_rejoin _ _ hpop frame.untraced frame
          refine untraced_proceed hjoined _ fun body => ?_
          exact untraced_congr (untraced_withControl hjoined) .moved store
      | _ => exact untraced_congr hpop _ store

theorem untraced_reduce (e : Computation) :
    (reduce store r.untraced e).untraced = (reduce store r e).untraced := by
  have hr : r.untraced.untraced = r.untraced := r.untraced_untraced
  cases e with
  | ret v =>
      refine untraced_proceed hr _ fun v => ?_
      rw [stack_untraced, Stack.checkTop_untraced]
      refine untraced_proceed hr _ fun _ => ?_
      apply deliver_congr
      simp
  | returned v => exact untraced_deliver store r v
  | nest v body =>
      refine untraced_proceed hr _ fun s => ?_
      exact untraced_congr (by simp) .moved store
  | spawn v body =>
      refine untraced_proceed hr _ fun s => ?_
      simp only [stack_untraced, Stack.check_untraced, Stack.qualify_untraced]
      refine untraced_proceed hr _ fun _ => ?_
      refine untraced_proceed hr _ fun name => ?_
      split
      · exact untraced_congr hr _ store
      · exact untraced_congr (by simp) _ store
  | bind p e₁ e₂ => exact untraced_congr (by simp) .moved store
  | bindBox p e₁ e₂ =>
      cases p with
      | «variable» | ignore => exact untraced_congr (by simp) .moved store
      | _ => exact untraced_congr hr _ store
  | extract v =>
      cases v with
      | «variable» x =>
          refine untraced_proceed hr _ fun boxes => ?_
          cases boxes.get? x with
          | some b =>
              refine untraced_proceed hr _ fun unpacked => ?_
              exact untraced_congr (untraced_withEnv (untraced_withControl hr)) .moved store
          | none => exact untraced_congr hr _ store
      | _ => exact untraced_congr hr _ store
  | lambda p body => exact untraced_enter store r p body
  | branches bs => exact untraced_choose store r bs
  | apply e v | project e v =>
      refine untraced_proceed hr _ fun v => ?_
      exact untraced_congr (by simp) .moved store
  | put n v =>
      refine untraced_proceed hr _ fun s => ?_
      refine untraced_proceed hr _ fun v => ?_
      simp only [stack_untraced, Stack.check_untraced, Stack.qualify_untraced]
      refine untraced_proceed hr _ fun _ => ?_
      refine untraced_proceed (by simp) _ fun name => ?_
      exact untraced_congr (by simp) .moved _
  | get v =>
      refine untraced_proceed hr _ fun s => ?_
      refine untraced_proceed hr _ fun s => ?_
      cases store.get? s with
      | some stored => exact untraced_congr (by simp) .moved store
      | none => exact untraced_congr hr _ store
  | switch v cs =>
      refine untraced_proceed hr _ fun v => ?_
      cases v with
      | «variant» l payload =>
          refine untraced_proceed hr _ fun s => ?_
          refine untraced_proceed hr _ fun part => ?_
          refine untraced_proceed hr _ fun env => ?_
          refine untraced_proceed (untraced_withEnv hr) _ fun body => ?_
          exact untraced_congr (untraced_withControl (untraced_withEnv hr)) .moved store
      | _ => exact untraced_congr hr _ store
  | link v =>
      refine untraced_proceed hr _ fun v => ?_
      cases v with
      | symbol s =>
          refine untraced_proceed hr _ fun s => ?_
          split
          · exact untraced_congr (by simp) .moved store
          · exact untraced_congr (untraced_withControl hr) _ store
      | _ => exact untraced_congr hr _ store
  | assert a equal b =>
      refine untraced_proceed hr _ fun a => ?_
      refine untraced_proceed hr _ fun b => ?_
      split
      · rw [stack_untraced, Stack.checkTop_untraced]
        refine untraced_proceed hr _ fun _ => ?_
        exact untraced_congr (by simp) .moved store
      · exact untraced_congr hr _ store
  | hole | stray => exact untraced_congr hr _ store

theorem untraced_step : (r.untraced.step store).untraced = (r.step store).untraced := by
  refine untraced_proceed r.untraced_untraced _ fun head => ?_
  exact untraced_reduce store { r with control := head } r.control

end Running

/-!
## Visits
-/

namespace Stage

def untraced : Stage -> Stage
  | pending body => pending body
  | running r => running r.untraced
  | awaitingEntry r s => awaitingEntry r.untraced s
  | awaitingHalt r s => awaitingHalt r.untraced s
  | failed r f => failed r.untraced f
  | halted v _ => halted v []
  | stray o => stray o

@[simp]
theorem untraced_untraced (p : Stage) : p.untraced.untraced = p.untraced := by
  cases p with
  | pending | halted | stray => rfl
  | running r | awaitingEntry r | awaitingHalt r | failed r => simp [untraced]

end Stage

namespace Visit

def Outcome.untraced : Outcome -> Outcome
  | resting => resting
  | moved p => moved p.untraced
  | spawned p name child => spawned p.untraced name child.untraced
  | broken b => broken b

def untraced (v : Visit) : Visit := ⟨v.outcome.untraced, v.store, v.left.untraced⟩

theorem untraced_eq_iff {v v' : Visit} :
    v.untraced = v'.untraced ↔
      v.outcome.untraced = v'.outcome.untraced ∧ v.store = v'.store ∧
        v.left.untraced = v'.left.untraced := by
  simp [untraced]

theorem Outcome.related_of_untraced_eq {o o' : Outcome} (h : o.untraced = o'.untraced) :
    o.Related (fun p p' => p.untraced = p'.untraced) o' := by
  cases o with
  | resting =>
      cases o' with
      | resting => exact .resting
      | _ => cases h
  | moved p =>
      cases o' with
      | moved p' => exact .moved (Outcome.moved.inj h)
      | _ => cases h
  | spawned p name child =>
      cases o' with
      | spawned p' name' child' =>
          rcases Outcome.spawned.inj h with ⟨hp, rfl, hchild⟩
          exact .spawned name hp hchild
      | _ => cases h
  | broken b =>
      cases o' with
      | broken b' =>
          cases h
          exact .broken b
      | _ => cases h

end Visit

namespace Stage

variable (table : Processes) (store : Store)

theorem untraced_advance {a a' : Attempt} (h : a'.untraced = a.untraced) :
    (advance (table.map untraced) a').untraced = (advance table a).untraced := by
  rcases Attempt.untraced_eq_iff.mp h with ⟨houtcome, _, hr⟩
  unfold advance
  rw [houtcome]
  cases a.outcome with
  | moved => simp [Visit.Outcome.untraced, untraced, hr]
  | signal s =>
      cases s with
      | halt v => rfl
      | awaitEntry s | awaitHalt s => simp [Visit.Outcome.untraced, untraced, hr]
      | spawn name env body =>
          dsimp only
          rw [Table.contains_map]
          split
          · simp [Visit.Outcome.untraced, untraced, hr]
          · simp [Visit.Outcome.untraced, untraced, hr]
  | failed f =>
      cases f with
      | fault f => simp [Visit.Outcome.untraced, untraced, hr]
      | breakage b => rfl

theorem untraced_seek {p p' : Stage} (hp : p'.untraced = p.untraced) (s : Symbol)
    {next next' : Symbol -> Visit} (hnext : ∀ s, (next' s).untraced = (next s).untraced) :
    (seek store p' s next').untraced = (seek store p s next).untraced := by
  unfold seek
  cases s.asKey with
  | ok s => exact hnext s
  | error b => exact congrArg (Visit.mk (.broken b) store) hp

/-- A process that awaits a halt finds the same, whether or not the other one has a trace. -/
theorem visitStray_untraced (o : Object) :
    visitStray (table.map untraced) store o = visitStray table store o := by
  unfold visitStray
  split
  · rfl
  · rfl
  · rfl
  · congr
    funext s
    rw [Table.get?_map]
    cases table.get? s with
    | none => rfl
    | some q =>
        cases q with
        | _ => rfl
  · rfl
  · rfl

theorem untraced_visit (p : Stage) :
    (p.untraced.visit (table.map untraced) store).untraced = (p.visit table store).untraced := by
  have hp : p.untraced.untraced = p.untraced := p.untraced_untraced
  cases p with
  | pending body => rfl
  | running r =>
      have hstep := r.untraced_step store
      rcases Attempt.untraced_eq_iff.mp hstep with ⟨_, hstore, hr⟩
      exact Visit.untraced_eq_iff.mpr
        ⟨untraced_advance table hstep, hstore, congrArg running hr⟩
  | awaitingEntry r s =>
      refine untraced_seek store hp s fun s => ?_
      split
      · simp [Visit.untraced, Visit.Outcome.untraced, untraced]
      · simp [Visit.untraced, Visit.Outcome.untraced, untraced]
  | awaitingHalt r s =>
      refine untraced_seek store hp s fun s => ?_
      rw [Table.get?_map]
      cases table.get? s with
      | none => simp [Visit.untraced, Visit.Outcome.untraced, untraced]
      | some q =>
          cases q with
          | _ => simp [Visit.untraced, Visit.Outcome.untraced, untraced]
  | failed r f | halted v ts => exact congrArg (Visit.mk .resting store) hp
  | stray o => exact congrArg Visit.untraced (visitStray_untraced table store o)

end Stage

/-!
## Worlds
-/

namespace World

def untraced (world : World) : World :=
  { world with processes := world.processes.map Stage.untraced }

@[simp]
theorem untraced_untraced (world : World) : world.untraced.untraced = world.untraced := by
  unfold untraced
  congr 1
  apply Table.ext_get?
  intro name
  simp [Table.get?_map, Function.comp_def]

end World

def Bisimulation.ofTraces : Bisimulation where
  value := Eq
  stage p p' := p.untraced = p'.untraced
  handle h h' := h.trans h'.symm
  visit := by
    intro table table' store store' p p' htable hstore hp
    cases Table.related_eq_iff.mp hstore
    have hvisit : (p.visit table store).untraced = (p'.visit table' store).untraced := by
      rw [← p.untraced_visit, hp, Table.related_map_iff.mp htable, p'.untraced_visit]
    rcases Visit.untraced_eq_iff.mp hvisit with ⟨houtcome, hafter, hleft⟩
    exact ⟨Visit.Outcome.related_of_untraced_eq houtcome, Table.related_eq_iff.mpr hafter, hleft⟩

namespace World

theorem ofTraces_worlds_iff {world world' : World} :
    Bisimulation.ofTraces.Worlds world world' ↔ world.untraced = world'.untraced := by
  constructor
  · intro h
    unfold untraced
    rw [Table.related_eq_iff.mp h.store, Table.related_map_iff.mp h.processes]
  · intro h
    rcases World.mk.inj h with ⟨hstore, hprocesses⟩
    exact ⟨Table.related_eq_iff.mpr hstore, Table.related_map_iff.mpr hprocesses⟩

/-- Traces are written and never read.  A round of a world without its traces has the same result,
and it leaves the same store and the same processes up to traces.  So worlds that differ in their
traces only go through the same rounds and end their runs in the same way: no entry of the store,
stage of a process, return value, fault or name of a process depends on what is in a trace. -/
theorem trace_write_only (world : World) :
    world.untraced.round.result = world.round.result ∧
      world.untraced.round.world.store = world.round.world.store ∧
      world.untraced.round.world.untraced = world.round.world.untraced ∧
      ∀ other : World, other.untraced = world.untraced ->
        (∀ n, (other.after n).round.result = (world.after n).round.result ∧
          (other.after n).store = (world.after n).store ∧
          (other.after n).untraced = (world.after n).untraced) ∧
        ∀ limit attempts,
          (other.run limit attempts).ending = (world.run limit attempts).ending ∧
          (other.run limit attempts).world.store = (world.run limit attempts).world.store ∧
          (other.run limit attempts).world.untraced =
            (world.run limit attempts).world.untraced := by
  have hstore {world world' : World} (h : world.untraced = world'.untraced) :
      world.store = world'.store :=
    (World.mk.inj h).1
  have hself := (ofTraces_worlds_iff.mpr world.untraced_untraced).round
  have hworld := ofTraces_worlds_iff.mp hself.world
  refine ⟨hself.result, hstore hworld, hworld, ?_⟩
  intro other hother
  have h := ofTraces_worlds_iff.mpr hother
  constructor
  · intro n
    have hn := ofTraces_worlds_iff.mp (h.after n)
    exact ⟨(h.after n).round.result, hstore hn, hn⟩
  · intro limit attempts
    have hrun := h.run limit attempts
    have hlast := ofTraces_worlds_iff.mp hrun.world
    exact ⟨hrun.ending, hstore hlast, hlast⟩

def putInNestGetLink : Computation :=
  .bind (.variable "p")
    (.spawn (.symbol (.name "w"))
      (.bind .ignore (.put (.symbol (.name "a")) (.number 1)) (.ret (.number 2))))
    (.bind (.variable "q") (.nest (.symbol (.name "n")) (.put (.symbol (.name "b")) (.number 3)))
      (.bind .ignore (.get (.variable "q")) (.link (.variable "p"))))

theorem putInNestGetLink_trace_write_only :
    let world := (initial putInNestGetLink).after 9
    world.untraced ≠ world ∧
      (world.runFor 20).ending = .settled 6 ∧
      (world.untraced.runFor 20).ending = .settled 6 ∧
      (world.untraced.runFor 20).world ≠ (world.runFor 20).world ∧
      (world.untraced.runFor 20).world.untraced = (world.runFor 20).world.untraced := by
  intro world
  rcases trace_write_only world with ⟨_, _, _, hother⟩
  rcases (hother world.untraced world.untraced_untraced).2 none 20 with ⟨hending, _, hworld⟩
  have hsettled : (world.runFor 20).ending = .settled 6 := by decide +kernel
  exact ⟨by decide +kernel, hsettled, hending.trans hsettled, by decide +kernel, hworld⟩

end World

end PushValue
