import PushValue.Proofs.Motion

/-!
# What a fault leaves behind

A step that meets a fault of the program has done almost nothing by then.  The store, the
environment and the trace are as they were; the computation under control is the head of
what was to be done, or the value that was to be handed over.  Only the innermost frame may
be gone, for it is taken off the stack before it is known to fit.
-/

namespace PushValue

/-- What a process that meets a fault has under control. -/
inductive Running.Exposes (r : Running) : Computation -> Prop where
  | head {e : Computation} (hhead : r.control.head = .ok e)
      (hunresolved : ∀ u v, r.control = .ret u -> u.resolve r.env ≠ .ok v) : Exposes r e
  | returned {u v : Value} (hcontrol : r.control = .ret u) (hu : u.resolve r.env = .ok v) :
      Exposes r (.returned v)

namespace Running.Exposes

variable {r : Running} {e : Computation}

theorem eq_returned (h : r.Exposes e) {u v : Value} (hret : r.control = .ret u)
    (hu : u.resolve r.env = .ok v) : e = .returned v := by
  cases h with
  | head hhead hunresolved => exact absurd hu (hunresolved u v hret)
  | returned hcontrol hv =>
      cases hcontrol.symm.trans hret
      cases hv.symm.trans hu
      rfl

theorem head_eq (h : r.Exposes e)
    (hunresolved : ∀ u v, r.control = .ret u -> u.resolve r.env ≠ .ok v) :
    r.control.head = .ok e := by
  cases h with
  | head hhead _ => exact hhead
  | returned hcontrol hv => exact absurd hv (hunresolved _ _ hcontrol)

end Running.Exposes

/-- A process and a store as a fault leaves them. -/
structure Remains (store : Store) (r : Running) (a : Attempt) : Prop where
  store : a.store = store
  control : r.Exposes a.running.control
  env : a.running.env = r.env
  stack : a.running.stack = r.stack ∨ ∃ frame, r.stack = frame :: a.running.stack
  trace : a.running.trace = r.trace

namespace Remains

variable {store : Store} {r : Running} {head : Computation} {outcome : Outcome}

theorem posed (hhead : r.Exposes head) :
    Remains store r ⟨outcome, store, { r with control := head }⟩ where
  store := rfl
  control := hhead
  env := rfl
  stack := .inl rfl
  trace := rfl

theorem popped (hhead : r.Exposes head) {frame : Frame} {rest : Stack}
    (hstack : r.stack = frame :: rest) :
    Remains store r ⟨outcome, store, { r with control := head, stack := rest }⟩ where
  store := rfl
  control := hhead
  env := rfl
  stack := .inr ⟨frame, hstack⟩
  trace := rfl

end Remains

/-!
## Faults
-/

namespace Attempt

def UponFault (P : Attempt -> Prop) (a : Attempt) : Prop :=
  ∀ f, a.outcome = .failed (.fault f) -> P a

namespace UponFault

variable {P : Attempt -> Prop} {store : Store} {r : Running}

theorem of_holds {a : Attempt} (h : P a) : UponFault P a := fun _ _ => h

theorem of_ne {a : Attempt} (h : ∀ f, a.outcome ≠ .failed (.fault f)) : UponFault P a :=
  fun f hf => absurd hf (h f)

theorem moved : UponFault P (.moved store r) := of_ne (by intro f h; cases h)

theorem signal {s : Signal} : UponFault P ⟨.signal s, store, r⟩ := of_ne (by intro f h; cases h)

theorem broken {b : Breakage} : UponFault P ⟨.failed (.breakage b), store, r⟩ :=
  of_ne (by intro f h; cases h)

theorem proceed {α : Type} {result : Except Failure α} {next : α -> Attempt}
    (hfailed : ∀ f, result = .error f -> P ⟨.failed f, store, r⟩)
    (hnext : ∀ a, result = .ok a -> UponFault P (next a)) :
    UponFault P (Attempt.proceed store r result next) := by
  cases result with
  | ok a => exact hnext a rfl
  | error f => exact of_holds (hfailed f rfl)

theorem ask {α : Type} {part : Except Lack α} {next : α -> Attempt}
    (hnext : ∀ a, part = .ok a -> UponFault P (next a)) :
    UponFault P (Attempt.ask store r part next) := by
  cases part with
  | ok a => exact hnext a rfl
  | error l =>
      -- Where a part is missing the step breaks, and that is no fault.
      exact broken

theorem seek {s : Symbol} {next : Symbol -> Attempt} (hnext : ∀ key, UponFault P (next key)) :
    UponFault P (Attempt.seek store r s next) := by
  unfold Attempt.seek
  cases s.asKey with
  | ok key => exact hnext key
  | error b => exact broken

end UponFault

end Attempt

/-!
## Steps
-/

/-- A computation without a head is none at all, and that is no fault. -/
theorem Computation.head_ne_fault (e : Computation) (f : Fault) :
    e.head ≠ .error (.fault f) := by
  cases e with
  | switch v cs =>
      rw [head]
      cases cs.head with
      | ok cs' => exact nofun
      | error l => exact nofun
  | branches bs =>
      rw [head]
      cases bs.head with
      | ok bs' => exact nofun
      | error l => exact nofun
  | _ => exact nofun

namespace Running

open Attempt

variable {store : Store} {r : Running} {head : Computation}

theorem deliver_remains {posed : Running} (hcontrol : r.Exposes posed.control)
    (henv : posed.env = r.env) (hstack : posed.stack = r.stack)
    (htrace : r.stack.recordsReturn = false -> posed.trace = r.trace) (v : Value) :
    UponFault (Remains store r) (posed.deliver store v) := by
  unfold deliver
  rw [hstack]
  split
  next => exact .signal
  next frame rest hframe =>
    apply UponFault.ask
    intro context hcontext
    have hpopped (hother : ∀ s, context ≠ .nest s) (outcome : Outcome) :
        Remains store r ⟨outcome, store, { posed with stack := rest }⟩ := by
      have hnone : Stack.recordsReturn (frame :: rest) = false :=
        Stack.recordsReturn_eq_false hcontext hother
      rw [← hframe] at hnone
      exact ⟨rfl, hcontrol, henv, .inr ⟨frame, hframe⟩, htrace hnone⟩
    cases context with
    | nest s => exact .moved
    | bind env p body =>
        apply UponFault.proceed
        · intro f _
          exact hpopped (by intro s h; cases h) _
        · intro env' _
          exact .moved
    | bindBox env p body =>
        dsimp only
        split
        · apply UponFault.ask
          intro env' _
          exact .moved
        · exact .moved
        · exact .of_holds (hpopped (by intro s h; cases h) _)
    | argument w | label w => exact .of_holds (hpopped (by intro s h; cases h) _)
    | stray o => exact .broken

theorem enter_remains (hhead : r.Exposes head) (p : Pattern) (body : Computation) :
    UponFault (Remains store r) (enter store { r with control := head } p body) := by
  unfold enter
  split
  next => exact .of_holds (.posed hhead)
  next frame rest hstack =>
    apply UponFault.ask
    intro context _
    cases context with
    | argument v =>
        refine .proceed (fun _ _ => .popped hhead hstack) ?_
        intro env _
        exact .moved
    | _ => exact .of_holds (.popped hhead hstack)

theorem choose_remains (hhead : r.Exposes head) (bs : Branches) :
    UponFault (Remains store r) (choose store { r with control := head } bs) := by
  unfold choose
  split
  next => exact .of_holds (.posed hhead)
  next frame rest hstack =>
    apply UponFault.ask
    intro context _
    cases context with
    | label v =>
        refine .proceed (fun _ _ => .popped hhead hstack) ?_
        intro s _
        refine .proceed (fun _ _ => .popped hhead hstack) ?_
        intro part _
        apply UponFault.ask
        intro body _
        exact .moved
    | _ => exact .of_holds (.popped hhead hstack)

theorem ret_remains {u : Value} (hcontrol : r.control = .ret u) :
    UponFault (Remains store r) (r.reduce store (.ret u)) := by
  apply UponFault.proceed
  · intro f hu
    have hhead : r.Exposes r.control := by
      refine .head (by rw [hcontrol]; rfl) ?_
      intro u' v hret hv
      cases hcontrol.symm.trans hret
      cases hu.symm.trans hv
    exact .posed hhead
  intro v hu
  apply UponFault.ask
  intro _ _
  apply deliver_remains (.returned hcontrol hu)
  · unfold recordReturn
    split
    · rfl
    · rfl
  · exact r.recordReturn_stack v
  · intro hnone
    show (r.recordReturn v).trace = r.trace
    rw [recordReturn, hnone]
    rfl

theorem reduce_remains (hhead : r.control.head = .ok head) (hret : ∀ u, r.control ≠ .ret u) :
    UponFault (Remains store r) (reduce store { r with control := head } r.control) := by
  have hexposed : r.Exposes head := .head hhead (fun u _ h => absurd h (hret u))
  have hposed (outcome : Outcome) :
      Remains store r ⟨outcome, store, { r with control := head }⟩ := .posed hexposed
  cases hcontrol : r.control with
  | ret u => exact absurd hcontrol (hret u)
  | returned v =>
      have hcontrol : r.Exposes (Running.control { r with control := head }) := hexposed
      exact deliver_remains hcontrol rfl rfl (fun _ => rfl) v
  | nest v body | apply body v | project body v =>
      refine .proceed (fun _ _ => hposed _) ?_
      intro w _
      exact .moved
  | spawn v body =>
      refine .proceed (fun _ _ => hposed _) ?_
      intro s _
      apply UponFault.ask
      intro _ _
      apply UponFault.seek
      intro name
      split
      · exact .of_holds (hposed _)
      · exact .signal
  | bind p e₁ e₂ => exact .moved
  | bindBox p e₁ e₂ =>
      cases p with
      | «variable» x | ignore => exact .moved
      | _ => exact .of_holds (hposed _)
  | extract v =>
      cases v with
      | «variable» x =>
          apply UponFault.ask
          intro boxes _
          cases boxes.get? x with
          | none => exact .of_holds (hposed _)
          | some b =>
              apply UponFault.ask
              intro unpacked _
              exact .moved
      | _ => exact .of_holds (hposed _)
  | lambda p body => exact enter_remains hexposed p body
  | branches bs => exact choose_remains hexposed bs
  | put n v =>
      refine .proceed (fun _ _ => hposed _) ?_
      intro s _
      refine .proceed (fun _ _ => hposed _) ?_
      intro w _
      apply UponFault.ask
      intro _ _
      apply UponFault.seek
      intro name
      exact .moved
  | get v =>
      refine .proceed (fun _ _ => hposed _) ?_
      intro s _
      apply UponFault.seek
      intro key
      cases store.get? key with
      | some stored => exact .moved
      | none => exact .of_holds (hposed _)
  | switch v cs =>
      refine .proceed (fun _ _ => hposed _) ?_
      intro w _
      cases w with
      | variant l payload =>
          refine .proceed (fun _ _ => hposed _) ?_
          intro s _
          refine .proceed (fun _ _ => hposed _) ?_
          intro part _
          refine .proceed (fun _ _ => hposed _) ?_
          intro env _
          apply UponFault.ask
          intro body _
          exact .moved
      | _ => exact .of_holds (hposed _)
  | link v =>
      refine .proceed (fun _ _ => hposed _) ?_
      intro w _
      cases w with
      | symbol s =>
          apply UponFault.seek
          intro key
          split
          · exact .moved
          · exact .signal
      | process s => exact .signal
      | _ => exact .of_holds (hposed _)
  | assert a equal b =>
      refine .proceed (fun _ _ => hposed _) ?_
      intro a' _
      refine .proceed (fun _ _ => hposed _) ?_
      intro b' _
      split
      · apply UponFault.ask
        intro _ _
        exact .moved
      · exact .of_holds (hposed _)
  | hole | stray o => exact .broken

/-- What every step that meets a fault leaves behind. -/
theorem step_remains (store : Store) (r : Running) :
    UponFault (Remains store r) (r.step store) := by
  unfold step
  cases hhead : r.control.head with
  | error f =>
      cases f with
      | fault f => exact absurd hhead (r.control.head_ne_fault f)
      | breakage b => exact .broken
  | ok head =>
      rw [Attempt.proceed_ok]
      by_cases hret : ∃ u, r.control = .ret u
      · obtain ⟨u, hu⟩ := hret
        have hself : head = r.control := by
          rw [hu] at hhead
          rw [hu, Except.ok.inj hhead]
        have hret : UponFault (Remains store r) (r.reduce store r.control) := by
          rw [hu]
          exact ret_remains hu
        rw [hself]
        exact hret
      · exact reduce_remains hhead (not_exists.mp hret)

/-- A step that meets a fault leaves the store, the environment and the trace as they were.  The
stack is whole or lacks its innermost frame.  Under control is the value that was to be returned,
if that could be resolved, and the head of the computation otherwise. -/
theorem fault_atomic (store : Store) (r : Running) (f : Fault)
    (h : (r.step store).outcome = .failed (.fault f)) :
    (r.step store).store = store ∧ (r.step store).running.env = r.env ∧
      (r.step store).running.trace = r.trace ∧
      ((r.step store).running.stack = r.stack ∨
        ∃ frame, r.stack = frame :: (r.step store).running.stack) ∧
      (∀ u v, r.control = .ret u -> u.resolve r.env = .ok v ->
        (r.step store).running.control = .returned v) ∧
      ((∀ u v, r.control = .ret u -> u.resolve r.env ≠ .ok v) ->
        r.control.head = .ok (r.step store).running.control) := by
  have hremains := step_remains store r f h
  refine ⟨hremains.store, hremains.env, hremains.trace, hremains.stack, ?_, ?_⟩
  · intro u v hret hu
    exact hremains.control.eq_returned hret hu
  · intro hunresolved
    exact hremains.control.head_eq hunresolved

def returnToRecordPattern : Running where
  control := .ret (.variable "x")
  env := .mk (Table.empty.insert "x" (.number 5)) .nil
  stack := [.mk (.bind .empty (.fields .nil) .hole) [.put (.name "a") (.number 1)],
    .mk (.nest (.name "n")) []]
  trace := [.get (.name "a") (.number 1)]

theorem returnToRecordPattern_fault_atomic :
    (returnToRecordPattern.step {}).outcome = .failed (.fault .notRecord) ∧
      (returnToRecordPattern.step {}).store = {} ∧
      (returnToRecordPattern.step {}).running.env = returnToRecordPattern.env ∧
      (returnToRecordPattern.step {}).running.trace = [.get (.name "a") (.number 1)] ∧
      (returnToRecordPattern.step {}).running.stack = [.mk (.nest (.name "n")) []] ∧
      (returnToRecordPattern.step {}).running.control = .returned (.number 5) := by
  have hfault : (returnToRecordPattern.step {}).outcome = .failed (.fault .notRecord) := rfl
  rcases fault_atomic {} returnToRecordPattern .notRecord hfault with
    ⟨hstore, henv, htrace, hstack, hreturned, _⟩
  have hpopped : (returnToRecordPattern.step {}).running.stack = [.mk (.nest (.name "n")) []] := by
    obtain hwhole | ⟨frame, hframe⟩ := hstack
    · cases hwhole
    · exact (List.tail_eq_of_cons_eq hframe).symm
  exact ⟨hfault, hstore, henv, htrace, hpopped, hreturned _ _ rfl rfl⟩

end Running

end PushValue
