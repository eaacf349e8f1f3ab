import PushValue.Proofs.Effect

/-!
# Rules of reduction

A step that does not fail is an instance of one of the rules below, one for each way in
which a computation and the innermost frame can meet.  A rule says under which conditions
it applies and which store and process it leaves, so what holds of all steps is proved by
going through the rules.
-/

namespace PushValue

/-- A process is about to hand a value to its stack, and the state in which it does so.  A value
that is returned for the first time is resolved, and is recorded where the stack asks for it. -/
inductive Running.Hands (r : Running) : Value -> Running -> Prop where
  | first {u v : Value} (hcontrol : r.control = .ret u) (hu : u.resolve r.env = .ok v) :
      Hands r v ((r.recordReturn v).returning v)
  | again {v : Value} (hcontrol : r.control = .returned v) : Hands r v r

theorem Running.Hands.control_eq {r r' : Running} {v : Value} (h : r.Hands v r') :
    r'.control = .returned v := by
  cases h with
  | first hcontrol hu => rfl
  | again hcontrol => exact hcontrol

inductive Reduction (store : Store) (r : Running) : Attempt -> Prop where
  | halt {v : Value} {r' : Running} (hv : r.Hands v r') (hstack : r.stack = []) :
      Reduction store r ⟨.signal (.halt v), store, r'⟩
  | leave {v : Value} {r' : Running} {frame : Frame} {rest : Stack} {s : Symbol}
      (hv : r.Hands v r') (hstack : r.stack = frame :: rest)
      (hcontext : frame.context = .ok (.nest s)) :
      Reduction store r
        (.moved store { r' with stack := rest, trace := frame.trace ++ [.nest s r'.trace] })
  | bound {v : Value} {r' : Running} {frame : Frame} {rest : Stack} {env env' : Environment}
      {p : Pattern} {body : Computation} (hv : r.Hands v r') (hstack : r.stack = frame :: rest)
      (hcontext : frame.context = .ok (.bind env p body)) (hp : p.bind v env = .ok env') :
      Reduction store r (.moved store (Running.resume { r' with stack := rest } frame env' body))
  | boundBox {b : Box} {r' : Running} {frame : Frame} {rest : Stack} {env env' : Environment}
      {x : String} {body : Computation} (hv : r.Hands (.box b) r')
      (hstack : r.stack = frame :: rest)
      (hcontext : frame.context = .ok (.bindBox env (.variable x) body))
      (hx : env.bindBox x b = .ok env') :
      Reduction store r (.moved store (Running.resume { r' with stack := rest } frame env' body))
  | droppedBox {b : Box} {r' : Running} {frame : Frame} {rest : Stack} {env : Environment}
      {body : Computation} (hv : r.Hands (.box b) r') (hstack : r.stack = frame :: rest)
      (hcontext : frame.context = .ok (.bindBox env .ignore body)) :
      Reduction store r (.moved store (Running.resume { r' with stack := rest } frame env body))
  | nest {v : Value} {body : Computation} {s : Symbol} (hcontrol : r.control = .nest v body)
      (hv : v.resolveSymbol r.env = .ok s) :
      Reduction store r (.moved store (r.push (.nest s) body))
  | spawn {v : Value} {body : Computation} {s : Symbol} (hcontrol : r.control = .spawn v body)
      (hv : v.resolveSymbol r.env = .ok s)
      (hfree : store.contains (r.stack.qualify s) = false) :
      Reduction store r ⟨.signal (.spawn (r.stack.qualify s) r.env body), store,
        r.returning (.process (r.stack.qualify s))⟩
  | bind {p : Pattern} {e₁ e₂ : Computation} (hcontrol : r.control = .bind p e₁ e₂) :
      Reduction store r (.moved store (r.push (.bind r.env p e₂) e₁))
  | bindBox {p : Pattern} {e₁ e₂ : Computation} (hcontrol : r.control = .bindBox p e₁ e₂)
      (hp : p = .ignore ∨ ∃ x, p = .variable x) :
      Reduction store r (.moved store (r.push (.bindBox r.env p e₂) e₁))
  | extract {x : String} {boxes : Boxes} {b : Box} {code : Computation} {env : Environment}
      (hcontrol : r.control = .extract (.variable x)) (hboxes : r.env.boxes = .ok boxes)
      (hb : boxes.get? x = some b) (hcode : b.unpack = .ok (code, env)) :
      Reduction store r (.moved store { r with control := code, env })
  | enter {p : Pattern} {body : Computation} {frame : Frame} {rest : Stack} {v : Value}
      {env : Environment} (hcontrol : r.control = .lambda p body)
      (hstack : r.stack = frame :: rest) (hcontext : frame.context = .ok (.argument v))
      (hp : p.bind v r.env = .ok env) :
      Reduction store r (.moved store (Running.resume { r with stack := rest } frame env body))
  | choose {bs : Branches} {frame : Frame} {rest : Stack} {v : Value} {s : Symbol} {part : Part}
      {body : Computation} (hcontrol : r.control = .branches bs)
      (hstack : r.stack = frame :: rest) (hcontext : frame.context = .ok (.label v))
      (hv : v.toSymbol = .ok s) (hpart : bs.select r.env s = .ok part)
      (hbody : part.body = .ok body) :
      Reduction store r (.moved store (Running.resume { r with stack := rest } frame r.env body))
  | apply {e : Computation} {v w : Value} (hcontrol : r.control = .apply e v)
      (hv : v.resolve r.env = .ok w) : Reduction store r (.moved store (r.push (.argument w) e))
  | project {e : Computation} {v w : Value} (hcontrol : r.control = .project e v)
      (hv : v.resolve r.env = .ok w) : Reduction store r (.moved store (r.push (.label w) e))
  | put {n v w : Value} {s : Symbol} (hcontrol : r.control = .put n v)
      (hn : n.resolveSymbol r.env = .ok s) (hv : v.resolve r.env = .ok w) :
      Reduction store r (.moved (store.insert (r.stack.qualify s) w)
        ((r.record (.put (r.stack.qualify s) w)).returning (.pointer (r.stack.qualify s))))
  | get {v stored : Value} {s : Symbol} (hcontrol : r.control = .get v)
      (hv : v.resolvePointer r.env = .ok s) (hstored : store.get? s = some stored) :
      Reduction store r (.moved store ((r.record (.get s stored)).returning stored))
  | switch {v l payload : Value} {cs : Cases} {s : Symbol} {part : Part} {env : Environment}
      {body : Computation} (hcontrol : r.control = .switch v cs)
      (hv : v.resolve r.env = .ok (.variant l payload)) (hl : l.toSymbol = .ok s)
      (hpart : cs.select r.env s = .ok part) (hbind : part.bind payload r.env = .ok env)
      (hbody : part.body = .ok body) :
      Reduction store r (.moved store { r with control := body, env })
  | link {v : Value} {s : Symbol} (hcontrol : r.control = .link v)
      (hv : v.resolve r.env = .ok (.symbol s)) (hstored : store.contains s) :
      Reduction store r
        (.moved store ((r.record (.link (.symbol s) (.pointer s))).returning (.pointer s)))
  | awaitEntry {v : Value} {s : Symbol} (hcontrol : r.control = .link v)
      (hv : v.resolve r.env = .ok (.symbol s)) (hmissing : store.contains s = false) :
      Reduction store r
        ⟨.signal (.awaitEntry s), store, { r with control := .link (.symbol s) }⟩
  | awaitHalt {v : Value} {s : Symbol} (hcontrol : r.control = .link v)
      (hv : v.resolve r.env = .ok (.process s)) :
      Reduction store r ⟨.signal (.awaitHalt s), store, r⟩
  | assert {a b a' b' : Value} {equal : Bool} (hcontrol : r.control = .assert a equal b)
      (ha : a.resolve r.env = .ok a') (hb : b.resolve r.env = .ok b')
      (hequal : (a' == b') = equal) :
      Reduction store r (.moved store ((r.recordReturn .unit).returning .unit))

/-!
## Steps that do not fail
-/

namespace Attempt

def UnlessFailed (P : Attempt -> Prop) (a : Attempt) : Prop :=
  (∀ f, a.outcome ≠ .failed f) -> P a

namespace UnlessFailed

variable {P : Attempt -> Prop} {store : Store} {r : Running}

theorem of_holds {a : Attempt} (h : P a) : UnlessFailed P a := fun _ => h

theorem failed {f : Failure} : UnlessFailed P ⟨.failed f, store, r⟩ :=
  fun h => absurd rfl (h f)

theorem proceed {α : Type} {result : Except Failure α} {next : α -> Attempt}
    (hnext : ∀ a, result = .ok a -> UnlessFailed P (next a)) :
    UnlessFailed P (Attempt.proceed store r result next) := by
  cases result with
  | ok a => exact hnext a rfl
  | error f => exact failed

theorem ask {α : Type} {part : Except Lack α} {next : α -> Attempt}
    (hnext : ∀ a, part = .ok a -> UnlessFailed P (next a)) :
    UnlessFailed P (Attempt.ask store r part next) := by
  cases part with
  | ok a => exact hnext a rfl
  | error l => exact failed

theorem seek {s : Symbol} {next : Symbol -> Attempt} (hnext : UnlessFailed P (next s)) :
    UnlessFailed P (Attempt.seek store r s next) := by
  unfold Attempt.seek
  cases hkey : s.asKey with
  | ok key =>
      rw [Symbol.eq_of_asKey hkey]
      exact hnext
  | error b => exact failed

end UnlessFailed

end Attempt

namespace Running

open Attempt

variable {store : Store} {r posed : Running}

theorem deliver_reduction {v : Value} (hv : r.Hands v posed) (hposed : posed.stack = r.stack) :
    UnlessFailed (Reduction store r) (posed.deliver store v) := by
  unfold deliver
  rw [hposed]
  split
  next hstack => exact .of_holds (.halt hv hstack)
  next frame rest hstack =>
    apply UnlessFailed.ask
    intro context hcontext
    cases context with
    | nest s =>
        have hleave : Reduction store r _ := .leave hv hstack hcontext
        exact .of_holds hleave
    | bind env p body =>
        apply UnlessFailed.proceed
        intro env' hp
        exact .of_holds (.bound hv hstack hcontext hp)
    | bindBox env p body =>
        dsimp only
        split
        next b x =>
          apply UnlessFailed.ask
          intro env' hx
          exact .of_holds (.boundBox hv hstack hcontext hx)
        next b => exact .of_holds (.droppedBox hv hstack hcontext)
        next => exact .failed
    | argument w | label w | stray o => exact .failed

theorem recordReturn_stack (r : Running) (v : Value) : (r.recordReturn v).stack = r.stack := by
  unfold recordReturn
  split
  · rfl
  · rfl

/-- A step that does not fail follows the rule of the computation under control.  The head that
stands in for the computation meanwhile is gone when the step is over. -/
theorem reduce_reduction {head : Computation} (hhead : r.control.head = .ok head) :
    UnlessFailed (Reduction store r) (reduce store { r with control := head } r.control) := by
  -- Where a computation is its own head, the process is the one that steps.
  have hself (h : r.control.head = .ok r.control) : { r with control := head } = r := by
    rw [← Except.ok.inj (h.symm.trans hhead)]
  cases hcontrol : r.control with
  | ret v =>
      rw [hself (by rw [hcontrol]; rfl)]
      apply UnlessFailed.proceed
      intro w hv
      apply UnlessFailed.ask
      intro _ _
      exact deliver_reduction (.first hcontrol hv) (r.recordReturn_stack w)
  | returned v =>
      rw [hself (by rw [hcontrol]; rfl)]
      exact deliver_reduction (.again hcontrol) rfl
  | nest v body =>
      apply UnlessFailed.proceed
      intro s hv
      exact .of_holds (.nest hcontrol hv)
  | spawn v body =>
      apply UnlessFailed.proceed
      intro s hv
      apply UnlessFailed.ask
      intro _ _
      apply UnlessFailed.seek
      split
      next => exact .failed
      next hfree => exact .of_holds (.spawn hcontrol hv (Bool.eq_false_iff.mpr hfree))
  | bind p e₁ e₂ => exact .of_holds (.bind hcontrol)
  | bindBox p e₁ e₂ =>
      cases p with
      | «variable» x => exact .of_holds (.bindBox hcontrol (.inr ⟨x, rfl⟩))
      | ignore => exact .of_holds (.bindBox hcontrol (.inl rfl))
      | _ => exact .failed
  | extract v =>
      cases v with
      | «variable» x =>
          apply UnlessFailed.ask
          intro boxes hboxes
          cases hb : boxes.get? x with
          | none => exact .failed
          | some b =>
              apply UnlessFailed.ask
              rintro ⟨code, env⟩ hcode
              exact .of_holds (.extract hcontrol hboxes hb hcode)
      | _ => exact .failed
  | lambda p body =>
      dsimp only [reduce, enter]
      split
      next => exact .failed
      next frame rest hstack =>
        apply UnlessFailed.ask
        intro context hcontext
        cases context with
        | argument v =>
            apply UnlessFailed.proceed
            intro env hp
            exact .of_holds (.enter hcontrol hstack hcontext hp)
        | _ => exact .failed
  | branches bs =>
      dsimp only [reduce, choose]
      split
      next => exact .failed
      next frame rest hstack =>
        apply UnlessFailed.ask
        intro context hcontext
        cases context with
        | label v =>
            apply UnlessFailed.proceed
            intro s hv
            apply UnlessFailed.proceed
            intro part hpart
            apply UnlessFailed.ask
            intro body hbody
            exact .of_holds (.choose hcontrol hstack hcontext hv hpart hbody)
        | _ => exact .failed
  | apply e v =>
      apply UnlessFailed.proceed
      intro w hv
      exact .of_holds (.apply hcontrol hv)
  | project e v =>
      apply UnlessFailed.proceed
      intro w hv
      exact .of_holds (.project hcontrol hv)
  | put n v =>
      apply UnlessFailed.proceed
      intro s hn
      apply UnlessFailed.proceed
      intro w hv
      apply UnlessFailed.ask
      intro _ _
      apply UnlessFailed.seek
      exact .of_holds (.put hcontrol hn hv)
  | get v =>
      apply UnlessFailed.proceed
      intro s hv
      apply UnlessFailed.seek
      cases hget : store.get? s with
      | some stored => exact .of_holds (.get hcontrol hv hget)
      | none => exact .failed
  | switch v cs =>
      apply UnlessFailed.proceed
      intro w hv
      cases w with
      | variant l payload =>
          apply UnlessFailed.proceed
          intro s hl
          apply UnlessFailed.proceed
          intro part hpart
          apply UnlessFailed.proceed
          intro env hbind
          apply UnlessFailed.ask
          intro body hbody
          exact .of_holds (.switch hcontrol hv hl hpart hbind hbody)
      | _ => exact .failed
  | link v =>
      rw [hself (by rw [hcontrol]; rfl)]
      apply UnlessFailed.proceed
      intro w hv
      cases w with
      | symbol s =>
          apply UnlessFailed.seek
          split
          next hstored => exact .of_holds (.link hcontrol hv hstored)
          next hmissing =>
            exact .of_holds (.awaitEntry hcontrol hv (Bool.eq_false_iff.mpr hmissing))
      | process s => exact .of_holds (.awaitHalt hcontrol hv)
      | _ => exact .failed
  | assert a equal b =>
      rw [hself (by rw [hcontrol]; rfl)]
      apply UnlessFailed.proceed
      intro a' ha
      apply UnlessFailed.proceed
      intro b' hb
      split
      next hequal =>
        apply UnlessFailed.ask
        intro _ _
        exact .of_holds (.assert hcontrol ha hb hequal)
      next => exact .failed
  | hole | stray o => exact .failed

theorem step_reduction (store : Store) (r : Running) :
    UnlessFailed (Reduction store r) (r.step store) := by
  apply UnlessFailed.proceed
  intro head hhead
  exact reduce_reduction hhead

theorem reduction_of_step {a : Attempt} (ha : r.step store = a)
    (h : ∀ f, a.outcome ≠ .failed f) : Reduction store r a := by
  subst ha
  exact r.step_reduction store h

end Running

end PushValue
