import PushValue.Proofs.Footprint
import PushValue.Proofs.Reduction

/-!
# Processes that go abreast

What a process does is decided by the computation under control, the environment and the stack down
to where a value is handed to it.  Two processes that agree in these go abreast, whatever contexts
lie further down, as long as these are bindings and no value gets down to them.  The parts of a
trace may be saved in different frames: what counts are the layers of the trace between the
nests.
-/

namespace PushValue

/-!
## Layers of traces
-/

/-- The trace of a process in layers, one for each nest on the stack and one for what is outside of
all nests, the innermost first.  What a frame saved belongs to the layer of what came after it,
unless it is the frame of a nest. -/
def Stack.layers : Stack -> List Trace -> List (List Trace)
  | [], ts => [ts]
  | f :: rest, ts =>
      match f.context with
      | .ok (.nest _) => ts :: layers rest f.trace
      | _ => layers rest (f.trace ++ ts)

def Running.layers (r : Running) : List (List Trace) := r.stack.layers r.trace

theorem Stack.layers_concat (stack : Stack) (ts : List Trace) (entry : Trace) :
    stack.layers (ts ++ [entry]) = (stack.layers ts).modifyHead (· ++ [entry]) := by
  induction stack generalizing ts with
  | nil => rfl
  | cons f rest ih =>
      unfold layers
      split
      · rfl
      · rw [← List.append_assoc]
        exact ih _

def Context.isNest : Context -> Bool
  | nest _ => true
  | _ => false

theorem Stack.layers_other {frame : Frame} {context : Context}
    (hcontext : frame.context = .ok context) (hother : context.isNest = false) (rest : Stack)
    (ts : List Trace) :
    Stack.layers (frame :: rest) ts = Stack.layers rest (frame.trace ++ ts) := by
  rw [layers, hcontext]
  cases context with
  | nest s => cases hother
  | _ => rfl

theorem Stack.layers_nest {frame : Frame} {s : Symbol} (hcontext : frame.context = .ok (.nest s))
    (rest : Stack) (ts : List Trace) :
    Stack.layers (frame :: rest) ts = ts :: Stack.layers rest frame.trace := by
  rw [layers, hcontext]

/-!
## Contexts of stacks
-/

def Stack.Shows (stack : Stack) (contexts : List Context) : Prop :=
  stack.map Frame.context = contexts.map Except.ok

namespace Stack

variable {stack : Stack} {contexts : List Context} {c : Context}

theorem shows_nil_iff : stack.Shows [] ↔ stack = [] := List.map_eq_nil_iff

theorem shows_cons_iff :
    stack.Shows (c :: contexts) ↔
      ∃ (frame : Frame) (rest : Stack), stack = frame :: rest ∧ frame.context = .ok c ∧
        rest.Shows contexts :=
  List.map_eq_cons_iff

theorem Shows.checkTop (h : stack.Shows contexts) : stack.checkTop = .ok () := by
  cases contexts with
  | nil =>
      rw [shows_nil_iff.mp h]
      rfl
  | cons c rest =>
      rcases shows_cons_iff.mp h with ⟨frame, rest, rfl, hframe, _⟩
      rw [Stack.checkTop, hframe]
      rfl

theorem Shows.check (h : stack.Shows contexts) : stack.check = .ok () := by
  induction contexts generalizing stack with
  | nil =>
      rw [shows_nil_iff.mp h]
      rfl
  | cons c rest ih =>
      rcases shows_cons_iff.mp h with ⟨frame, rest, rfl, hframe, hrest⟩
      rw [Stack.check, hframe]
      exact ih hrest

end Stack

def Context.isBind : Context -> Bool
  | bind _ _ _ => true
  | _ => false

/-- What two processes that go abreast have at the bottom of their stacks.  If their traces are to
agree, then both or neither have to have something there, for whether the return of a value is
recorded depends on it. -/
structure Footing (traced : Prop) (b b' : List Context) : Prop where
  left : ∀ c ∈ b, c.isBind
  right : ∀ c ∈ b', c.isBind
  even : traced -> (b = [] ↔ b' = [])

namespace Stack

variable {stack stack' : Stack} {b b' upper : List Context} {traced : Prop}

theorem Shows.nil_or_bind (h : stack.Shows b) (hb : ∀ c ∈ b, c.isBind) :
    stack = [] ∨ ∃ (frame : Frame) (rest : Stack) (env : Environment) (p : Pattern)
      (body : Computation), stack = frame :: rest ∧ frame.context = .ok (.bind env p body) := by
  cases b with
  | nil => exact .inl (shows_nil_iff.mp h)
  | cons c rest =>
      rcases shows_cons_iff.mp h with ⟨frame, frames, hstack, hframe, _⟩
      rw [List.forall_mem_cons] at hb
      cases c with
      | bind env p body => exact .inr ⟨frame, frames, env, p, body, hstack, hframe⟩
      | _ => cases hb.1

theorem Shows.qualify_binds (h : stack.Shows b) (hb : ∀ c ∈ b, c.isBind) (s : Symbol) :
    stack.qualify s = s := by
  induction b generalizing stack with
  | nil =>
      rw [shows_nil_iff.mp h]
      rfl
  | cons c rest ih =>
      rcases shows_cons_iff.mp h with ⟨frame, frames, rfl, hframe, hframes⟩
      rw [List.forall_mem_cons] at hb
      rw [qualify, hframe]
      cases c with
      | bind => exact ih hframes hb.2
      | _ => cases hb.1

theorem qualify_abreast (h : stack.Shows (upper ++ b)) (h' : stack'.Shows (upper ++ b'))
    (hfoot : Footing traced b b') (s : Symbol) : stack.qualify s = stack'.qualify s := by
  induction upper generalizing stack stack' s with
  | nil => rw [h.qualify_binds hfoot.left, h'.qualify_binds hfoot.right]
  | cons c rest ih =>
      rcases shows_cons_iff.mp h with ⟨frame, frames, rfl, hframe, hframes⟩
      rcases shows_cons_iff.mp h' with ⟨frame', frames', rfl, hframe', hframes'⟩
      rw [qualify, qualify, hframe, hframe']
      cases c with
      | nest n => exact ih hframes hframes' _
      | _ => exact ih hframes hframes' s

theorem Shows.recordsReturn_binds (h : stack.Shows b) (hb : ∀ c ∈ b, c.isBind) :
    stack.recordsReturn = b.isEmpty := by
  cases b with
  | nil =>
      rw [shows_nil_iff.mp h]
      rfl
  | cons c rest =>
      rcases shows_cons_iff.mp h with ⟨frame, frames, rfl, hframe, _⟩
      rw [List.forall_mem_cons] at hb
      rw [recordsReturn, hframe]
      cases c with
      | bind => rfl
      | _ => cases hb.1

theorem recordsReturn_abreast (h : stack.Shows (upper ++ b)) (h' : stack'.Shows (upper ++ b'))
    (hfoot : Footing traced b b') (htraced : traced) :
    stack.recordsReturn = stack'.recordsReturn := by
  cases upper with
  | nil =>
      rw [h.recordsReturn_binds hfoot.left, h'.recordsReturn_binds hfoot.right, Bool.eq_iff_iff,
        List.isEmpty_iff, List.isEmpty_iff]
      exact hfoot.even htraced
  | cons c rest =>
      rcases shows_cons_iff.mp h with ⟨frame, frames, rfl, hframe, _⟩
      rcases shows_cons_iff.mp h' with ⟨frame', frames', rfl, hframe', _⟩
      rw [recordsReturn, recordsReturn, hframe, hframe']

end Stack

/-!
## Running processes
-/

/-- Two running processes have the same computation under control in the same environment, and the
same contexts above what they have at the bottom of their stacks.  If they are traced, then their
traces have the same layers. -/
structure Running.Abreast (traced : Prop) (b b' upper : List Context) (r r' : Running) :
    Prop where
  control : r.control = r'.control
  env : r.env = r'.env
  left : r.stack.Shows (upper ++ b)
  right : r'.stack.Shows (upper ++ b')
  layers : traced -> r.layers = r'.layers

inductive Computation.Hands (env : Environment) : Computation -> Prop where
  | ret {u v : Value} (hu : u.resolve env = .ok v) : Computation.Hands env (.ret u)
  | returned (v : Value) : Computation.Hands env (.returned v)

structure Attempt.Abreast (traced : Prop) (b b' : List Context) (a a' : Attempt) : Prop where
  outcome : a.outcome = a'.outcome
  store : a.store = a'.store
  running : (∀ f, a.outcome ≠ .failed f) ->
    ∃ upper, a.running.Abreast traced b b' upper a'.running

theorem Running.recordReturn_control (r : Running) (v : Value) :
    (r.recordReturn v).control = r.control := by
  unfold Running.recordReturn
  split
  · rfl
  · rfl

theorem Running.recordReturn_env (r : Running) (v : Value) :
    (r.recordReturn v).env = r.env := by
  unfold Running.recordReturn
  split
  · rfl
  · rfl

section Operations

variable {traced : Prop} {b b' upper : List Context} {c : Context} {r r' : Running}

namespace Running.Abreast

theorem withControl (h : r.Abreast traced b b' upper r') (e : Computation) :
    Running.Abreast traced b b' upper { r with control := e } { r' with control := e } :=
  { h with control := rfl }

theorem withEnv (h : r.Abreast traced b b' upper r') (env : Environment) :
    Running.Abreast traced b b' upper { r with env } { r' with env } :=
  { h with env := rfl }

theorem returning (h : r.Abreast traced b b' upper r') (v : Value) :
    (r.returning v).Abreast traced b b' upper (r'.returning v) :=
  h.withControl (.returned v)

theorem push (h : r.Abreast traced b b' upper r') (c : Context) (e : Computation) :
    (r.push c e).Abreast traced b b' (c :: upper) (r'.push c e) where
  control := rfl
  env := h.env
  left := Stack.shows_cons_iff.mpr ⟨_, _, rfl, rfl, h.left⟩
  right := Stack.shows_cons_iff.mpr ⟨_, _, rfl, rfl, h.right⟩
  layers := by
    intro htraced
    have hlayers := h.layers htraced
    cases c with
    | nest s => exact congrArg (List.cons []) hlayers
    | _ =>
        show r.stack.layers (r.trace ++ []) = r'.stack.layers (r'.trace ++ [])
        rw [List.append_nil, List.append_nil]
        exact hlayers

theorem record (h : r.Abreast traced b b' upper r') (entry : Trace) :
    (r.record entry).Abreast traced b b' upper (r'.record entry) where
  control := h.control
  env := h.env
  left := h.left
  right := h.right
  layers := by
    intro htraced
    show r.stack.layers (r.trace ++ [entry]) = r'.stack.layers (r'.trace ++ [entry])
    rw [Stack.layers_concat, Stack.layers_concat]
    exact congrArg _ (h.layers htraced)

theorem recordReturn (h : r.Abreast traced b b' upper r') (hfoot : Footing traced b b')
    (v : Value) : (r.recordReturn v).Abreast traced b b' upper (r'.recordReturn v) where
  control := by rw [recordReturn_control, recordReturn_control, h.control]
  env := by rw [recordReturn_env, recordReturn_env, h.env]
  left := by
    rw [recordReturn_stack]
    exact h.left
  right := by
    rw [recordReturn_stack]
    exact h.right
  layers := by
    intro htraced
    unfold Running.recordReturn
    rw [Stack.recordsReturn_abreast h.left h.right hfoot htraced]
    split
    · exact (h.record (.ret v)).layers htraced
    · exact h.layers htraced

theorem exists_frames (h : r.Abreast traced b b' (c :: upper) r') :
    ∃ (frame frame' : Frame) (rest rest' : Stack), r.stack = frame :: rest ∧
      r'.stack = frame' :: rest' ∧ frame.context = .ok c ∧ frame'.context = .ok c := by
  rcases Stack.shows_cons_iff.mp h.left with ⟨frame, rest, hstack, hframe, _⟩
  rcases Stack.shows_cons_iff.mp h.right with ⟨frame', rest', hstack', hframe', _⟩
  exact ⟨frame, frame', rest, rest', hstack, hstack', hframe, hframe'⟩

theorem shows_rest (h : r.Abreast traced b b' (c :: upper) r') {frame frame' : Frame}
    {rest rest' : Stack} (hstack : r.stack = frame :: rest)
    (hstack' : r'.stack = frame' :: rest') :
    rest.Shows (upper ++ b) ∧ rest'.Shows (upper ++ b') := by
  have hleft := h.left
  have hright := h.right
  rw [hstack] at hleft
  rw [hstack'] at hright
  exact ⟨(List.cons.inj hleft).2, (List.cons.inj hright).2⟩

theorem resume (h : r.Abreast traced b b' (c :: upper) r') {frame frame' : Frame}
    {rest rest' : Stack} (hstack : r.stack = frame :: rest) (hstack' : r'.stack = frame' :: rest')
    (hframe : frame.context = .ok c) (hframe' : frame'.context = .ok c)
    (hother : c.isNest = false) (env : Environment) (e : Computation) :
    (Running.resume { r with stack := rest } frame env e).Abreast traced b b' upper
      (Running.resume { r' with stack := rest' } frame' env e) where
  control := rfl
  env := rfl
  left := (h.shows_rest hstack hstack').1
  right := (h.shows_rest hstack hstack').2
  layers := by
    intro htraced
    have hlayers := h.layers htraced
    rw [Running.layers, Running.layers, hstack, hstack', Stack.layers_other hframe hother,
      Stack.layers_other hframe' hother] at hlayers
    exact hlayers

theorem leave {s : Symbol} (h : r.Abreast traced b b' (.nest s :: upper) r')
    {frame frame' : Frame} {rest rest' : Stack} (hstack : r.stack = frame :: rest)
    (hstack' : r'.stack = frame' :: rest') (hframe : frame.context = .ok (.nest s))
    (hframe' : frame'.context = .ok (.nest s)) :
    Running.Abreast traced b b' upper
      { r with stack := rest, trace := frame.trace ++ [.nest s r.trace] }
      { r' with stack := rest', trace := frame'.trace ++ [.nest s r'.trace] } where
  control := h.control
  env := h.env
  left := (h.shows_rest hstack hstack').1
  right := (h.shows_rest hstack hstack').2
  layers := by
    intro htraced
    have hlayers := h.layers htraced
    rw [Running.layers, Running.layers, hstack, hstack', Stack.layers_nest hframe,
      Stack.layers_nest hframe'] at hlayers
    rcases List.cons.inj hlayers with ⟨htrace, houter⟩
    show Stack.layers rest (frame.trace ++ [.nest s r.trace]) =
      Stack.layers rest' (frame'.trace ++ [.nest s r'.trace])
    rw [Stack.layers_concat, Stack.layers_concat, htrace, houter]

end Running.Abreast

/-!
## Endings of a step
-/

namespace Attempt.Abreast

variable {α : Type} {store : Store}

theorem moved (h : r.Abreast traced b b' upper r') :
    (Attempt.moved store r).Abreast traced b b' (Attempt.moved store r') :=
  ⟨rfl, rfl, fun _ => ⟨upper, h⟩⟩

theorem signal (h : r.Abreast traced b b' upper r') (s : Signal) :
    Attempt.Abreast traced b b' ⟨.signal s, store, r⟩ ⟨.signal s, store, r'⟩ :=
  ⟨rfl, rfl, fun _ => ⟨upper, h⟩⟩

theorem failed (f : Failure) (r r' : Running) :
    Attempt.Abreast traced b b' ⟨.failed f, store, r⟩ ⟨.failed f, store, r'⟩ :=
  ⟨rfl, rfl, fun h => absurd rfl (h f)⟩

theorem proceed {result : Except Failure α} {next next' : α -> Attempt}
    (hnext : ∀ x, result = .ok x -> (next x).Abreast traced b b' (next' x)) :
    (Attempt.proceed store r result next).Abreast traced b b'
      (Attempt.proceed store r' result next') := by
  cases result with
  | ok x => exact hnext x rfl
  | error f => exact failed f r r'

theorem ask {part : Except Lack α} {next next' : α -> Attempt}
    (hnext : ∀ x, (next x).Abreast traced b b' (next' x)) :
    (Attempt.ask store r part next).Abreast traced b b' (Attempt.ask store r' part next') :=
  proceed fun x _ => hnext x

theorem seek {s : Symbol} {next next' : Symbol -> Attempt}
    (hnext : ∀ x, (next x).Abreast traced b b' (next' x)) :
    (Attempt.seek store r s next).Abreast traced b b' (Attempt.seek store r' s next') :=
  proceed fun x _ => hnext x

end Attempt.Abreast

/-!
## Steps
-/

namespace Running.Abreast

open Attempt.Abreast (moved signal failed proceed ask seek)

variable {store : Store}

theorem deliver (h : r.Abreast traced b b' (c :: upper) r') (v : Value) :
    (Running.deliver store r v).Abreast traced b b' (Running.deliver store r' v) := by
  rcases h.exists_frames with ⟨frame, frame', rest, rest', hstack, hstack', hframe, hframe'⟩
  unfold Running.deliver
  rw [hstack, hstack']
  simp only [hframe, hframe', Attempt.ask_ok]
  cases c with
  | nest s => exact moved (h.leave hstack hstack' hframe hframe')
  | bind env p body =>
      apply proceed
      intro env' _
      exact moved (h.resume hstack hstack' hframe hframe' rfl env' body)
  | bindBox env p body =>
      dsimp only
      split
      next x =>
        apply ask
        intro env'
        exact moved (h.resume hstack hstack' hframe hframe' rfl env' body)
      next => exact moved (h.resume hstack hstack' hframe hframe' rfl env body)
      next => exact failed _ _ _
  | argument w | label w | stray o => exact failed _ _ _

theorem deliver_nil (h : r.Abreast traced [] [] [] r') (v : Value) :
    (Running.deliver store r v).Abreast traced [] [] (Running.deliver store r' v) := by
  unfold Running.deliver
  rw [Stack.shows_nil_iff.mp h.left, Stack.shows_nil_iff.mp h.right]
  exact signal h (.halt v)

theorem enter_binds (h : r.stack.Shows b) (hb : ∀ c ∈ b, c.isBind) (p : Pattern)
    (e : Computation) : ∃ q, Running.enter store r p e = Attempt.fault store q .noStep := by
  -- There are only bindings on the stack, and no argument.
  unfold Running.enter
  rcases h.nil_or_bind hb with hstack | ⟨frame, rest, env, q, body, hstack, hframe⟩
  · rw [hstack]
    exact ⟨r, rfl⟩
  · rw [hstack]
    simp only [hframe, Attempt.ask_ok]
    exact ⟨_, rfl⟩

theorem enter (h : r.Abreast traced b b' upper r') (hfoot : Footing traced b b') (p : Pattern)
    (e : Computation) :
    (Running.enter store r p e).Abreast traced b b' (Running.enter store r' p e) := by
  cases upper with
  | nil =>
      rcases @enter_binds b r store h.left hfoot.left p e with ⟨q, hq⟩
      rcases @enter_binds b' r' store h.right hfoot.right p e with ⟨q', hq'⟩
      rw [hq, hq']
      exact failed _ q q'
  | cons c rest =>
      rcases h.exists_frames with ⟨frame, frame', frames, frames', hstack, hstack', hframe, hframe'⟩
      unfold Running.enter
      rw [hstack, hstack']
      simp only [hframe, hframe', Attempt.ask_ok]
      cases c with
      | argument v =>
          dsimp only
          rw [h.env]
          apply proceed
          intro env _
          exact moved (h.resume hstack hstack' hframe hframe' rfl env e)
      | _ => exact failed _ _ _

theorem choose_binds (h : r.stack.Shows b) (hb : ∀ c ∈ b, c.isBind) (bs : Branches) :
    ∃ q, Running.choose store r bs = Attempt.fault store q .noStep := by
  unfold Running.choose
  rcases h.nil_or_bind hb with hstack | ⟨frame, rest, env, q, body, hstack, hframe⟩
  · rw [hstack]
    exact ⟨r, rfl⟩
  · rw [hstack]
    simp only [hframe, Attempt.ask_ok]
    exact ⟨_, rfl⟩

theorem choose (h : r.Abreast traced b b' upper r') (hfoot : Footing traced b b')
    (bs : Branches) :
    (Running.choose store r bs).Abreast traced b b' (Running.choose store r' bs) := by
  cases upper with
  | nil =>
      rcases @choose_binds b r store h.left hfoot.left bs with ⟨q, hq⟩
      rcases @choose_binds b' r' store h.right hfoot.right bs with ⟨q', hq'⟩
      rw [hq, hq']
      exact failed _ q q'
  | cons c rest =>
      rcases h.exists_frames with ⟨frame, frame', frames, frames', hstack, hstack', hframe, hframe'⟩
      unfold Running.choose
      rw [hstack, hstack']
      simp only [hframe, hframe', Attempt.ask_ok]
      cases c with
      | label v =>
          dsimp only
          apply proceed
          intro s _
          rw [h.env]
          apply proceed
          intro part _
          apply ask
          intro body
          exact moved (h.resume hstack hstack' hframe hframe' rfl r'.env body)
      | _ => exact failed _ _ _

/-- Two processes that go abreast do the same, unless a value gets down to where their stacks
differ. -/
theorem reduce (h : r.Abreast traced b b' upper r') (hfoot : Footing traced b b')
    {e : Computation} (hdeep : upper = [] -> e.Hands r'.env -> b = [] ∧ b' = []) :
    (Running.reduce store r e).Abreast traced b b' (Running.reduce store r' e) := by
  have hdeliver (he : e.Hands r'.env) {q q' : Running} (v : Value)
      (hq : q.Abreast traced b b' upper q') :
      (Running.deliver store q v).Abreast traced b b' (Running.deliver store q' v) := by
    cases upper with
    | nil =>
        rcases hdeep rfl he with ⟨rfl, rfl⟩
        exact hq.deliver_nil v
    | cons c rest => exact hq.deliver v
  have henv := h.env
  cases e with
  | ret v =>
      simp only [Running.reduce, henv, h.left.checkTop, h.right.checkTop, Attempt.ask_ok]
      apply proceed
      intro w hw
      exact hdeliver (.ret hw) w ((h.recordReturn hfoot w).returning w)
  | returned v => exact hdeliver (.returned v) v h
  | nest v body =>
      simp only [Running.reduce, henv]
      apply proceed
      intro s _
      exact moved (h.push (.nest s) body)
  | spawn v body =>
      simp only [Running.reduce, henv, h.left.check, h.right.check, Attempt.ask_ok]
      apply proceed
      intro s _
      rw [Stack.qualify_abreast h.left h.right hfoot s]
      apply seek
      intro name
      split
      · exact failed _ _ _
      · exact signal (h.returning (.process name)) _
  | bind p e₁ e₂ =>
      simp only [Running.reduce, henv]
      exact moved (h.push (.bind r'.env p e₂) e₁)
  | bindBox p e₁ e₂ =>
      have hpush := h.push (.bindBox r'.env p e₂) e₁
      cases p with
      | «variable» x | ignore =>
          simp only [Running.reduce, henv]
          exact moved hpush
      | _ => exact failed _ _ _
  | extract v =>
      cases v with
      | «variable» x =>
          simp only [Running.reduce, henv]
          apply ask
          intro boxes
          cases boxes.get? x with
          | none => exact failed _ _ _
          | some box =>
              apply ask
              intro unpacked
              exact moved ((h.withControl unpacked.1).withEnv unpacked.2)
      | _ => exact failed _ _ _
  | lambda p body => exact h.enter hfoot p body
  | branches bs => exact h.choose hfoot bs
  | apply e v =>
      simp only [Running.reduce, henv]
      apply proceed
      intro w _
      exact moved (h.push (.argument w) e)
  | project e v =>
      simp only [Running.reduce, henv]
      apply proceed
      intro w _
      exact moved (h.push (.label w) e)
  | put n v =>
      simp only [Running.reduce, henv, h.left.check, h.right.check, Attempt.ask_ok]
      apply proceed
      intro s _
      apply proceed
      intro w _
      rw [Stack.qualify_abreast h.left h.right hfoot s]
      apply seek
      intro name
      exact moved ((h.record _).returning (.pointer name))
  | get v =>
      simp only [Running.reduce, henv]
      apply proceed
      intro s _
      apply seek
      intro s
      cases store.get? s with
      | none => exact failed _ _ _
      | some stored => exact moved ((h.record (.get s stored)).returning stored)
  | switch v cs =>
      simp only [Running.reduce, henv]
      apply proceed
      intro w _
      cases w with
      | variant l payload =>
          apply proceed
          intro s _
          apply proceed
          intro part _
          apply proceed
          intro env _
          apply ask
          intro body
          exact moved ((h.withEnv env).withControl body)
      | _ => exact failed _ _ _
  | link v =>
      simp only [Running.reduce, henv]
      apply proceed
      intro w _
      cases w with
      | symbol s =>
          apply seek
          intro s
          split
          · exact moved ((h.record (.link (.symbol s) (.pointer s))).returning (.pointer s))
          · exact signal ((h.withEnv r'.env).withControl (.link (.symbol s))) (.awaitEntry s)
      | process s => exact signal h (.awaitHalt s)
      | _ => exact failed _ _ _
  | assert x equal y =>
      simp only [Running.reduce, henv, h.left.checkTop, h.right.checkTop, Attempt.ask_ok]
      apply proceed
      intro x' _
      apply proceed
      intro y' _
      split
      · exact moved ((h.recordReturn hfoot .unit).returning .unit)
      · exact failed _ _ _
  | hole | stray o => exact failed _ _ _

theorem step (h : r.Abreast traced b b' upper r') (hfoot : Footing traced b b')
    (hdeep : upper = [] -> r.control.Hands r.env -> b = [] ∧ b' = []) :
    (r.step store).Abreast traced b b' (r'.step store) := by
  unfold Running.step
  rw [h.control, h.env] at hdeep
  rw [h.control]
  apply proceed
  intro head _
  exact (h.withControl head).reduce hfoot hdeep

end Running.Abreast

end Operations

/-!
## Stages
-/

/-- Stages of two processes that go abreast.  Of two that failed only the faults agree, and two that
go down to different bottoms of their stacks do not halt. -/
inductive Stage.Abreast (traced : Prop) (b b' : List Context) : Stage -> Stage -> Prop where
  | running {upper : List Context} {r r' : Running} (h : r.Abreast traced b b' upper r') :
      Abreast traced b b' (.running r) (.running r')
  | awaitingEntry {upper : List Context} {r r' : Running} (h : r.Abreast traced b b' upper r')
      (s : Symbol) : Abreast traced b b' (.awaitingEntry r s) (.awaitingEntry r' s)
  | awaitingHalt {upper : List Context} {r r' : Running} (h : r.Abreast traced b b' upper r')
      (s : Symbol) : Abreast traced b b' (.awaitingHalt r s) (.awaitingHalt r' s)
  | failed (r r' : Running) (f : Fault) : Abreast traced b b' (.failed r f) (.failed r' f)
  | halted (hbottom : b = [] ∧ b' = []) (v : Value) {ts ts' : List Trace}
      (htrace : traced -> ts = ts') : Abreast traced b b' (.halted v ts) (.halted v ts')

def Processes.Abreast (traced : Prop) (b b' : List Context) (table table' : Processes) : Prop :=
  ∀ name, Option.Rel (Stage.Abreast traced b b') (table.get? name) (table'.get? name)

section Visits

variable {traced : Prop} {b b' : List Context} {table table' : Processes} {store : Store}
  {p p' : Stage} {a a' : Attempt}

theorem Processes.Abreast.contains (h : table.Abreast traced b b' table') (name : Symbol) :
    table.contains name = table'.contains name := by
  have hname := h name
  unfold Table.contains
  generalize table.get? name = found, table'.get? name = found' at hname ⊢
  cases hname with
  | none => rfl
  | some _ => rfl

/-- Two processes that go abreast and halt have nothing at the bottom of their stacks. -/
theorem Attempt.Abreast.halted (h : a.Abreast traced b b' a') {v : Value}
    (houtcome : a.outcome = .signal (.halt v)) (hstack : a.running.stack = [])
    (hstack' : a'.running.stack = []) :
    Stage.Abreast traced b b' (.halted v a.running.trace) (.halted v a'.running.trace) := by
  rcases h.running (by rw [houtcome]; intro f hf; cases hf) with ⟨upper, hrunning⟩
  have hleft := hrunning.left
  have hright := hrunning.right
  rw [hstack] at hleft
  rw [hstack'] at hright
  apply Stage.Abreast.halted
  · have hnil : upper ++ b = [] := List.map_eq_nil_iff.mp hleft.symm
    have hnil' : upper ++ b' = [] := List.map_eq_nil_iff.mp hright.symm
    exact ⟨(List.append_eq_nil_iff.mp hnil).2, (List.append_eq_nil_iff.mp hnil').2⟩
  · intro htraced
    have hlayers := hrunning.layers htraced
    rw [Running.layers, Running.layers, hstack, hstack'] at hlayers
    exact (List.cons.inj hlayers).1

theorem Attempt.Abreast.advance (h : a.Abreast traced b b' a')
    (htable : table.Abreast traced b b' table')
    (hhalt : ∀ v, a.outcome = .signal (.halt v) -> a.running.stack = [] ∧ a'.running.stack = []) :
    Option.Rel (Stage.Abreast traced b b') (Stage.advance table a).next?
      (Stage.advance table' a').next? := by
  unfold Stage.advance
  rw [← h.outcome]
  cases houtcome : a.outcome with
  | moved =>
      rcases h.running (by rw [houtcome]; intro f hf; cases hf) with ⟨upper, hrunning⟩
      exact .some (.running hrunning)
  | signal s =>
      rcases h.running (by rw [houtcome]; intro f hf; cases hf) with ⟨upper, hrunning⟩
      cases s with
      | halt v =>
          rcases hhalt v houtcome with ⟨hstack, hstack'⟩
          exact .some (h.halted houtcome hstack hstack')
      | awaitEntry s => exact .some (.awaitingEntry hrunning s)
      | awaitHalt s => exact .some (.awaitingHalt hrunning s)
      | spawn name env body =>
          dsimp only
          rw [htable.contains name]
          split
          · exact .some (.failed _ _ _)
          · exact .some (.running hrunning)
  | failed f =>
      cases f with
      | fault f => exact .some (.failed _ _ f)
      | breakage b => exact .none

/-- A visit to two processes that go abreast, unless a value gets down to where their stacks
differ. -/
theorem Stage.Abreast.visit (h : p.Abreast traced b b' p') (hfoot : Footing traced b b')
    (htable : table.Abreast traced b b' table')
    (hdeep : ∀ r, p = .running r -> r.stack.Shows b -> r.control.Hands r.env ->
      b = [] ∧ b' = []) :
    (p.visit table store).store = (p'.visit table' store).store ∧
      Option.Rel (Stage.Abreast traced b b') (p.visit table store).outcome.next?
        (p'.visit table' store).outcome.next? := by
  cases h with
  | @running upper r r' hr =>
      have hstep : (r.step store).Abreast traced b b' (r'.step store) := by
        apply hr.step hfoot
        intro hupper hhands
        have hshows := hr.left
        rw [hupper] at hshows
        exact hdeep r rfl hshows hhands
      refine ⟨hstep.store, hstep.advance htable ?_⟩
      intro v houtcome
      refine ⟨(r.step_effect store).stack_of_halt houtcome, ?_⟩
      rw [hstep.outcome] at houtcome
      exact (r'.step_effect store).stack_of_halt houtcome
  | @awaitingEntry upper r r' hr s =>
      simp only [Stage.visit, Stage.seek]
      cases s.asKey with
      | error broken => exact ⟨rfl, .none⟩
      | ok s =>
          dsimp only
          split
          · exact ⟨rfl, .some (.running hr)⟩
          · exact ⟨rfl, .none⟩
  | @awaitingHalt upper r r' hr s =>
      simp only [Stage.visit, Stage.seek]
      cases s.asKey with
      | error broken => exact ⟨rfl, .none⟩
      | ok s =>
          dsimp only
          have hfound := htable s
          generalize table.get? s = found, table'.get? s = found' at hfound ⊢
          cases hfound with
          | none => exact ⟨rfl, .some (.failed _ _ _)⟩
          | some hq =>
              cases hq with
              | halted hbottom v htrace =>
                  exact ⟨rfl, .some (.running ((hr.record _).returning v))⟩
              | _ => exact ⟨rfl, .none⟩
  | failed r r' f => exact ⟨rfl, .none⟩
  | halted hbottom v htrace => exact ⟨rfl, .none⟩

end Visits

end PushValue
