import PushValue.Proofs.Screen.Resolve

/-!
# Steps under a screen

A step of a process that passes a screen leaves a store and a process that pass it,
provided that the screen lets the names through that the step makes.  A step that
fails leaves the head of its computation under control, with holes in it, and all the
rest passes.  Under a strict screen a step breaks at a hole and nowhere else.
-/

namespace PushValue

def Outcome.screen (S : Screen) : Outcome -> Screen
  | .failed _ => S.holed
  | .moved | .signal _ => S

structure Attempt.Passes (S : Screen) (a : Attempt) : Prop where
  store : a.store.all (Value.passes S)
  running : a.running.passes (a.outcome.screen S)
  signal : ∀ s, a.outcome = .signal s -> s.passes S
  failure : ∀ f, a.outcome = .failed f -> S.Tolerates f

/-- A screen lets the names through that a step makes: names inside nests, pointers to entries of
the store, and the handle of a spawned process. -/
structure Screen.Admits (S : Screen) (a : Attempt) : Prop where
  within : ∀ n s, S.symbol n -> S.symbol s -> S.symbol (.within n s)
  pointer : ∀ s, S.symbol s -> a.store.contains s -> S.pointer s
  process : ∀ name env body, a.outcome = .signal (.spawn name env body) -> S.symbol name ->
    S.process name

/-- A step that leaves only what passes, as far as the names that it makes do. -/
def Attempt.Respects (S : Screen) (a : Attempt) : Prop := S.Admits a -> a.Passes S

structure Running.Poised (S : Screen) (r : Running) : Prop where
  control : r.control.passesControl S.holed
  env : r.env.passes S
  stack : r.stack.all (Frame.passes S)
  trace : Trace.passesAll S r.trace

section Steps

variable {S : Screen} {store : Store} {r : Running}

/-!
## Endings
-/

theorem Running.Poised.passes_holed (hr : r.Poised S) : r.passes S.holed := by
  rw [Running.passes_iff]
  exact ⟨hr.control, Environment.passes_mono S.within_holed hr.env,
    Stack.passes_mono S.within_holed hr.stack, Trace.passesAll_mono S.within_holed _ hr.trace⟩

theorem Running.Poised.passes (hr : r.Poised S) (hcontrol : r.control.passesControl S) :
    r.passes S := by
  rw [Running.passes_iff]
  exact ⟨hcontrol, hr.env, hr.stack, hr.trace⟩

theorem Attempt.passes_failed {f : Failure} (hstore : store.all (Value.passes S))
    (hr : r.Poised S) (hf : S.Tolerates f) : Attempt.Passes S ⟨.failed f, store, r⟩ where
  store := hstore
  running := hr.passes_holed
  signal := by
    intro s hs
    cases hs
  failure := by
    intro g hg
    cases hg
    exact hf

theorem Attempt.passes_fault {f : Fault} (hstore : store.all (Value.passes S))
    (hr : r.Poised S) (hf : S.Tolerates (.fault f)) :
    Attempt.Passes S (Attempt.fault store r f) :=
  Attempt.passes_failed hstore hr hf

theorem Attempt.passes_moved (hstore : store.all (Value.passes S)) (hr : r.passes S) :
    Attempt.Passes S (Attempt.moved store r) where
  store := hstore
  running := hr
  signal := by
    intro s hs
    cases hs
  failure := by
    intro f hf
    cases hf

theorem Attempt.passes_signal {s : Signal} (hstore : store.all (Value.passes S))
    (hr : r.passes S) (hs : s.passes S) : Attempt.Passes S ⟨.signal s, store, r⟩ where
  store := hstore
  running := hr
  signal := by
    intro t ht
    cases ht
    exact hs
  failure := by
    intro f hf
    cases hf

/-!
## Changes of a process
-/

namespace Running

theorem Poised.pop {frame : Frame} {rest : Stack} (hr : r.Poised S)
    (hstack : r.stack = frame :: rest) : Running.Poised S { r with stack := rest } where
  control := hr.control
  env := hr.env
  stack := by
    have hall := hr.stack
    rw [hstack, List.all_cons, Bool.and_eq_true] at hall
    exact hall.2
  trace := hr.trace

theorem Poised.record {entry : Trace} (hr : r.Poised S) (hentry : entry.passes S) :
    (r.record entry).Poised S where
  control := hr.control
  env := hr.env
  stack := hr.stack
  trace := by
    show Trace.passesAll S (r.trace ++ [entry])
    rw [Trace.passesAll_append, hr.trace, Trace.passesAll, hentry]
    rfl

theorem Poised.recordReturn {v : Value} (hr : r.Poised S) (hv : v.passes S) :
    (r.recordReturn v).Poised S := by
  unfold Running.recordReturn
  split
  · exact hr.record hv
  · exact hr

theorem Poised.returning {v : Value} (hr : r.Poised S) (hv : v.passes S) :
    (r.returning v).Poised S where
  control := v.passes_mono S.within_holed hv
  env := hr.env
  stack := hr.stack
  trace := hr.trace

theorem Poised.passes_returning {v : Value} (hr : r.Poised S) (hv : v.passes S) :
    (r.returning v).passes S :=
  (hr.returning hv).passes hv

theorem Poised.rejoin {frame : Frame} (hr : r.Poised S) (hframe : frame.passes S) :
    (r.rejoin frame).Poised S where
  control := hr.control
  env := hr.env
  stack := hr.stack
  trace := by
    rcases Frame.exists_of_passes hframe with ⟨c, ts, rfl, _hc, hts⟩
    show Trace.passesAll S (ts ++ r.trace)
    rw [Trace.passesAll_append, hts, hr.trace]
    rfl

theorem Poised.passes_control {e : Computation} (hr : r.Poised S) (he : e.passes S) :
    Running.passes S { r with control := e } := by
  rw [Running.passes_iff]
  exact ⟨Computation.passesControl_of_passes he, hr.env, hr.stack, hr.trace⟩

theorem Poised.withEnv {env : Environment} (hr : r.Poised S) (henv : env.passes S) :
    Running.Poised S { r with env } :=
  ⟨hr.control, henv, hr.stack, hr.trace⟩

theorem Poised.passes_resume {frame : Frame} {env : Environment} {next : Computation}
    (hr : r.Poised S) (hframe : frame.passes S) (henv : env.passes S) (hnext : next.passes S) :
    (r.resume frame env next).passes S :=
  ((hr.rejoin hframe).withEnv henv).passes_control hnext

theorem Poised.passes_push {context : Context} {next : Computation} (hr : r.Poised S)
    (hcontext : context.passes S) (hnext : next.passes S) : (r.push context next).passes S := by
  rw [Running.passes_iff]
  refine ⟨Computation.passesControl_of_passes hnext, hr.env, ?_, rfl⟩
  show (Frame.mk context r.trace :: r.stack).all (Frame.passes S)
  rw [List.all_cons, hr.stack, Frame.passes, hcontext, hr.trace]
  rfl

theorem Poised.check_eq_ok (hr : r.Poised S) : r.stack.check = .ok () := by
  have hstack := hr.stack
  generalize r.stack = stack at hstack
  induction stack with
  | nil => rfl
  | cons frame rest ih =>
      rw [List.all_cons, Bool.and_eq_true] at hstack
      rcases Frame.exists_of_passes hstack.1 with ⟨c, ts, rfl, _hc, _hts⟩
      exact ih hstack.2

theorem Poised.checkTop_eq_ok (hr : r.Poised S) : r.stack.checkTop = .ok () := by
  have hstack := hr.stack
  cases hcase : r.stack with
  | nil => rfl
  | cons frame rest =>
      rw [hcase, List.all_cons, Bool.and_eq_true] at hstack
      rcases Frame.exists_of_passes hstack.1 with ⟨c, ts, rfl, _hc, _hts⟩
      rfl

end Running

theorem Stack.qualify_passes
    (hwithin : ∀ n s, S.symbol n -> S.symbol s -> S.symbol (.within n s)) :
    (stack : Stack) -> stack.all (Frame.passes S) -> (s : Symbol) -> S.symbol s ->
      S.symbol (stack.qualify s)
  | [], _, _, hs => hs
  | frame :: rest, hstack, s, hs => by
      rw [List.all_cons, Bool.and_eq_true] at hstack
      rcases Frame.exists_of_passes hstack.1 with ⟨c, ts, rfl, hc, _hts⟩
      cases c with
      | nest n => exact Stack.qualify_passes hwithin rest hstack.2 _ (hwithin n s hc hs)
      | _ => exact Stack.qualify_passes hwithin rest hstack.2 s hs

/-!
## Clauses

Each form of computation is checked against the contracts of the functions that its
clause calls.
-/

theorem Attempt.passes_proceed {α : Type} {holds : α -> Prop} {result : Except Failure α}
    {next : α -> Attempt} (hstore : store.all (Value.passes S)) (hr : r.Poised S)
    (hresult : Meets S.Tolerates holds result)
    (hnext : ∀ a, holds a -> Attempt.Passes S (next a)) :
    Attempt.Passes S (Attempt.proceed store r result next) :=
  Attempt.proceed_of_meets hresult (fun _ hf => Attempt.passes_failed hstore hr hf) hnext

theorem Attempt.respects_proceed {α : Type} {holds : α -> Prop} {result : Except Failure α}
    {next : α -> Attempt} (hstore : store.all (Value.passes S)) (hr : r.Poised S)
    (hresult : Meets S.Tolerates holds result)
    (hnext : ∀ a, holds a -> Attempt.Respects S (next a)) :
    Attempt.Respects S (Attempt.proceed store r result next) :=
  Attempt.proceed_of_meets hresult (fun _ hf _ => Attempt.passes_failed hstore hr hf) hnext

theorem Symbol.asKey_meets {s : Symbol} (hs : S.Strict -> s.isProper) :
    Meets S.Tolerates (fun t => t = s) (Failure.ofBreakage s.asKey) := by
  unfold Symbol.asKey
  cases hkey : s.toObject.unfitForKey? with
  | none => rfl
  | some k =>
      apply Meets.error
      intro strict
      rw [Symbol.unfitForKey?_toObject (hs strict)] at hkey
      cases hkey

namespace Running

theorem Poised.frame_passes {frame : Frame} {rest : Stack} (hr : r.Poised S)
    (hstack : r.stack = frame :: rest) : frame.passes S := by
  have hall := hr.stack
  rw [hstack, List.all_cons, Bool.and_eq_true] at hall
  exact hall.1

theorem deliver_passes {v : Value} (hstore : store.all (Value.passes S)) (hr : r.Poised S)
    (hcontrol : r.control = .returned v) (hv : v.passes S) :
    Attempt.Passes S (r.deliver store v) := by
  have hmarker : r.control.passesControl S := by
    rw [hcontrol]
    exact hv
  unfold deliver
  split
  next hstack => exact Attempt.passes_signal hstore (hr.passes hmarker) hv
  next frame rest hstack =>
    have hpop := hr.pop hstack
    have hframe := hr.frame_passes hstack
    rcases Frame.exists_of_passes hframe with ⟨c, ts, rfl, hc, hts⟩
    cases c with
    | nest s =>
        apply Attempt.passes_moved hstore
        rw [Running.passes_iff]
        refine ⟨hmarker, hpop.env, hpop.stack, ?_⟩
        show Trace.passesAll S (ts ++ [.nest s r.trace])
        rw [Trace.passesAll_append, hts, Trace.passesAll, Trace.passes, hr.trace]
        rfl
    | bind env p body =>
        simp only [Context.passes, Bool.and_eq_true] at hc
        apply Attempt.passes_proceed hstore hpop (p.bind_meets hc.1.2 v hv env hc.1.1)
        intro env' henv'
        exact Attempt.passes_moved hstore (hpop.passes_resume hframe henv' hc.2)
    | bindBox env p body =>
        simp only [Context.passes, Bool.and_eq_true] at hc
        simp only [Frame.context, Attempt.ask_ok]
        split
        · rcases Environment.exists_of_passes hc.1.1 with ⟨vs, bs, rfl, hvs, hbs⟩
          apply Attempt.passes_moved hstore (hpop.passes_resume hframe _ hc.2)
          simp only [Environment.passes, Bool.and_eq_true]
          exact ⟨hvs, Boxes.passes_insert hv bs hbs⟩
        · exact Attempt.passes_moved hstore (hpop.passes_resume hframe hc.1.1 hc.2)
        · exact Attempt.passes_fault hstore hpop trivial
    | argument w | label w => exact Attempt.passes_fault hstore hpop trivial
    | stray o => cases hc

theorem enter_passes {p : Pattern} {body : Computation} (hstore : store.all (Value.passes S))
    (hr : r.Poised S) (hp : p.passes S) (hbody : body.passes S) :
    Attempt.Passes S (r.enter store p body) := by
  unfold enter
  split
  next hstack => exact Attempt.passes_fault hstore hr trivial
  next frame rest hstack =>
    have hpop := hr.pop hstack
    have hframe := hr.frame_passes hstack
    rcases Frame.exists_of_passes hframe with ⟨c, ts, rfl, hc, hts⟩
    cases c with
    | argument v =>
        apply Attempt.passes_proceed hstore hpop (p.bind_meets hp v hc r.env hr.env)
        intro env' henv'
        exact Attempt.passes_moved hstore (hpop.passes_resume hframe henv' hbody)
    | stray o => cases hc
    | _ => exact Attempt.passes_fault hstore hpop trivial

theorem choose_passes {bs : Branches} (hstore : store.all (Value.passes S))
    (hr : r.Poised S) (hbs : bs.passes S) : Attempt.Passes S (r.choose store bs) := by
  unfold choose
  split
  next hstack => exact Attempt.passes_fault hstore hr trivial
  next frame rest hstack =>
    have hpop := hr.pop hstack
    have hframe := hr.frame_passes hstack
    rcases Frame.exists_of_passes hframe with ⟨c, ts, rfl, hc, hts⟩
    cases c with
    | label v =>
        apply Attempt.passes_proceed hstore hpop (Value.toSymbol_meets hc)
        intro s _hs
        apply Attempt.passes_proceed hstore hpop (bs.select_meets hr.env s hbs)
        intro part hpart
        have hbody := Part.body_meets (hpart.1.imp_right .inr) hpart.2
        have hjoined := hpop.rejoin hframe
        apply Attempt.passes_proceed hstore hjoined hbody.asked
        intro body hbody
        exact Attempt.passes_moved hstore (hjoined.passes_control hbody)
    | stray o => cases hc
    | _ => exact Attempt.passes_fault hstore hpop trivial

theorem extract_passes {v : Value} (hstore : store.all (Value.passes S)) (hr : r.Poised S) :
    Attempt.Passes S (r.reduce store (.extract v)) := by
  cases v with
  | «variable» x =>
      rcases Environment.exists_of_passes hr.env with ⟨vs, bs, henv, _hvs, hbs⟩
      simp only [reduce, henv, Environment.boxes, Attempt.ask_ok]
      cases hget : bs.get? x with
      | none => exact Attempt.passes_fault hstore hr trivial
      | some b =>
          have hb := Boxes.passes_get? bs hbs hget
          cases b with
          | mk code self captured =>
              have hmk := hb
              simp only [Box.passes, Bool.and_eq_true] at hb
              have hscope : (Box.scope code self captured).passes S := by
                cases self with
                | none => exact hb.2
                | some y =>
                    simp only [Box.scope, Environment.passes, Bool.and_eq_true]
                    exact ⟨Table.all_insert y rfl hmk, hb.2⟩
              exact Attempt.passes_moved hstore ((hr.withEnv hscope).passes_control hb.1)
          | stray o =>
              exact Attempt.passes_failed hstore hr (S.tolerates_of_stray hb _)
  | _ => exact Attempt.passes_fault hstore hr trivial

theorem put_passes {n v : Value} (hstore : store.all (Value.passes S)) (hr : r.Poised S)
    (hn : n.passes S) (hv : v.passes S) : Attempt.Respects S (r.reduce store (.put n v)) := by
  apply Attempt.respects_proceed hstore hr (Value.resolveSymbol_meets hr.env hn)
  intro s hs
  apply Attempt.respects_proceed hstore hr (v.resolve_meets hr.env hv)
  intro w hw
  rw [hr.check_eq_ok, Attempt.ask_ok]
  intro hadmits
  have hname := Stack.qualify_passes hadmits.within r.stack hr.stack s hs
  have hentry : Trace.passes S (.put (r.stack.qualify s) w) := hw
  have hrecord := hr.record hentry
  revert hadmits
  apply Attempt.respects_proceed hstore hrecord
    (Symbol.asKey_meets fun strict => strict.symbol _ hname)
  rintro name rfl hadmits
  have hcontains : (store.insert (r.stack.qualify s) w).contains (r.stack.qualify s) := by
    rw [Table.contains_insert, decide_eq_true rfl, Bool.true_or]
  have hpointer := hadmits.pointer _ hname hcontains
  exact Attempt.passes_moved (Table.all_insert _ hstore hw) (hrecord.passes_returning hpointer)

theorem spawn_passes {v : Value} {body : Computation} (hstore : store.all (Value.passes S))
    (hr : r.Poised S) (hv : v.passes S) (hbody : body.passes S) :
    Attempt.Respects S (r.reduce store (.spawn v body)) := by
  apply Attempt.respects_proceed hstore hr (Value.resolveSymbol_meets hr.env hv)
  intro s hs
  rw [hr.check_eq_ok, Attempt.ask_ok]
  intro hadmits
  have hname := Stack.qualify_passes hadmits.within r.stack hr.stack s hs
  revert hadmits
  apply Attempt.respects_proceed hstore hr (Symbol.asKey_meets fun strict => strict.symbol _ hname)
  rintro name rfl
  split
  · intro _
    exact Attempt.passes_fault hstore hr trivial
  · intro hadmits
    have hprocess : Value.passes S (.process (r.stack.qualify s)) :=
      hadmits.process _ _ _ rfl hname
    apply Attempt.passes_signal hstore (hr.passes_returning hprocess)
    simp only [Signal.passes, Bool.and_eq_true]
    exact ⟨⟨hname, hr.env⟩, hbody⟩

theorem link_passes {v : Value} (hstore : store.all (Value.passes S)) (hr : r.Poised S)
    (hcontrol : r.control = .link v) (hv : v.passes S) :
    Attempt.Respects S (r.reduce store (.link v)) := by
  apply Attempt.respects_proceed hstore hr (v.resolve_meets hr.env hv)
  intro w hw
  cases w with
  | symbol s =>
      apply Attempt.respects_proceed hstore hr
        (Symbol.asKey_meets fun strict => strict.symbol s hw)
      rintro t rfl
      split
      next hcontains =>
        intro hadmits
        have hpointer := hadmits.pointer t hw hcontains
        have hentry : Trace.passes S (.link (.symbol t) (.pointer t)) := by
          simp only [Trace.passes, Bool.and_eq_true]
          exact ⟨hw, hpointer⟩
        exact Attempt.passes_moved hstore ((hr.record hentry).passes_returning hpointer)
      next =>
        intro _
        exact Attempt.passes_signal hstore (hr.passes_control hw) hw
  | process s =>
      intro _
      have hlink : r.control.passesControl S := by
        rw [hcontrol]
        exact hv
      exact Attempt.passes_signal hstore (hr.passes hlink) hw
  | _ =>
      intro _
      exact Attempt.passes_fault hstore hr trivial

theorem switch_passes {v : Value} {cs : Cases} (hstore : store.all (Value.passes S))
    (hr : r.Poised S) (hv : v.passes S) (hcs : cs.passes S) :
    Attempt.Passes S (r.reduce store (.switch v cs)) := by
  apply Attempt.passes_proceed hstore hr (v.resolve_meets hr.env hv)
  intro w hw
  cases w with
  | variant l payload =>
      simp only [Value.passes, Bool.and_eq_true] at hw
      apply Attempt.passes_proceed hstore hr (Value.toSymbol_meets hw.1)
      intro s _hs
      apply Attempt.passes_proceed hstore hr (cs.select_meets hr.env s hcs)
      intro part hpart
      apply Attempt.passes_proceed hstore hr
        (part.bind_meets hpart.1 hpart.2 payload hw.2 r.env hr.env)
      intro env' henv'
      have hbody := Part.body_meets (hpart.1.imp_right .inl) hpart.2
      apply Attempt.passes_proceed hstore (hr.withEnv henv') hbody.asked
      intro body hbody
      exact Attempt.passes_moved hstore ((hr.withEnv henv').passes_control hbody)
  | _ => exact Attempt.passes_fault hstore hr trivial

theorem assert_passes {a b : Value} {equal : Bool} (hstore : store.all (Value.passes S))
    (hr : r.Poised S) (ha : a.passes S) (hb : b.passes S) :
    Attempt.Passes S (r.reduce store (.assert a equal b)) := by
  apply Attempt.passes_proceed hstore hr (a.resolve_meets hr.env ha)
  intro a' _ha
  apply Attempt.passes_proceed hstore hr (b.resolve_meets hr.env hb)
  intro b' _hb
  split
  · rw [hr.checkTop_eq_ok, Attempt.ask_ok]
    exact Attempt.passes_moved hstore ((hr.recordReturn rfl).passes_returning rfl)
  · exact Attempt.passes_fault hstore hr trivial

theorem get_passes {v : Value} (hstore : store.all (Value.passes S)) (hr : r.Poised S)
    (hv : v.passes S) : Attempt.Passes S (r.reduce store (.get v)) := by
  apply Attempt.passes_proceed hstore hr (Value.resolvePointer_meets hr.env hv)
  intro s hs
  apply Attempt.passes_proceed hstore hr (Symbol.asKey_meets fun strict => strict.pointer s hs)
  rintro t rfl
  cases hget : store.get? t with
  | none => exact Attempt.passes_fault hstore hr trivial
  | some stored =>
      have hstored := Table.all_iff.mp hstore t stored hget
      have hentry : Trace.passes S (.get t stored) := hstored
      exact Attempt.passes_moved hstore ((hr.record hentry).passes_returning hstored)

theorem reduce_passes {e : Computation} (hstore : store.all (Value.passes S)) (hr : r.Poised S)
    (he : e.passesControl S) (hhead : e.head = .ok r.control) (hhole : e = .hole -> ¬ S.Strict) :
    Attempt.Respects S (r.reduce store e) := by
  cases e with
  | ret v =>
      intro _
      apply Attempt.passes_proceed hstore hr (v.resolve_meets hr.env he)
      intro w hw
      rw [hr.checkTop_eq_ok, Attempt.ask_ok]
      exact deliver_passes hstore ((hr.recordReturn hw).returning hw) rfl hw
  | returned v =>
      intro _
      exact deliver_passes hstore hr (Except.ok.inj hhead).symm he
  | nest v body =>
      intro _
      simp only [Computation.passesControl, Computation.passes, Bool.and_eq_true] at he
      apply Attempt.passes_proceed hstore hr (Value.resolveSymbol_meets hr.env he.1)
      intro s hs
      exact Attempt.passes_moved hstore (hr.passes_push hs he.2)
  | spawn v body =>
      simp only [Computation.passesControl, Computation.passes, Bool.and_eq_true] at he
      exact spawn_passes hstore hr he.1.2 he.2
  | bind p e₁ e₂ =>
      intro _
      simp only [Computation.passesControl, Computation.passes, Bool.and_eq_true] at he
      apply Attempt.passes_moved hstore (hr.passes_push _ he.1.2)
      simp only [Context.passes, Bool.and_eq_true]
      exact ⟨⟨hr.env, he.1.1⟩, he.2⟩
  | bindBox p e₁ e₂ =>
      intro _
      simp only [Computation.passesControl, Computation.passes, Bool.and_eq_true] at he
      have hcontext : Context.passes S (.bindBox r.env p e₂) := by
        simp only [Context.passes, Bool.and_eq_true]
        exact ⟨⟨hr.env, he.1.1⟩, he.2⟩
      cases p with
      | «variable» x | ignore =>
          exact Attempt.passes_moved hstore (hr.passes_push hcontext he.1.2)
      | _ => exact Attempt.passes_fault hstore hr trivial
  | extract v =>
      intro _
      exact extract_passes hstore hr
  | lambda p body =>
      intro _
      simp only [Computation.passesControl, Computation.passes, Bool.and_eq_true] at he
      exact enter_passes hstore hr he.1 he.2
  | branches bs =>
      intro _
      exact choose_passes hstore hr he
  | apply e v | project e v =>
      intro _
      simp only [Computation.passesControl, Computation.passes, Bool.and_eq_true] at he
      apply Attempt.passes_proceed hstore hr (v.resolve_meets hr.env he.2)
      intro w hw
      exact Attempt.passes_moved hstore (hr.passes_push hw he.1)
  | put n v =>
      simp only [Computation.passesControl, Computation.passes, Bool.and_eq_true] at he
      exact put_passes hstore hr he.1 he.2
  | get v =>
      intro _
      exact get_passes hstore hr he
  | switch v cs =>
      intro _
      simp only [Computation.passesControl, Computation.passes, Bool.and_eq_true] at he
      exact switch_passes hstore hr he.1 he.2
  | link v => exact link_passes hstore hr (Except.ok.inj hhead).symm he
  | assert a equal b =>
      intro _
      simp only [Computation.passesControl, Computation.passes, Bool.and_eq_true] at he
      exact assert_passes hstore hr he.1 he.2
  | hole =>
      intro _
      exact Attempt.passes_failed hstore hr (hhole rfl)
  | stray o =>
      intro _
      exact Attempt.passes_failed hstore hr (S.tolerates_of_stray he _)

/-- A step of a process that passes a screen leaves what passes it.  Under a strict screen it
breaks at a hole and nowhere else. -/
theorem step_passes (hstore : store.all (Value.passes S)) (hr : r.passes S)
    (hhole : r.control = .hole -> ¬ S.Strict) : Attempt.Respects S (r.step store) := by
  rw [Running.passes_iff] at hr
  rcases hr with ⟨hcontrol, henv, hstack, htrace⟩
  have hbefore : r.Poised S :=
    ⟨Computation.passesControl_mono S.within_holed hcontrol, henv, hstack, htrace⟩
  have hhead := Computation.head_meets hcontrol
  unfold step
  cases heq : r.control.head with
  | error f =>
      intro _
      exact Attempt.passes_failed hstore hbefore (hhead.of_eq_error heq)
  | ok head =>
      have hpoised : Running.Poised S { r with control := head } :=
        ⟨hhead.of_eq_ok heq, henv, hstack, htrace⟩
      exact reduce_passes hstore hpoised hcontrol heq hhole

end Running

end Steps

end PushValue
