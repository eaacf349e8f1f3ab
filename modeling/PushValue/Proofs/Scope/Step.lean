import PushValue.Proofs.Scope.Resolve

/-!
# Steps in a scope

A process is scoped when its environment covers a scope in which the computation under
control is scoped, and when every context on its stack can be resumed in the environment
that it saved.  A value on its way to the stack is closed.  Every step keeps this, whether
it completes or fails, and no step fails for a name without a binding.
-/

namespace PushValue

def Context.Scoped : Context -> Prop
  | .bind env p body =>
      ∃ vs bs, env.Covers vs bs ∧ p.isScoped vs bs ∧ body.isScoped (p.names ++ vs) bs
  | .bindBox env p body => ∃ vs bs, env.Covers vs bs ∧ body.isScoped vs (p.boxNames ++ bs)
  | .argument v | .label v => v.isClosed
  | .nest _ => True
  | .stray _ => False

def Frame.Scoped : Frame -> Prop
  | .mk c _ => c.Scoped
  | .stray _ => False

/-- What may stand under control: a scoped computation, or the return of a closed value. -/
def Computation.isScopedControl (vs bs : List String) : Computation -> Bool
  | .returned v => v.isClosed
  | e => e.isScoped vs bs

structure Running.ScopedIn (vs bs : List String) (r : Running) : Prop where
  env : r.env.Covers vs bs
  control : r.control.isScopedControl vs bs
  stack : ∀ f ∈ r.stack, f.Scoped

def Running.Scoped (r : Running) : Prop := ∃ vs bs, r.ScopedIn vs bs

def Signal.Scoped : Signal -> Prop
  | .halt v => v.isClosed
  | .spawn _ env body => ∃ vs bs, env.Covers vs bs ∧ body.isScoped vs bs
  | .awaitEntry _ | .awaitHalt _ => True

structure Attempt.Scoped (a : Attempt) : Prop where
  store : a.store.all Value.isClosed
  running : a.running.Scoped
  signal : ∀ s, a.outcome = .signal s -> s.Scoped
  failure : ∀ f, a.outcome = .failed f -> f.Bound

/-!
## Changes of a process
-/

theorem Computation.isScopedControl_of_isScoped {vs bs : List String} {e : Computation}
    (h : e.isScoped vs bs) : e.isScopedControl vs bs := by
  cases e with
  | returned v => cases h
  | _ => exact h

namespace Running

variable {vs bs : List String} {r : Running}

theorem ScopedIn.pop {frame : Frame} {rest : Stack} (hr : r.ScopedIn vs bs)
    (hstack : r.stack = frame :: rest) :
    Running.ScopedIn vs bs { r with stack := rest } ∧ frame.Scoped := by
  have hframes := hr.stack
  rw [hstack] at hframes
  constructor
  · exact ⟨hr.env, hr.control, fun f hf => hframes f (List.mem_cons_of_mem frame hf)⟩
  · exact hframes frame List.mem_cons_self

theorem ScopedIn.returning {v : Value} (hr : r.ScopedIn vs bs) (hv : v.isClosed) :
    (r.returning v).ScopedIn vs bs :=
  ⟨hr.env, hv, hr.stack⟩

theorem ScopedIn.record (hr : r.ScopedIn vs bs) (entry : Trace) :
    (r.record entry).ScopedIn vs bs :=
  ⟨hr.env, hr.control, hr.stack⟩

theorem ScopedIn.recordReturn (hr : r.ScopedIn vs bs) (v : Value) :
    (r.recordReturn v).ScopedIn vs bs := by
  unfold Running.recordReturn
  split
  · exact hr.record _
  · exact hr

theorem ScopedIn.push {c : Context} {next : Computation} (hr : r.ScopedIn vs bs)
    (hc : c.Scoped) (hnext : next.isScoped vs bs) : (r.push c next).ScopedIn vs bs where
  env := hr.env
  control := Computation.isScopedControl_of_isScoped hnext
  stack := by
    intro f hf
    rcases List.mem_cons.mp hf with heq | hmem
    · rw [heq]
      exact hc
    · exact hr.stack f hmem

theorem ScopedIn.resume {vs' bs' : List String} {env : Environment} {next : Computation}
    (hr : r.ScopedIn vs bs) (frame : Frame) (henv : env.Covers vs' bs')
    (hnext : next.isScoped vs' bs') : (r.resume frame env next).ScopedIn vs' bs' :=
  ⟨henv, Computation.isScopedControl_of_isScoped hnext, hr.stack⟩

theorem ScopedIn.continue {next : Computation} (hr : r.ScopedIn vs bs)
    (hnext : next.isScoped vs bs) : Running.ScopedIn vs bs { r with control := next } :=
  ⟨hr.env, Computation.isScopedControl_of_isScoped hnext, hr.stack⟩

end Running

/-!
## Endings of a step
-/

namespace Attempt

variable {store : Store} {r : Running} {vs bs : List String}

theorem scoped_failed {f : Failure} (hstore : store.all Value.isClosed)
    (hr : r.ScopedIn vs bs) (hf : f.Bound) : Attempt.Scoped ⟨.failed f, store, r⟩ where
  store := hstore
  running := ⟨vs, bs, hr⟩
  signal := by
    intro s hs
    cases hs
  failure := by
    intro g hg
    cases hg
    exact hf

theorem scoped_fault {f : Fault} (hstore : store.all Value.isClosed)
    (hr : r.ScopedIn vs bs) (hf : f.isUnbound = false) : (fault store r f).Scoped :=
  scoped_failed hstore hr hf

theorem scoped_moved (hstore : store.all Value.isClosed) (hr : r.ScopedIn vs bs) :
    (moved store r).Scoped where
  store := hstore
  running := ⟨vs, bs, hr⟩
  signal := by
    intro s hs
    cases hs
  failure := by
    intro f hf
    cases hf

theorem scoped_signal {s : Signal} (hstore : store.all Value.isClosed)
    (hr : r.ScopedIn vs bs) (hs : s.Scoped) : Attempt.Scoped ⟨.signal s, store, r⟩ where
  store := hstore
  running := ⟨vs, bs, hr⟩
  signal := by
    intro t ht
    cases ht
    exact hs
  failure := by
    intro f hf
    cases hf

theorem scoped_proceed {α : Type} {holds : α -> Prop} {result : Except Failure α}
    {next : α -> Attempt} (hstore : store.all Value.isClosed) (hr : r.ScopedIn vs bs)
    (hresult : Meets Failure.Bound holds result) (hnext : ∀ a, holds a -> (next a).Scoped) :
    (proceed store r result next).Scoped :=
  proceed_of_meets hresult (fun _ hf => scoped_failed hstore hr hf) hnext

theorem scoped_seek {s : Symbol} {next : Symbol -> Attempt}
    (hstore : store.all Value.isClosed) (hr : r.ScopedIn vs bs)
    (hnext : ∀ s, (next s).Scoped) : (seek store r s next).Scoped := by
  have hkey : Meets Failure.Bound (fun _ => True) (Failure.ofBreakage s.asKey) := by
    cases s.asKey with
    | ok t => trivial
    | error b => exact Meets.error trivial
  exact scoped_proceed hstore hr hkey fun t _ => hnext t

end Attempt

namespace Running

open Attempt

variable {store : Store} {r : Running} {vs bs : List String}

/-!
## Returning
-/

theorem deliver_scoped (hstore : store.all Value.isClosed) (hr : r.ScopedIn vs bs) {v : Value}
    (hv : v.isClosed) : (r.deliver store v).Scoped := by
  unfold deliver
  cases hstack : r.stack with
  | nil => exact scoped_signal hstore hr hv
  | cons frame rest =>
      rcases hr.pop hstack with ⟨hpopped, hframe⟩
      cases frame with
      | stray o => cases hframe
      | mk context ts =>
          simp only [Frame.context, ask_ok]
          cases context with
          | nest s => exact scoped_moved hstore ⟨hpopped.env, hpopped.control, hpopped.stack⟩
          | bind env p body =>
              rcases hframe with ⟨vs', bs', henv, hp, hbody⟩
              apply scoped_proceed hstore hpopped (p.bind_covers henv hv hp)
              intro env' henv'
              exact scoped_moved hstore (hpopped.resume _ henv' hbody)
          | bindBox env p body =>
              rcases hframe with ⟨vs', bs', henv, hbody⟩
              dsimp only
              split
              · apply scoped_proceed hstore hpopped (Environment.covers_bindBox henv hv)
                intro env' henv'
                exact scoped_moved hstore (hpopped.resume _ henv' hbody)
              · exact scoped_moved hstore (hpopped.resume _ henv hbody)
              · exact scoped_fault hstore hpopped rfl
          | argument w | label w => exact scoped_fault hstore hpopped rfl
          | stray o => cases hframe

/-!
## Functions and branches
-/

theorem enter_scoped (hstore : store.all Value.isClosed) (hr : r.ScopedIn vs bs) {p : Pattern}
    {body : Computation} (hp : p.isScoped vs bs) (hbody : body.isScoped (p.names ++ vs) bs) :
    (r.enter store p body).Scoped := by
  unfold enter
  cases hstack : r.stack with
  | nil => exact scoped_fault hstore hr rfl
  | cons frame rest =>
      rcases hr.pop hstack with ⟨hpopped, hframe⟩
      cases frame with
      | stray o => cases hframe
      | mk context ts =>
          simp only [Frame.context, ask_ok]
          cases context with
          | argument v =>
              apply scoped_proceed hstore hpopped (p.bind_covers hr.env hframe hp)
              intro env' henv'
              exact scoped_moved hstore (hpopped.resume _ henv' hbody)
          | _ => exact scoped_fault hstore hpopped rfl

theorem choose_scoped (hstore : store.all Value.isClosed) (hr : r.ScopedIn vs bs)
    {alternatives : Branches} (halternatives : alternatives.isScoped vs bs) :
    (r.choose store alternatives).Scoped := by
  unfold choose
  cases hstack : r.stack with
  | nil => exact scoped_fault hstore hr rfl
  | cons frame rest =>
      rcases hr.pop hstack with ⟨hpopped, hframe⟩
      cases frame with
      | stray o => cases hframe
      | mk context ts =>
          simp only [Frame.context, ask_ok]
          cases context with
          | label v =>
              apply scoped_proceed hstore hpopped v.toSymbol_bound
              intro s _
              have hselected := alternatives.select_scoped hr.env s halternatives
              apply scoped_proceed hstore hpopped hselected
              intro part hpart
              have hrejoined : (Running.rejoin { r with stack := rest }
                  (.mk (.label v) ts)).ScopedIn vs bs :=
                ⟨hpopped.env, hpopped.control, hpopped.stack⟩
              apply scoped_proceed hstore hrejoined (Part.branchBody_scoped hpart)
              intro body hbody
              exact scoped_moved hstore (hrejoined.continue hbody)
          | _ => exact scoped_fault hstore hpopped rfl

/-!
## Reductions
-/

theorem reduce_spawn_scoped (hstore : store.all Value.isClosed) (hr : r.ScopedIn vs bs)
    {v : Value} {body : Computation} (hv : v.isScoped vs bs) (hbody : body.isScoped vs bs) :
    (r.reduce store (.spawn v body)).Scoped := by
  apply scoped_proceed hstore hr (Value.resolveSymbol_bound hr.env hv)
  intro s _
  apply scoped_proceed hstore hr (Meets.bound_asked r.stack.check)
  intro _ _
  apply scoped_seek hstore hr
  intro name
  split
  · exact scoped_fault hstore hr rfl
  · exact scoped_signal hstore (hr.returning rfl) ⟨vs, bs, hr.env, hbody⟩

theorem reduce_extract_scoped (hstore : store.all Value.isClosed) (hr : r.ScopedIn vs bs)
    {v : Value} (h : (Computation.extract v).isScoped vs bs) :
    (r.reduce store (.extract v)).Scoped := by
  cases v with
  | «variable» x =>
      have hx : x ∈ bs := List.contains_iff_mem.mp h
      have henv := hr.env
      cases hcases : r.env with
      | stray o =>
          rw [hcases] at henv
          cases henv
      | mk values boxes =>
          rw [hcases] at henv
          rcases henv with ⟨_hvalues, hboxes, _hnames, hboxNames⟩
          -- The environment covers the name, so there is a box under it.
          rcases (Boxes.mem_names_iff boxes).mp (hboxNames hx) with ⟨b, hget⟩
          have hb := Boxes.isClosed_get? boxes hboxes hget
          simp only [reduce, hcases, Environment.boxes, ask_ok, hget]
          apply scoped_proceed hstore hr (Box.unpack_covers hb)
          rintro ⟨code, env⟩ ⟨vs', bs', henv, hcode⟩
          exact scoped_moved hstore
            ⟨henv, Computation.isScopedControl_of_isScoped hcode, hr.stack⟩
  | _ => exact scoped_fault hstore hr rfl

theorem reduce_put_scoped (hstore : store.all Value.isClosed) (hr : r.ScopedIn vs bs)
    {n v : Value} (hn : n.isScoped vs bs) (hv : v.isScoped vs bs) :
    (r.reduce store (.put n v)).Scoped := by
  apply scoped_proceed hstore hr (Value.resolveSymbol_bound hr.env hn)
  intro s _
  apply scoped_proceed hstore hr (v.resolve_closed hr.env hv)
  intro w hw
  apply scoped_proceed hstore hr (Meets.bound_asked r.stack.check)
  intro _ _
  apply scoped_seek hstore (hr.record _)
  intro name
  have hinserted : (store.insert name w).all Value.isClosed := Table.all_insert name hstore hw
  exact scoped_moved hinserted ((hr.record _).returning rfl)

theorem reduce_get_scoped (hstore : store.all Value.isClosed) (hr : r.ScopedIn vs bs)
    {v : Value} (hv : v.isScoped vs bs) : (r.reduce store (.get v)).Scoped := by
  apply scoped_proceed hstore hr (Value.resolvePointer_bound hr.env hv)
  intro s _
  apply scoped_seek hstore hr
  intro key
  cases hget : store.get? key with
  | none => exact scoped_fault hstore hr rfl
  | some stored =>
      have hstored := Table.all_iff.mp hstore key stored hget
      exact scoped_moved hstore ((hr.record _).returning hstored)

theorem reduce_switch_scoped (hstore : store.all Value.isClosed) (hr : r.ScopedIn vs bs)
    {v : Value} {cs : Cases} (hv : v.isScoped vs bs) (hcs : cs.isScoped vs bs) :
    (r.reduce store (.switch v cs)).Scoped := by
  apply scoped_proceed hstore hr (v.resolve_closed hr.env hv)
  intro w hw
  cases w with
  | variant l payload =>
      simp only [Value.isClosed, Value.isScoped, Bool.and_eq_true] at hw
      apply scoped_proceed hstore hr l.toSymbol_bound
      intro s _
      apply scoped_proceed hstore hr (cs.select_scoped hr.env s hcs)
      intro part hpart
      apply scoped_proceed hstore hr (part.bind_covers hr.env hw.2 hpart)
      intro env henv
      -- the head was scoped before the names of the case were bound
      have hbound : Running.ScopedIn vs bs { r with env } :=
        ⟨henv.mono (List.subset_append_right _ _) (List.Subset.refl _), hr.control, hr.stack⟩
      apply scoped_proceed hstore hbound (Part.body_scoped hpart)
      intro body hbody
      exact scoped_moved hstore
        ⟨henv, Computation.isScopedControl_of_isScoped hbody, hr.stack⟩
  | _ => exact scoped_fault hstore hr rfl

theorem reduce_link_scoped (hstore : store.all Value.isClosed) (hr : r.ScopedIn vs bs)
    {v : Value} (hv : v.isScoped vs bs) : (r.reduce store (.link v)).Scoped := by
  apply scoped_proceed hstore hr (v.resolve_closed hr.env hv)
  intro w _
  cases w with
  | symbol s =>
      apply scoped_seek hstore hr
      intro key
      split
      · exact scoped_moved hstore ((hr.record _).returning rfl)
      · exact scoped_signal hstore (hr.continue rfl) trivial
  | process s => exact scoped_signal hstore hr trivial
  | _ => exact scoped_fault hstore hr rfl

theorem reduce_assert_scoped (hstore : store.all Value.isClosed) (hr : r.ScopedIn vs bs)
    {a b : Value} {equal : Bool} (ha : a.isScoped vs bs) (hb : b.isScoped vs bs) :
    (r.reduce store (.assert a equal b)).Scoped := by
  apply scoped_proceed hstore hr (a.resolve_closed hr.env ha)
  intro a' _
  apply scoped_proceed hstore hr (b.resolve_closed hr.env hb)
  intro b' _
  split
  · apply scoped_proceed hstore hr (Meets.bound_asked r.stack.checkTop)
    intro _ _
    exact scoped_moved hstore ((hr.recordReturn _).returning rfl)
  · exact scoped_fault hstore hr rfl

theorem reduce_scoped (hstore : store.all Value.isClosed) (hr : r.ScopedIn vs bs)
    {e : Computation} (he : e.isScopedControl vs bs) : (r.reduce store e).Scoped := by
  cases e with
  | ret v =>
      apply scoped_proceed hstore hr (v.resolve_closed hr.env he)
      intro w hw
      apply scoped_proceed hstore hr (Meets.bound_asked r.stack.checkTop)
      intro _ _
      exact deliver_scoped hstore ((hr.recordReturn w).returning hw) hw
  | returned v => exact deliver_scoped hstore hr he
  | nest v body =>
      simp only [Computation.isScopedControl, Computation.isScoped, Bool.and_eq_true] at he
      apply scoped_proceed hstore hr (Value.resolveSymbol_bound hr.env he.1)
      intro s _
      exact scoped_moved hstore (hr.push trivial he.2)
  | spawn v body =>
      simp only [Computation.isScopedControl, Computation.isScoped, Bool.and_eq_true] at he
      exact reduce_spawn_scoped hstore hr he.1 he.2
  | bind p e₁ e₂ =>
      simp only [Computation.isScopedControl, Computation.isScoped, Bool.and_eq_true] at he
      exact scoped_moved hstore (hr.push ⟨vs, bs, hr.env, he.1.1, he.2⟩ he.1.2)
  | bindBox p e₁ e₂ =>
      simp only [Computation.isScopedControl, Computation.isScoped, Bool.and_eq_true] at he
      have hpushed : (r.push (.bindBox r.env p e₂) e₁).ScopedIn vs bs :=
        hr.push ⟨vs, bs, hr.env, he.2⟩ he.1.2
      cases p with
      | «variable» x | ignore => exact scoped_moved hstore hpushed
      | _ => exact scoped_fault hstore hr rfl
  | extract v => exact reduce_extract_scoped hstore hr he
  | lambda p body =>
      simp only [Computation.isScopedControl, Computation.isScoped, Bool.and_eq_true] at he
      exact enter_scoped hstore hr he.1 he.2
  | branches alternatives => exact choose_scoped hstore hr he
  | apply f v | project f v =>
      simp only [Computation.isScopedControl, Computation.isScoped, Bool.and_eq_true] at he
      apply scoped_proceed hstore hr (v.resolve_closed hr.env he.2)
      intro w hw
      exact scoped_moved hstore (hr.push hw he.1)
  | put n v =>
      simp only [Computation.isScopedControl, Computation.isScoped, Bool.and_eq_true] at he
      exact reduce_put_scoped hstore hr he.1 he.2
  | get v => exact reduce_get_scoped hstore hr he
  | switch v cs =>
      simp only [Computation.isScopedControl, Computation.isScoped, Bool.and_eq_true] at he
      exact reduce_switch_scoped hstore hr he.1 he.2
  | link v => exact reduce_link_scoped hstore hr he
  | assert a equal b =>
      simp only [Computation.isScopedControl, Computation.isScoped, Bool.and_eq_true] at he
      exact reduce_assert_scoped hstore hr he.1 he.2
  | hole | stray o => exact scoped_failed hstore hr trivial

/-- A step of a scoped process leaves it scoped and misses no name. -/
theorem step_scoped (hstore : store.all Value.isClosed) (hr : r.Scoped) :
    (r.step store).Scoped := by
  rcases hr with ⟨vs, bs, hr⟩
  have hhead : Meets Failure.Bound (fun head => head.isScopedControl vs bs) r.control.head := by
    have hcontrol := hr.control
    cases hreturned : r.control with
    | returned v =>
        rw [hreturned] at hcontrol
        exact hcontrol
    | _ =>
        rw [hreturned] at hcontrol
        apply (Computation.head_scoped hcontrol).mono
        intro head
        exact Computation.isScopedControl_of_isScoped
  apply scoped_proceed hstore hr hhead
  intro head hscoped
  have hpoised : Running.ScopedIn vs bs { r with control := head } :=
    ⟨hr.env, hscoped, hr.stack⟩
  exact reduce_scoped hstore hpoised hr.control

end Running

end PushValue
