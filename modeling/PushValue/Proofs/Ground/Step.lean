import PushValue.Proofs.Ground.Resolve
import PushValue.Proofs.Reduction
import PushValue.Proofs.Screen.Step

/-!
# Steps with ground values

Values are resolved before the machine keeps them, so all that a process keeps is ground: what
it has bound, what waits in a frame or is on its way to one, and what it has recorded.  Every
step leaves it so, whether it completes or fails.

Only a return marker could bring in a value that was never resolved, for the machine takes it
as it is.  The steps are therefore those of processes that pass a screen without such markers.
-/

namespace PushValue

/-!
## States
-/

namespace Trace

mutual

def isGround : Trace -> Bool
  | sequence items | nest _ items => areGround items
  | ret v | put _ v | get _ v => v.isGround
  | link t v => t.isGround && v.isGround
  | stray _ => false

def areGround : List Trace -> Bool
  | [] => true
  | t :: rest => t.isGround && areGround rest

end

theorem areGround_append {ts us : List Trace} :
    areGround (ts ++ us) = (areGround ts && areGround us) := by
  induction ts with
  | nil => rfl
  | cons t rest ih => rw [List.cons_append, areGround, areGround, ih, Bool.and_assoc]

theorem areGround_concat {ts : List Trace} {entry : Trace} (hts : areGround ts)
    (hentry : entry.isGround) : areGround (ts ++ [entry]) := by
  rw [areGround_append, hts, areGround, hentry]
  rfl

end Trace

def Context.isGround : Context -> Bool
  | .bind env _ _ | .bindBox env _ _ => env.isGround
  | .argument v | .label v => v.isGround
  | .nest _ => true
  | .stray _ => false

def Frame.isGround : Frame -> Bool
  | .mk c ts => c.isGround && Trace.areGround ts
  | .stray _ => false

def Computation.isGroundControl : Computation -> Bool
  | .returned v => v.isGround
  | _ => true

/-- Whether all values that a process has bound, waits with, returns and has recorded are
ground. -/
def Running.isGround (r : Running) : Bool :=
  r.control.isGroundControl && r.env.isGround && r.stack.all Frame.isGround &&
    Trace.areGround r.trace

def Signal.isGround : Signal -> Bool
  | .halt v => v.isGround
  | .awaitEntry _ | .awaitHalt _ => true
  | .spawn _ env body => env.isGround && body.isGroundControl

theorem Frame.exists_of_isGround {f : Frame} (h : f.isGround) :
    ∃ c ts, f = .mk c ts ∧ c.isGround ∧ Trace.areGround ts := by
  cases f with
  | mk c ts =>
      simp only [Frame.isGround, Bool.and_eq_true] at h
      exact ⟨c, ts, rfl, h.1, h.2⟩
  | stray o => cases h

theorem Computation.isGroundControl_of_passes {S : Screen} (hS : S.returned = false)
    {e : Computation} (he : e.passes S) : e.isGroundControl := by
  cases e with
  | returned v =>
      rw [Computation.passes, hS] at he
      cases he
  | _ => rfl

theorem Computation.isGroundControl_head {e : Computation} (he : e.isGroundControl) :
    Meets (fun _ => True) (fun head => head.isGroundControl) e.head := by
  cases e with
  | switch v cs =>
      rw [Computation.head]
      cases cs.head with
      | ok cs' => rfl
      | error l => trivial
  | branches bs =>
      rw [Computation.head]
      cases bs.head with
      | ok bs' => rfl
      | error l => trivial
  | returned v => exact he
  | stray o => trivial
  | _ => rfl

namespace Running

variable {r : Running}

theorem isGround_iff :
    r.isGround ↔ r.control.isGroundControl ∧ r.env.isGround ∧ r.stack.all Frame.isGround ∧
      Trace.areGround r.trace := by
  unfold isGround
  simp only [Bool.and_eq_true, and_assoc]

theorem isGround_start {body : Computation} {env : Environment}
    (hbody : body.isGroundControl) (henv : env.isGround) : (start body env).isGround :=
  isGround_iff.mpr ⟨hbody, henv, rfl, rfl⟩

theorem isGround_withControl {e : Computation} (hr : r.isGround) (he : e.isGroundControl) :
    isGround { r with control := e } := by
  rcases isGround_iff.mp hr with ⟨_, henv, hstack, htrace⟩
  exact isGround_iff.mpr ⟨he, henv, hstack, htrace⟩

theorem isGround_withEnv {env : Environment} (hr : r.isGround) (henv : env.isGround) :
    isGround { r with env } := by
  rcases isGround_iff.mp hr with ⟨hcontrol, _, hstack, htrace⟩
  exact isGround_iff.mpr ⟨hcontrol, henv, hstack, htrace⟩

theorem isGround_pop {frame : Frame} {rest : Stack} (hr : r.isGround)
    (hframes : r.stack = frame :: rest) :
    isGround { r with stack := rest } ∧ frame.isGround := by
  rcases isGround_iff.mp hr with ⟨hcontrol, henv, hstack, htrace⟩
  rw [hframes, List.all_cons, Bool.and_eq_true] at hstack
  exact ⟨isGround_iff.mpr ⟨hcontrol, henv, hstack.2, htrace⟩, hstack.1⟩

theorem isGround_push {context : Context} {next : Computation} (hr : r.isGround)
    (hcontext : context.isGround) (hnext : next.isGroundControl) :
    (r.push context next).isGround := by
  rcases isGround_iff.mp hr with ⟨_, henv, hstack, htrace⟩
  refine isGround_iff.mpr ⟨hnext, henv, ?_, rfl⟩
  show (Frame.mk context r.trace :: r.stack).all Frame.isGround
  rw [List.all_cons, hstack, Frame.isGround, hcontext, htrace]
  rfl

theorem isGround_record {entry : Trace} (hr : r.isGround) (hentry : entry.isGround) :
    (r.record entry).isGround := by
  rcases isGround_iff.mp hr with ⟨hcontrol, henv, hstack, htrace⟩
  exact isGround_iff.mpr ⟨hcontrol, henv, hstack, Trace.areGround_concat htrace hentry⟩

theorem isGround_recordReturn {v : Value} (hr : r.isGround) (hv : v.isGround) :
    (r.recordReturn v).isGround := by
  unfold recordReturn
  split
  · exact isGround_record hr hv
  · exact hr

theorem isGround_rejoin {frame : Frame} (hr : r.isGround) (hframe : frame.isGround) :
    (r.rejoin frame).isGround := by
  rcases isGround_iff.mp hr with ⟨hcontrol, henv, hstack, htrace⟩
  rcases Frame.exists_of_isGround hframe with ⟨c, ts, rfl, _, hts⟩
  refine isGround_iff.mpr ⟨hcontrol, henv, hstack, ?_⟩
  show Trace.areGround (ts ++ r.trace)
  rw [Trace.areGround_append, hts, htrace]
  rfl

theorem isGround_resume {frame : Frame} {env : Environment} {next : Computation}
    (hr : r.isGround) (hframe : frame.isGround) (henv : env.isGround)
    (hnext : next.isGroundControl) : (r.resume frame env next).isGround :=
  isGround_withControl (isGround_withEnv (isGround_rejoin hr hframe) henv) hnext

end Running

/-!
## Endings of a step
-/

structure Attempt.Ground (a : Attempt) : Prop where
  store : a.store.all Value.isGround
  running : a.running.isGround
  signal : ∀ s, a.outcome = .signal s -> s.isGround

namespace Attempt

variable {store : Store} {r : Running}

theorem ground_failed {f : Failure} (hstore : store.all Value.isGround) (hr : r.isGround) :
    Attempt.Ground ⟨.failed f, store, r⟩ where
  store := hstore
  running := hr
  signal := by
    intro s hs
    cases hs

theorem ground_moved (hstore : store.all Value.isGround) (hr : r.isGround) :
    (moved store r).Ground where
  store := hstore
  running := hr
  signal := by
    intro s hs
    cases hs

theorem ground_signal {s : Signal} (hstore : store.all Value.isGround) (hr : r.isGround)
    (hs : s.isGround) : Attempt.Ground ⟨.signal s, store, r⟩ where
  store := hstore
  running := hr
  signal := by
    intro t ht
    cases ht
    exact hs

theorem ground_proceed {α : Type} {result : Except Failure α} {next : α -> Attempt}
    (hstore : store.all Value.isGround) (hr : r.isGround)
    (hnext : ∀ a, result = .ok a -> (next a).Ground) : (proceed store r result next).Ground := by
  cases result with
  | ok a => exact hnext a rfl
  | error f => exact ground_failed hstore hr

theorem ground_ask {α : Type} {part : Except Lack α} {next : α -> Attempt}
    (hstore : store.all Value.isGround) (hr : r.isGround)
    (hnext : ∀ a, part = .ok a -> (next a).Ground) : (ask store r part next).Ground := by
  cases part with
  | ok a => exact hnext a rfl
  | error l => exact ground_failed hstore hr

theorem ground_seek {s : Symbol} {next : Symbol -> Attempt}
    (hstore : store.all Value.isGround) (hr : r.isGround) (hnext : ∀ key, (next key).Ground) :
    (seek store r s next).Ground :=
  ground_proceed hstore hr fun key _ => hnext key

end Attempt

/-!
## Steps

The process passes a screen without return markers, so what comes under control next is a value
that was resolved or a computation without a marker in front.
-/

namespace Running

open Attempt

variable {S : Screen} {store : Store} {r : Running}

theorem deliver_ground (hS : S.returned = false) (hframes : r.stack.all (Frame.passes S))
    (hstore : store.all Value.isGround) (hr : r.isGround) {v : Value} (hv : v.isGround) :
    (r.deliver store v).Ground := by
  unfold deliver
  cases hstack : r.stack with
  | nil => exact ground_signal hstore hr hv
  | cons frame rest =>
      rcases isGround_pop hr hstack with ⟨hpopped, hframe⟩
      rw [hstack, List.all_cons, Bool.and_eq_true] at hframes
      rcases Frame.exists_of_passes hframes.1 with ⟨context, ts, rfl, hcontext, _⟩
      have hparts := hframe
      simp only [Frame.isGround, Bool.and_eq_true] at hparts
      simp only [Frame.context, ask_ok]
      cases context with
      | nest s =>
          rcases isGround_iff.mp hpopped with ⟨hcontrol, henv, hrest, htrace⟩
          have hjoined : Trace.areGround (ts ++ [.nest s r.trace]) :=
            Trace.areGround_concat hparts.2 htrace
          exact ground_moved hstore (isGround_iff.mpr ⟨hcontrol, henv, hrest, hjoined⟩)
      | bind env p body =>
          simp only [Context.passes, Bool.and_eq_true] at hcontext
          have hbody := Computation.isGroundControl_of_passes hS hcontext.2
          apply ground_proceed hstore hpopped
          intro env' hp
          have henv' := (p.bind_ground hparts.1 hv).of_eq_ok hp
          exact ground_moved hstore (isGround_resume hpopped hframe henv' hbody)
      | bindBox env p body =>
          simp only [Context.passes, Bool.and_eq_true] at hcontext
          have hbody := Computation.isGroundControl_of_passes hS hcontext.2
          dsimp only
          split
          · apply ground_ask hstore hpopped
            intro env' hx
            have henv' : env'.isGround := by
              rcases Environment.exists_of_passes hcontext.1.1 with ⟨vs, bs, rfl, _, _⟩
              cases hx
              exact hparts.1
            exact ground_moved hstore (isGround_resume hpopped hframe henv' hbody)
          · exact ground_moved hstore (isGround_resume hpopped hframe hparts.1 hbody)
          · exact ground_failed hstore hpopped
      | argument w | label w => exact ground_failed hstore hpopped
      | stray o => cases hcontext

theorem enter_ground (hstore : store.all Value.isGround) (hr : r.isGround) (p : Pattern)
    {body : Computation} (hbody : body.isGroundControl) : (r.enter store p body).Ground := by
  unfold enter
  cases hstack : r.stack with
  | nil => exact ground_failed hstore hr
  | cons frame rest =>
      rcases isGround_pop hr hstack with ⟨hpopped, hframe⟩
      rcases Frame.exists_of_isGround hframe with ⟨context, ts, rfl, hcontext, _⟩
      simp only [Frame.context, ask_ok]
      cases context with
      | argument v =>
          apply ground_proceed hstore hpopped
          intro env hp
          have henv := (p.bind_ground (isGround_iff.mp hr).2.1 hcontext).of_eq_ok hp
          exact ground_moved hstore (isGround_resume hpopped hframe henv hbody)
      | _ => exact ground_failed hstore hpopped

theorem isGroundControl_body (hS : S.returned = false) (hforeign : S.foreign) {part : Part}
    {body : Computation} (hpart : part.passes S) (hbody : part.body = .ok body) :
    body.isGroundControl :=
  Computation.isGroundControl_of_passes hS ((Part.body_meets (.inl hforeign) hpart).of_eq_ok hbody)

theorem choose_ground (hS : S.returned = false) (hforeign : S.foreign)
    (henv : r.env.passes S) (hstore : store.all Value.isGround) (hr : r.isGround)
    {bs : Branches} (hbs : bs.passes S) : (r.choose store bs).Ground := by
  unfold choose
  cases hstack : r.stack with
  | nil => exact ground_failed hstore hr
  | cons frame rest =>
      rcases isGround_pop hr hstack with ⟨hpopped, hframe⟩
      rcases Frame.exists_of_isGround hframe with ⟨context, ts, rfl, _, _⟩
      simp only [Frame.context, ask_ok]
      cases context with
      | label v =>
          apply ground_proceed hstore hpopped
          intro s _
          apply ground_proceed hstore hpopped
          intro part hselect
          have hpart := ((bs.select_meets henv s hbs).of_eq_ok hselect).2
          have hrejoined := isGround_rejoin hpopped hframe
          apply ground_ask hstore hrejoined
          intro body hbody
          have hnext := isGroundControl_body hS hforeign hpart hbody
          exact ground_moved hstore (isGround_withControl hrejoined hnext)
      | _ => exact ground_failed hstore hpopped

theorem reduce_extract_ground (hS : S.returned = false) (henv : r.env.passes S)
    (hstore : store.all Value.isGround) (hr : r.isGround) (v : Value) :
    (r.reduce store (.extract v)).Ground := by
  cases v with
  | «variable» x =>
      apply ground_ask hstore hr
      intro boxes hboxes
      rcases Environment.exists_of_passes henv with ⟨vs, bs, hmk, _, hbs⟩
      rw [hmk] at hboxes
      cases hboxes
      cases hget : boxes.get? x with
      | none => exact ground_failed hstore hr
      | some b =>
          have hb := Boxes.passes_get? boxes hbs hget
          apply ground_ask hstore hr
          rintro ⟨code, env⟩ hcode
          have hnext : code.isGroundControl := by
            cases b with
            | stray o => cases hcode
            | mk body self captured =>
                cases hcode
                simp only [Box.passes, Bool.and_eq_true] at hb
                exact Computation.isGroundControl_of_passes hS hb.1
          have hscope := Box.unpack_ground hcode
          exact ground_moved hstore (isGround_withControl (isGround_withEnv hr hscope) hnext)
  | _ => exact ground_failed hstore hr

theorem reduce_switch_ground (hS : S.returned = false) (hforeign : S.foreign)
    (henv : r.env.passes S) (hstore : store.all Value.isGround) (hr : r.isGround) {v : Value}
    {cs : Cases} (hcs : cs.passes S) : (r.reduce store (.switch v cs)).Ground := by
  have hbound := (isGround_iff.mp hr).2.1
  apply ground_proceed hstore hr
  intro w hw
  have hground := (v.resolve_ground hbound).of_eq_ok hw
  cases w with
  | variant l payload =>
      simp only [Value.isGround, Bool.and_eq_true] at hground
      apply ground_proceed hstore hr
      intro s _
      apply ground_proceed hstore hr
      intro part hselect
      have hpart := ((cs.select_meets henv s hcs).of_eq_ok hselect).2
      apply ground_proceed hstore hr
      intro env hbind
      have hscope := isGround_withEnv hr ((part.bind_ground hbound hground.2).of_eq_ok hbind)
      apply ground_ask hstore hscope
      intro body hbody
      have hnext := isGroundControl_body hS hforeign hpart hbody
      exact ground_moved hstore (isGround_withControl hscope hnext)
  | _ => exact ground_failed hstore hr

theorem reduce_put_ground (hstore : store.all Value.isGround) (hr : r.isGround) (n v : Value) :
    (r.reduce store (.put n v)).Ground := by
  apply ground_proceed hstore hr
  intro s _
  apply ground_proceed hstore hr
  intro w hw
  have hground := (v.resolve_ground (isGround_iff.mp hr).2.1).of_eq_ok hw
  apply ground_ask hstore hr
  intro _ _
  have hrecorded : (r.record (.put (r.stack.qualify s) w)).isGround :=
    isGround_record hr hground
  apply ground_seek hstore hrecorded
  intro name
  have hinserted : (store.insert name w).all Value.isGround :=
    Table.all_insert name hstore hground
  exact ground_moved hinserted (isGround_withControl hrecorded rfl)

theorem reduce_get_ground (hstore : store.all Value.isGround) (hr : r.isGround) (v : Value) :
    (r.reduce store (.get v)).Ground := by
  apply ground_proceed hstore hr
  intro s _
  apply ground_seek hstore hr
  intro key
  cases hget : store.get? key with
  | none => exact ground_failed hstore hr
  | some stored =>
      have hstored := Table.all_iff.mp hstore key stored hget
      have hrecorded : (r.record (.get key stored)).isGround := isGround_record hr hstored
      exact ground_moved hstore (isGround_withControl hrecorded hstored)

theorem reduce_link_ground (hstore : store.all Value.isGround) (hr : r.isGround) (v : Value) :
    (r.reduce store (.link v)).Ground := by
  apply ground_proceed hstore hr
  intro w _
  cases w with
  | symbol s =>
      apply ground_seek hstore hr
      intro key
      split
      · have hrecorded : (r.record (.link (.symbol key) (.pointer key))).isGround :=
          isGround_record hr rfl
        exact ground_moved hstore (isGround_withControl hrecorded rfl)
      · exact ground_signal hstore (isGround_withControl hr rfl) rfl
  | process s => exact ground_signal hstore hr rfl
  | _ => exact ground_failed hstore hr

theorem reduce_spawn_ground (hstore : store.all Value.isGround) (hr : r.isGround) (v : Value)
    {body : Computation} (hbody : body.isGroundControl) :
    (r.reduce store (.spawn v body)).Ground := by
  apply ground_proceed hstore hr
  intro s _
  apply ground_ask hstore hr
  intro _ _
  apply ground_seek hstore hr
  intro name
  have hsignal : (Signal.spawn name r.env body).isGround :=
    Bool.and_eq_true_iff.mpr ⟨(isGround_iff.mp hr).2.1, hbody⟩
  split
  · exact ground_failed hstore hr
  · exact ground_signal hstore (isGround_withControl hr rfl) hsignal

theorem reduce_assert_ground (hstore : store.all Value.isGround) (hr : r.isGround)
    (a b : Value) (equal : Bool) : (r.reduce store (.assert a equal b)).Ground := by
  apply ground_proceed hstore hr
  intro a' _
  apply ground_proceed hstore hr
  intro b' _
  split
  · apply ground_ask hstore hr
    intro _ _
    have hrecorded : (r.recordReturn .unit).isGround := isGround_recordReturn hr rfl
    exact ground_moved hstore (isGround_withControl hrecorded rfl)
  · exact ground_failed hstore hr

theorem reduce_ground (hS : S.returned = false) (hforeign : S.foreign)
    (hframes : r.stack.all (Frame.passes S)) (henv : r.env.passes S)
    (hstore : store.all Value.isGround) (hr : r.isGround) {e : Computation}
    (hpasses : e.passesControl S) (he : e.isGroundControl) : (r.reduce store e).Ground := by
  have hbound := (isGround_iff.mp hr).2.1
  have hunmarked {next : Computation} (h : next.passes S) : next.isGroundControl :=
    Computation.isGroundControl_of_passes hS h
  cases e with
  | ret v =>
      apply ground_proceed hstore hr
      intro w hw
      have hground := (v.resolve_ground hbound).of_eq_ok hw
      apply ground_ask hstore hr
      intro _ _
      have hreturning : ((r.recordReturn w).returning w).isGround :=
        isGround_withControl (isGround_recordReturn hr hground) hground
      apply deliver_ground hS _ hstore hreturning hground
      show (r.recordReturn w).stack.all (Frame.passes S)
      rw [recordReturn_stack]
      exact hframes
  | returned v => exact deliver_ground hS hframes hstore hr he
  | nest v body =>
      simp only [Computation.passesControl, Computation.passes, Bool.and_eq_true] at hpasses
      apply ground_proceed hstore hr
      intro s _
      exact ground_moved hstore (isGround_push hr rfl (hunmarked hpasses.2))
  | spawn v body =>
      simp only [Computation.passesControl, Computation.passes, Bool.and_eq_true] at hpasses
      exact reduce_spawn_ground hstore hr v (hunmarked hpasses.2)
  | bind p e₁ e₂ =>
      simp only [Computation.passesControl, Computation.passes, Bool.and_eq_true] at hpasses
      exact ground_moved hstore (isGround_push hr hbound (hunmarked hpasses.1.2))
  | bindBox p e₁ e₂ =>
      simp only [Computation.passesControl, Computation.passes, Bool.and_eq_true] at hpasses
      have hpushed : (r.push (.bindBox r.env p e₂) e₁).isGround :=
        isGround_push hr hbound (hunmarked hpasses.1.2)
      cases p with
      | «variable» x | ignore => exact ground_moved hstore hpushed
      | _ => exact ground_failed hstore hr
  | extract v => exact reduce_extract_ground hS henv hstore hr v
  | lambda p body =>
      simp only [Computation.passesControl, Computation.passes, Bool.and_eq_true] at hpasses
      exact enter_ground hstore hr p (hunmarked hpasses.2)
  | branches bs => exact choose_ground hS hforeign henv hstore hr hpasses
  | apply f v | project f v =>
      simp only [Computation.passesControl, Computation.passes, Bool.and_eq_true] at hpasses
      apply ground_proceed hstore hr
      intro w hw
      have hground := (v.resolve_ground hbound).of_eq_ok hw
      exact ground_moved hstore (isGround_push hr hground (hunmarked hpasses.1))
  | put n v => exact reduce_put_ground hstore hr n v
  | get v => exact reduce_get_ground hstore hr v
  | switch v cs =>
      simp only [Computation.passesControl, Computation.passes, Bool.and_eq_true] at hpasses
      exact reduce_switch_ground hS hforeign henv hstore hr hpasses.2
  | link v => exact reduce_link_ground hstore hr v
  | assert a equal b => exact reduce_assert_ground hstore hr a b equal
  | hole | stray o => exact ground_failed hstore hr

/-- Every step keeps to ground values, also one that fails. -/
theorem step_ground (hS : S.returned = false) (hforeign : S.foreign) (hpasses : r.passes S)
    (hstore : store.all Value.isGround) (hr : r.isGround) : (r.step store).Ground := by
  rcases Running.passes_iff.mp hpasses with ⟨hcontrol, henv, hframes, _⟩
  have hground := (isGround_iff.mp hr).1
  apply ground_proceed hstore hr
  intro head hhead
  have hposed := isGround_withControl hr ((Computation.isGroundControl_head hground).of_eq_ok hhead)
  exact reduce_ground (r := { r with control := head }) hS hforeign hframes henv hstore hposed
    hcontrol hground

end Running

end PushValue
