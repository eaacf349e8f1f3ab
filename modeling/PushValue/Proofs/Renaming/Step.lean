import Mathlib.Data.List.Forall2
import PushValue.Machine.Step
import PushValue.Proofs.Renaming.Resolve

/-!
# Steps under a renaming

Two processes that are renamings of each other take the same step: both move, raise the same
signal or fail in the same way, and what they leave behind are renamings of each other again.
The names of store entries and of processes are symbols, which no renaming touches, so both sides
write and look up the same entries.
-/

namespace PushValue

/-!
## Processes
-/

section

variable (R : String -> String -> Prop)

inductive Trace.Renamed : Trace -> Trace -> Prop
  | sequence {ts ts' : List Trace} (hts : List.Forall₂ Renamed ts ts') :
      Renamed (.sequence ts) (.sequence ts')
  | nest (s : Symbol) {ts ts' : List Trace} (hts : List.Forall₂ Renamed ts ts') :
      Renamed (.nest s ts) (.nest s ts')
  | ret {v v' : Value} (hv : v.Renamed R v') : Renamed (.ret v) (.ret v')
  | put (s : Symbol) {v v' : Value} (hv : v.Renamed R v') : Renamed (.put s v) (.put s v')
  | get (s : Symbol) {v v' : Value} (hv : v.Renamed R v') : Renamed (.get s v) (.get s v')
  | link {t t' v v' : Value} (ht : t.Renamed R t') (hv : v.Renamed R v') :
      Renamed (.link t v) (.link t' v')

inductive Context.Renamed : Context -> Context -> Prop
  | bind {env env' : Environment} {p p' : Pattern} {e e' : Computation}
      (henv : env.Renamed R env') (hp : p.Renamed R p') (he : e.Renamed R e') :
      Renamed (.bind env p e) (.bind env' p' e')
  | bindBox {env env' : Environment} {p p' : Pattern} {e e' : Computation}
      (henv : env.Renamed R env') (hp : p.Renamed R p')
      (hbox : ∀ x, p = .variable x -> R x x) (he : e.Renamed R e') :
      Renamed (.bindBox env p e) (.bindBox env' p' e')
  | argument {v v' : Value} (hv : v.Renamed R v') : Renamed (.argument v) (.argument v')
  | label {v v' : Value} (hv : v.Renamed R v') : Renamed (.label v) (.label v')
  | nest (s : Symbol) : Renamed (.nest s) (.nest s)

inductive Frame.Renamed : Frame -> Frame -> Prop
  | mk {c c' : Context} {ts ts' : List Trace} (hc : c.Renamed R c')
      (hts : List.Forall₂ (Trace.Renamed R) ts ts') : Renamed (.mk c ts) (.mk c' ts')

structure Running.Renamed (r r' : Running) : Prop where
  control : r.control.Renamed R r'.control
  env : r.env.Renamed R r'.env
  stack : List.Forall₂ (Frame.Renamed R) r.stack r'.stack
  trace : List.Forall₂ (Trace.Renamed R) r.trace r'.trace

inductive Signal.Renamed : Signal -> Signal -> Prop
  | halt {v v' : Value} (hv : v.Renamed R v') : Renamed (.halt v) (.halt v')
  | awaitEntry (s : Symbol) : Renamed (.awaitEntry s) (.awaitEntry s)
  | awaitHalt (s : Symbol) : Renamed (.awaitHalt s) (.awaitHalt s)
  | spawn (s : Symbol) {env env' : Environment} {e e' : Computation} (henv : env.Renamed R env')
      (he : e.Renamed R e') : Renamed (.spawn s env e) (.spawn s env' e')

inductive Outcome.Renamed : Outcome -> Outcome -> Prop
  | moved : Renamed .moved .moved
  | signal {s s' : Signal} (hs : s.Renamed R s') : Renamed (.signal s) (.signal s')
  | failed {f f' : Failure} (hf : f.Renamed R f') : Renamed (.failed f) (.failed f')

abbrev Store.Renamed (store store' : Store) : Prop := store.Related (Value.Renamed R) store'

structure Attempt.Renamed (a a' : Attempt) : Prop where
  outcome : a.outcome.Renamed R a'.outcome
  store : a.store.Renamed R a'.store
  running : a.running.Renamed R a'.running

end

variable {R : String -> String -> Prop}

/-!
## Changes of a process
-/

namespace Frame.Renamed

variable {f f' : Frame}

theorem context (h : f.Renamed R f') : Tally Eq (Context.Renamed R) f.context f'.context := by
  cases h with
  | mk hc _ => exact .ok hc

theorem trace (h : f.Renamed R f') : List.Forall₂ (Trace.Renamed R) f.trace f'.trace := by
  cases h with
  | mk _ hts => exact hts

end Frame.Renamed

namespace Stack

variable {stack stack' : Stack}

theorem qualify_renamed (h : List.Forall₂ (Frame.Renamed R) stack stack') (s : Symbol) :
    stack.qualify s = stack'.qualify s := by
  induction h generalizing s with
  | nil => rfl
  | cons hf _ ih =>
      cases hf with
      | mk hc _ =>
          cases hc with
          | nest n => exact ih (.within n s)
          | _ => exact ih s

theorem recordsReturn_renamed (h : List.Forall₂ (Frame.Renamed R) stack stack') :
    stack.recordsReturn = stack'.recordsReturn := by
  cases h with
  | nil => rfl
  | cons hf _ =>
      cases hf with
      | mk hc _ => cases hc <;> rfl

theorem checkTop_renamed (h : List.Forall₂ (Frame.Renamed R) stack stack') :
    Tally Eq Eq stack.checkTop stack'.checkTop := by
  cases h with
  | nil => exact Tally.ok rfl
  | cons hf _ => exact hf.context.bind fun _ _ _ => Tally.ok rfl

theorem check_renamed (h : List.Forall₂ (Frame.Renamed R) stack stack') :
    Tally Eq Eq stack.check stack'.check := by
  induction h with
  | nil => exact Tally.ok rfl
  | cons hf _ ih => exact hf.context.bind fun _ _ _ => ih

end Stack

namespace Running.Renamed

variable {r r' : Running}

theorem start {e e' : Computation} {env env' : Environment} (he : e.Renamed R e')
    (henv : env.Renamed R env') : (Running.start e env).Renamed R (Running.start e' env') where
  control := he
  env := henv
  stack := .nil
  trace := .nil

theorem push (h : r.Renamed R r') {c c' : Context} {e e' : Computation} (hc : c.Renamed R c')
    (he : e.Renamed R e') : (r.push c e).Renamed R (r'.push c' e') where
  control := he
  env := h.env
  stack := .cons (.mk hc h.trace) h.stack
  trace := .nil

theorem record (h : r.Renamed R r') {t t' : Trace} (ht : t.Renamed R t') :
    (r.record t).Renamed R (r'.record t') where
  control := h.control
  env := h.env
  stack := h.stack
  trace := List.rel_append h.trace (.cons ht .nil)

theorem recordReturn (h : r.Renamed R r') {v v' : Value} (hv : v.Renamed R v') :
    (r.recordReturn v).Renamed R (r'.recordReturn v') := by
  unfold Running.recordReturn
  rw [Stack.recordsReturn_renamed h.stack]
  split
  · exact h.record (.ret hv)
  · exact h

theorem rejoin (h : r.Renamed R r') {f f' : Frame} (hf : f.Renamed R f') :
    (r.rejoin f).Renamed R (r'.rejoin f') where
  control := h.control
  env := h.env
  stack := h.stack
  trace := List.rel_append hf.trace h.trace

theorem resume (h : r.Renamed R r') {f f' : Frame} {env env' : Environment} {e e' : Computation}
    (hf : f.Renamed R f') (henv : env.Renamed R env') (he : e.Renamed R e') :
    (r.resume f env e).Renamed R (r'.resume f' env' e') where
  control := he
  env := henv
  stack := h.stack
  trace := List.rel_append hf.trace h.trace

theorem returning (h : r.Renamed R r') {v v' : Value} (hv : v.Renamed R v') :
    (r.returning v).Renamed R (r'.returning v') :=
  { h with control := .returned hv }

theorem withControl (h : r.Renamed R r') {e e' : Computation} (he : e.Renamed R e') :
    Running.Renamed R { r with control := e } { r' with control := e' } :=
  { h with control := he }

theorem pop (h : r.Renamed R r') {rest rest' : Stack}
    (hrest : List.Forall₂ (Frame.Renamed R) rest rest') :
    Running.Renamed R { r with stack := rest } { r' with stack := rest' } :=
  { h with stack := hrest }

end Running.Renamed

/-!
## Endings of a step
-/

namespace Attempt.Renamed

variable {α α' : Type} {store store' : Store} {r r' : Running}

theorem moved (hstore : store.Renamed R store') (hr : r.Renamed R r') :
    (Attempt.moved store r).Renamed R (Attempt.moved store' r') :=
  ⟨.moved, hstore, hr⟩

theorem failed (hstore : store.Renamed R store') (hr : r.Renamed R r') {f f' : Failure}
    (hf : f.Renamed R f') : Attempt.Renamed R ⟨.failed f, store, r⟩ ⟨.failed f', store', r'⟩ :=
  ⟨.failed hf, hstore, hr⟩

theorem fault (hstore : store.Renamed R store') (hr : r.Renamed R r') {f f' : Fault}
    (hf : f.Renamed R f') : (Attempt.fault store r f).Renamed R (Attempt.fault store' r' f') :=
  failed hstore hr (.fault hf)

theorem signal (hstore : store.Renamed R store') (hr : r.Renamed R r') {s s' : Signal}
    (hs : s.Renamed R s') : Attempt.Renamed R ⟨.signal s, store, r⟩ ⟨.signal s', store', r'⟩ :=
  ⟨.signal hs, hstore, hr⟩

theorem proceed (hstore : store.Renamed R store') (hr : r.Renamed R r')
    {holds : α -> α' -> Prop} {x : Except Failure α} {x' : Except Failure α'}
    {next : α -> Attempt} {next' : α' -> Attempt} (hx : Mirrors R holds x x')
    (hnext : ∀ a a', holds a a' -> (next a).Renamed R (next' a')) :
    (Attempt.proceed store r x next).Renamed R (Attempt.proceed store' r' x' next') := by
  cases hx with
  | ok h => exact hnext _ _ h
  | error h => exact failed hstore hr h

theorem ask (hstore : store.Renamed R store') (hr : r.Renamed R r')
    {holds : α -> α' -> Prop} {x : Except Lack α} {x' : Except Lack α'}
    {next : α -> Attempt} {next' : α' -> Attempt} (hx : Tally Eq holds x x')
    (hnext : ∀ a a', holds a a' -> (next a).Renamed R (next' a')) :
    (Attempt.ask store r x next).Renamed R (Attempt.ask store' r' x' next') :=
  proceed hstore hr (.ofLack hx) hnext

theorem seek (hstore : store.Renamed R store') (hr : r.Renamed R r') {s s' : Symbol}
    {next next' : Symbol -> Attempt} (hs : s = s')
    (hnext : ∀ s, (next s).Renamed R (next' s)) :
    (Attempt.seek store r s next).Renamed R (Attempt.seek store' r' s' next') := by
  subst hs
  have hkey : Mirrors R Eq (Failure.ofBreakage s.asKey) (Failure.ofBreakage s.asKey) := by
    cases s.asKey with
    | ok t => exact Tally.ok rfl
    | error b => exact Tally.error (.breakage b)
  refine proceed hstore hr hkey fun t t' ht => ?_
  cases ht
  exact hnext t

end Attempt.Renamed

/-!
## Steps
-/

namespace Running.Renamed

open Attempt.Renamed (moved fault signal failed proceed ask seek)

variable {store store' : Store} {r r' : Running}

theorem deliver (hR : Relator.BiUnique R) (hstore : store.Renamed R store')
    (hr : r.Renamed R r') {v v' : Value} (hv : v.Renamed R v') :
    (Running.deliver store r v).Renamed R (Running.deliver store' r' v') := by
  unfold Running.deliver
  have hstack := hr.stack
  generalize r.stack = stack, r'.stack = stack' at hstack ⊢
  cases hstack with
  | nil => exact signal hstore hr (.halt hv)
  | cons hframe hrest =>
      have hpop := hr.pop hrest
      refine ask hstore hpop hframe.context fun c c' hc => ?_
      cases hc with
      | nest s =>
          have htrace := List.rel_append hframe.trace (.cons (.nest s hr.trace) .nil)
          exact moved hstore { hpop with trace := htrace }
      | bind henv hp he =>
          refine proceed hstore hpop (hp.bind hR hv henv) fun env env' henv => ?_
          exact moved hstore (hpop.resume hframe henv he)
      | bindBox henv hp hbox he =>
          cases hv with
          | box hb =>
              cases hp with
              | «variable» hx =>
                  -- The name of a box belongs to itself, so both sides bind the same name.
                  have hself := hbox _ rfl
                  cases hR.2 hx hself
                  refine ask hstore hpop (henv.bindBox hself hb) fun env env' henv => ?_
                  exact moved hstore (hpop.resume hframe henv he)
              | ignore => exact moved hstore (hpop.resume hframe henv he)
              | _ => exact fault hstore hpop .noStep
          | _ => exact fault hstore hpop .noStep
      | argument | label => exact fault hstore hpop .noStep

theorem enter (hR : Relator.BiUnique R) (hstore : store.Renamed R store')
    (hr : r.Renamed R r') {p p' : Pattern} {e e' : Computation} (hp : p.Renamed R p')
    (he : e.Renamed R e') :
    (Running.enter store r p e).Renamed R (Running.enter store' r' p' e') := by
  unfold Running.enter
  have hstack := hr.stack
  generalize r.stack = stack, r'.stack = stack' at hstack ⊢
  cases hstack with
  | nil => exact fault hstore hr .noStep
  | cons hframe hrest =>
      have hpop := hr.pop hrest
      refine ask hstore hpop hframe.context fun c c' hc => ?_
      cases hc with
      | argument hv =>
          refine proceed hstore hpop (hp.bind hR hv hr.env) fun env env' henv => ?_
          exact moved hstore (hpop.resume hframe henv he)
      | _ => exact fault hstore hpop .noStep

theorem choose (hR : Relator.BiUnique R) (hstore : store.Renamed R store')
    (hr : r.Renamed R r') {bs bs' : Branches} (hbs : bs.Renamed R bs') :
    (Running.choose store r bs).Renamed R (Running.choose store' r' bs') := by
  unfold Running.choose
  have hstack := hr.stack
  generalize r.stack = stack, r'.stack = stack' at hstack ⊢
  cases hstack with
  | nil => exact fault hstore hr .noStep
  | cons hframe hrest =>
      have hpop := hr.pop hrest
      refine ask hstore hpop hframe.context fun c c' hc => ?_
      cases hc with
      | label hv =>
          refine proceed hstore hpop hv.toSymbol fun s s' hs => ?_
          cases hs
          refine proceed hstore hpop (hbs.select hR hr.env) fun part part' hpart => ?_
          have hrejoin := hpop.rejoin hframe
          refine ask hstore hrejoin hpart.body fun e e' he => ?_
          exact moved hstore (hrejoin.withControl he)
      | _ => exact fault hstore hpop .noStep

theorem reduce_link (hR : Relator.BiUnique R) (hstore : store.Renamed R store')
    (hr : r.Renamed R r') {v v' : Value} (hv : v.Renamed R v') :
    (Running.reduce store r (.link v)).Renamed R (Running.reduce store' r' (.link v')) := by
  refine proceed hstore hr (hv.resolve hR hr.env) fun w w' hw => ?_
  cases hw with
  | symbol s =>
      refine seek hstore hr rfl fun s => ?_
      rw [hstore.contains s]
      split
      · exact moved hstore ((hr.record (.link (.symbol s) (.pointer s))).returning (.pointer s))
      · exact signal hstore (hr.withControl (.link (.symbol s))) (.awaitEntry s)
  | process s => exact signal hstore hr (.awaitHalt s)
  | _ => exact fault hstore hr (.notLinkTarget (by constructor <;> assumption))

theorem reduce_switch (hR : Relator.BiUnique R) (hstore : store.Renamed R store')
    (hr : r.Renamed R r') {v v' : Value} {cs cs' : Cases} (hv : v.Renamed R v')
    (hcs : cs.Renamed R cs') :
    (Running.reduce store r (.switch v cs)).Renamed R
      (Running.reduce store' r' (.switch v' cs')) := by
  refine proceed hstore hr (hv.resolve hR hr.env) fun w w' hw => ?_
  cases hw with
  | variant hl hpayload =>
      refine proceed hstore hr hl.toSymbol fun s s' hs => ?_
      cases hs
      refine proceed hstore hr (hcs.select hR hr.env) fun part part' hpart => ?_
      refine proceed hstore hr (hpart.bind hR hpayload hr.env) fun env env' henv => ?_
      have hscope : Running.Renamed R { r with env } { r' with env := env' } :=
        { hr with env := henv }
      refine ask hstore hscope hpart.body fun e e' he => ?_
      exact moved hstore (hscope.withControl he)
  | _ => exact fault hstore hr (.switchNotVariant (by constructor <;> assumption))

theorem reduce_extract (hR : Relator.BiUnique R) (hstore : store.Renamed R store')
    (hr : r.Renamed R r') {v v' : Value} (hv : v.Renamed R v') :
    (Running.reduce store r (.extract v)).Renamed R
      (Running.reduce store' r' (.extract v')) := by
  cases hv with
  | «variable» hx =>
      refine ask hstore hr hr.env.boxes fun bs bs' hbs => ?_
      have hfound := hbs.get? hR hx
      generalize bs.get? _ = found, bs'.get? _ = found' at hfound ⊢
      cases hfound with
      | none => exact fault hstore hr (.undefinedBox hx)
      | some hb =>
          refine ask hstore hr (hb.unpack hR) fun u u' hu => ?_
          exact moved hstore { hr with control := hu.1, env := hu.2 }
  | _ => exact fault hstore hr .noStep

theorem reduce (hR : Relator.BiUnique R) (hstore : store.Renamed R store')
    (hr : r.Renamed R r') {e e' : Computation} (he : e.Renamed R e') :
    (Running.reduce store r e).Renamed R (Running.reduce store' r' e') := by
  cases he with
  | hole => exact failed hstore hr (.breakage .holeAtHead)
  | ret hv =>
      refine proceed hstore hr (hv.resolve hR hr.env) fun w w' hw => ?_
      refine ask hstore hr (Stack.checkTop_renamed hr.stack) fun _ _ _ => ?_
      exact deliver hR hstore ((hr.recordReturn hw).returning hw) hw
  | returned hv => exact deliver hR hstore hr hv
  | nest hv he =>
      refine proceed hstore hr (hv.resolveSymbol hR hr.env) fun s s' hs => ?_
      cases hs
      exact moved hstore (hr.push (.nest s) he)
  | spawn hv he =>
      refine proceed hstore hr (hv.resolveSymbol hR hr.env) fun s s' hs => ?_
      cases hs
      refine ask hstore hr (Stack.check_renamed hr.stack) fun _ _ _ => ?_
      refine seek hstore hr (Stack.qualify_renamed hr.stack s) fun name => ?_
      rw [hstore.contains name]
      split
      · exact fault hstore hr (.duplicateName name)
      · exact signal hstore (hr.returning (.process name)) (.spawn name hr.env he)
  | bind hp he₁ he₂ => exact moved hstore (hr.push (.bind hr.env hp he₂) he₁)
  | bindBox hp hbox he₁ he₂ =>
      have hpush := hr.push (.bindBox hr.env hp hbox he₂) he₁
      cases hp with
      | ignore | «variable» => exact moved hstore hpush
      | _ => exact fault hstore hr .noStep
  | extract hv => exact reduce_extract hR hstore hr hv
  | lambda hp he => exact enter hR hstore hr hp he
  | branches hbs => exact choose hR hstore hr hbs
  | apply he hv =>
      refine proceed hstore hr (hv.resolve hR hr.env) fun w w' hw => ?_
      exact moved hstore (hr.push (.argument hw) he)
  | project he hv =>
      refine proceed hstore hr (hv.resolve hR hr.env) fun w w' hw => ?_
      exact moved hstore (hr.push (.label hw) he)
  | put hs hv =>
      refine proceed hstore hr (hs.resolveSymbol hR hr.env) fun s s' hs => ?_
      cases hs
      refine proceed hstore hr (hv.resolve hR hr.env) fun w w' hw => ?_
      refine ask hstore hr (Stack.check_renamed hr.stack) fun _ _ _ => ?_
      have hname := Stack.qualify_renamed hr.stack s
      have hrecord : Running.Renamed R (r.record (.put (r.stack.qualify s) w))
          (r'.record (.put (r'.stack.qualify s) w')) := hr.record (hname ▸ .put _ hw)
      refine seek hstore hrecord hname fun name => ?_
      exact moved (hstore.insert name hw) (hrecord.returning (.pointer name))
  | get hv =>
      refine proceed hstore hr (hv.resolvePointer hR hr.env) fun s s' hs => ?_
      refine seek hstore hr hs fun s => ?_
      have hfound := hstore s
      generalize store.get? s = found, store'.get? s = found' at hfound ⊢
      cases hfound with
      | none => exact fault hstore hr (.undefinedEntry s)
      | some hw => exact moved hstore ((hr.record (.get s hw)).returning hw)
  | switch hv hcs => exact reduce_switch hR hstore hr hv hcs
  | link hv => exact reduce_link hR hstore hr hv
  | assert equal ha hb =>
      refine proceed hstore hr (ha.resolve hR hr.env) fun a a' ha => ?_
      refine proceed hstore hr (hb.resolve hR hr.env) fun b b' hb => ?_
      have heq : (a == b) = (a' == b') := by
        rw [Bool.eq_iff_iff, beq_iff_eq, beq_iff_eq]
        exact ha.eq_iff hR hb
      rw [heq]
      split
      · refine ask hstore hr (Stack.checkTop_renamed hr.stack) fun _ _ _ => ?_
        have hunit : Value.unit.Renamed R Value.unit := .record .nil
        exact moved hstore ((hr.recordReturn hunit).returning hunit)
      · exact fault hstore hr (.assertionFailed equal ha hb)

/-- Renamed processes take the same step. -/
theorem step (hR : Relator.BiUnique R) (hstore : store.Renamed R store') (hr : r.Renamed R r') :
    (Running.step store r).Renamed R (Running.step store' r') := by
  refine proceed hstore hr hr.control.head fun head head' hhead => ?_
  exact reduce hR hstore (hr.withControl hhead) hr.control

end Running.Renamed

end PushValue
