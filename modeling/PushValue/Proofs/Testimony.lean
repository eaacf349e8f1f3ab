import PushValue.Proofs.Ground.Run
import PushValue.Proofs.Jamming
import PushValue.Proofs.Lasting
import PushValue.Proofs.Motion

/-!
# What the trace of a halted process tells

A value is recorded where it leaves a process or a nest, and one that is put, got or linked
to is recorded at once.  Any other context consumes the value that is handed to it, so a
value that gets as far as the bottom of the stack has left an entry behind, and the nests
that it has passed since hold that entry last.  Only the handle of a spawned process is
returned without a record.
-/

namespace PushValue

/-!
## Last entries
-/

/-- An entry tells that a value came out of a step. -/
inductive Trace.Attests : Trace -> Value -> Prop where
  | ret (v : Value) : Attests (.ret v) v
  | get (s : Symbol) (v : Value) : Attests (.get s v) v
  | link (t v : Value) : Attests (.link t v) v
  | put (s : Symbol) (w : Value) : Attests (.put s w) (.pointer s)

namespace Trace

mutual

def opened : Trace -> List Trace
  | nest _ items => openedAll items
  | entry => [entry]

def openedAll : List Trace -> List Trace
  | [] => []
  | t :: rest => t.opened ++ openedAll rest

end

theorem openedAll_concat (ts : List Trace) (entry : Trace) :
    openedAll (ts ++ [entry]) = openedAll ts ++ entry.opened := by
  induction ts with
  | nil => exact List.append_nil _
  | cons t rest ih => rw [List.cons_append, openedAll, openedAll, ih, List.append_assoc]

/-- The last entry of a trace, once all nests are opened, attests a value. -/
def TellsLast (ts : List Trace) (v : Value) : Prop :=
  ∃ earlier entry, openedAll ts = earlier ++ [entry] ∧ entry.Attests v

variable {v : Value}

theorem tellsLast_concat (ts : List Trace) {entry : Trace} (h : entry.Attests v) :
    TellsLast (ts ++ [entry]) v := by
  refine ⟨openedAll ts, entry, ?_, h⟩
  rw [openedAll_concat]
  cases h with
  | ret | get | link | put => rfl

theorem TellsLast.nest {items : List Trace} (h : TellsLast items v) (ts : List Trace)
    (s : Symbol) : TellsLast (ts ++ [.nest s items]) v := by
  rcases h with ⟨earlier, entry, hitems, hentry⟩
  refine ⟨openedAll ts ++ earlier, entry, ?_, hentry⟩
  rw [openedAll_concat, opened, hitems, List.append_assoc]

end Trace

/-!
## Values on their way
-/

/-- A value that is about to leave the process or a nest is told last, unless it is a handle. -/
def Running.Vouches (r : Running) : Prop :=
  ∀ v, r.control = .returned v -> r.stack.recordsReturn -> (∀ s, v ≠ .process s) ->
    Trace.TellsLast r.trace v

def Stage.Vouches : Stage -> Prop
  | .running r | .awaitingEntry r _ => r.Vouches
  | .halted v ts => (∀ s, v ≠ .process s) -> Trace.TellsLast ts v
  | .pending _ | .awaitingHalt _ _ | .failed _ _ | .stray _ => True

section Steps

variable {store : Store} {r r' : Running} {v : Value} {a : Attempt}

/-- Without return markers in the program, what is yet to be done returns nothing by itself. -/
theorem Running.vouches_of_passes (h : r.control.passes .unmarked) : r.Vouches := by
  intro v hcontrol
  rw [hcontrol] at h
  cases h

theorem Running.vouches_of_tellsLast {control : Computation} {env : Environment} {stack : Stack}
    {trace : List Trace} (h : Trace.TellsLast trace v) (hcontrol : control = .returned v) :
    (Running.mk control env stack trace).Vouches := by
  intro w hw _ _
  cases hcontrol.symm.trans hw
  exact h

theorem Running.vouches_recordReturn (r : Running) (v : Value) :
    ((r.recordReturn v).returning v).Vouches := by
  intro w hw hrecords _
  cases hw
  change (r.recordReturn v).stack.recordsReturn at hrecords
  show Trace.TellsLast (r.recordReturn v).trace v
  rw [r.recordReturn_stack] at hrecords
  rw [r.recordReturn_trace, Stack.returnEntries, if_pos hrecords]
  exact Trace.tellsLast_concat _ (.ret v)

theorem Running.Hands.vouches (h : r.Hands v r') (hr : r.Vouches) : r'.Vouches := by
  cases h with
  | first hcontrol hu => exact r.vouches_recordReturn v
  | again hcontrol => exact hr

theorem Running.context_passes {S : Screen} {frame : Frame} {rest : Stack} {context : Context}
    (hr : r.passes S) (hstack : r.stack = frame :: rest)
    (hcontext : frame.context = .ok context) : context.passes S := by
  have hall := (Running.passes_iff.mp hr).2.2.1
  rw [hstack, List.all_cons, Bool.and_eq_true] at hall
  rcases Frame.exists_of_passes hall.1 with ⟨c, ts, rfl, hc, _⟩
  cases hcontext
  exact hc

theorem Box.passes_of_unpack {S : Screen} {b : Box} {code : Computation} {env : Environment}
    (hb : b.passes S) (h : b.unpack = .ok (code, env)) : code.passes S := by
  cases b with
  | mk code' self captured =>
      cases h
      exact (Bool.and_eq_true_iff.mp hb).1
  | stray o => cases h

theorem Reduction.vouches (h : Reduction store r a) (hr : r.passes .unmarked)
    (hvouches : r.Vouches) : a.running.Vouches := by
  rcases Running.passes_iff.mp hr with ⟨hpasses, henv, _, _⟩
  cases h with
  | halt hv hstack => exact hv.vouches hvouches
  | leave hv hstack hcontext =>
      intro w hw _ hother
      have hrecords : r.stack.recordsReturn := by rw [hstack, Stack.recordsReturn, hcontext]
      rw [← hv.stack_eq] at hrecords
      exact (hv.vouches hvouches w hw hrecords hother).nest _ _
  | bound hv hstack hcontext hp | boundBox hv hstack hcontext hp | droppedBox hv hstack hcontext =>
      have hbody := Running.context_passes hr hstack hcontext
      exact Running.vouches_of_passes (Bool.and_eq_true_iff.mp hbody).2
  | nest hcontrol hv | enter hcontrol hstack hcontext hp =>
      rw [hcontrol] at hpasses
      exact Running.vouches_of_passes (Bool.and_eq_true_iff.mp hpasses).2
  | apply hcontrol hv | project hcontrol hv =>
      rw [hcontrol] at hpasses
      exact Running.vouches_of_passes (Bool.and_eq_true_iff.mp hpasses).1
  | bind hcontrol | bindBox hcontrol hp =>
      rw [hcontrol] at hpasses
      have hbound := (Bool.and_eq_true_iff.mp hpasses).1
      exact Running.vouches_of_passes (Bool.and_eq_true_iff.mp hbound).2
  | extract hcontrol hboxes hb hcode =>
      rcases Environment.exists_of_passes henv with ⟨vs, bs, heq, _, hbs⟩
      rw [heq] at hboxes
      cases hboxes
      exact Running.vouches_of_passes (Box.passes_of_unpack (Boxes.passes_get? _ hbs hb) hcode)
  | @choose bs frame rest v s part body hcontrol hstack hcontext hv hpart hbody =>
      rw [hcontrol] at hpasses
      have hselected := (bs.select_meets henv s hpasses).of_eq_ok hpart
      have hchosen := (Part.body_meets (.inl rfl) hselected.2).of_eq_ok hbody
      exact Running.vouches_of_passes hchosen
  | @switch v l payload cs s part env body hcontrol hv hl hpart hbind hbody =>
      rw [hcontrol] at hpasses
      have hcases := (Bool.and_eq_true_iff.mp hpasses).2
      have hselected := (cs.select_meets henv s hcases).of_eq_ok hpart
      have hchosen := (Part.body_meets (.inl rfl) hselected.2).of_eq_ok hbody
      exact Running.vouches_of_passes hchosen
  | spawn hcontrol hv hfree =>
      intro w hw _ hother
      cases hw
      exact absurd rfl (hother _)
  | put hcontrol hn hv =>
      exact Running.vouches_of_tellsLast (Trace.tellsLast_concat _ (.put _ _)) rfl
  | get hcontrol hv hstored =>
      exact Running.vouches_of_tellsLast (Trace.tellsLast_concat _ (.get _ _)) rfl
  | link hcontrol hv hstored =>
      exact Running.vouches_of_tellsLast (Trace.tellsLast_concat _ (.link _ _)) rfl
  | awaitEntry hcontrol hv hmissing =>
      intro w hw
      cases hw
  | awaitHalt hcontrol hv => exact hvouches
  | assert hcontrol ha hb hequal => exact Running.vouches_recordReturn _ _

theorem Running.Vouches.step {r : Running} (hvouches : r.Vouches) (hr : r.passes .unmarked)
    (ha : r.step store = a) (h : ∀ f, a.outcome ≠ .failed f) : a.running.Vouches :=
  (Running.reduction_of_step ha h).vouches hr hvouches

end Steps

/-!
## Turns
-/

section Turns

variable {table : Processes} {store : Store} {p : Stage} {v : Visit}

theorem Running.Vouches.tellsLast_of_halt {r : Running} {a : Attempt} {w : Value}
    (hvouches : r.Vouches) (hr : r.passes .unmarked) (ha : r.step store = a)
    (houtcome : a.outcome = .signal (.halt w)) (hother : ∀ s, w ≠ .process s) :
    Trace.TellsLast a.running.trace w := by
  have hmoved := hvouches.step hr ha (by rw [houtcome]; intro f h; cases h)
  have hrule := Running.reduction_of_step ha (by rw [houtcome]; intro f h; cases h)
  cases hrule with
  | halt hv hstack =>
      cases houtcome
      have hrecords : r.stack.recordsReturn := by
        rw [hstack]
        rfl
      rw [← hv.stack_eq] at hrecords
      exact hmoved w hv.control_eq hrecords hother
  | _ => cases houtcome

theorem Running.passes_of_spawn {r : Running} {a : Attempt} {name : Symbol} {env : Environment}
    {body : Computation} (hr : r.passes .unmarked) (ha : r.step store = a)
    (houtcome : a.outcome = .signal (.spawn name env body)) : body.passes .unmarked := by
  have hcontrol := (Running.passes_iff.mp hr).1
  have hrule := Running.reduction_of_step ha (by rw [houtcome]; intro f h; cases h)
  cases hrule with
  | spawn hspawn hv hfree =>
      cases houtcome
      rw [hspawn] at hcontrol
      exact (Bool.and_eq_true_iff.mp hcontrol).2
  | _ => cases houtcome

theorem Turn.vouches (hturn : Turn table store p v) (hp : p.passes .unmarked)
    (hvouches : p.Vouches) : v.HandsOn Stage.Vouches := by
  cases hturn with
  | start body => exact Visit.handsOn_moved (Running.vouches_of_passes hp)
  | step ha houtcome | parkForEntry ha houtcome =>
      have hmoved := hvouches.step hp ha (by rw [houtcome]; intro f h; cases h)
      exact Visit.handsOn_moved hmoved
  | halt ha houtcome =>
      exact Visit.handsOn_moved (hvouches.tellsLast_of_halt hp ha houtcome)
  | parkForHalt | clash | fail | orphan => exact Visit.handsOn_moved trivial
  | spawn ha houtcome hfree =>
      have hmoved := hvouches.step hp ha (by rw [houtcome]; intro f h; cases h)
      have hbody := Running.passes_of_spawn hp ha houtcome
      exact Visit.handsOn_spawned hmoved (Running.vouches_of_passes hbody)
  | wake hstored => exact Visit.handsOn_moved hvouches
  | @handOver r s w ts hhalted =>
      have hlinked := Trace.tellsLast_concat r.trace (.link (.process s) w)
      exact Visit.handsOn_moved (Running.vouches_of_tellsLast hlinked rfl)
  | breakOff | unfit => exact Visit.handsOn_broken
  | waitForEntry | waitForHalt | stayFailed | stayHalted => exact Visit.handsOn_resting

/-- What is left by a round that is given up: the processes that have halted tell what they
returned. -/
def Stage.HaltTold (p : Stage) : Prop :=
  ∀ w ts, p = .halted w ts -> p.Vouches

theorem Stage.vouches_lasts : Stage.LastsUnder .ground Stage.Vouches Stage.HaltTold where
  weaken p hp _ _ _ := hp
  handsOn := by
    intro table store p htable hstore hp hvouches
    exact (Turn.of_visit (Stage.ne_stray_of_passes hp.1)).vouches hp.1 hvouches
  left := by
    intro table store p hp hvouches w ts hleft
    have hhalted := (Turn.of_visit (Stage.ne_stray_of_passes hp.1)).eq_halted_of_left hleft
    rw [hleft, ← hhalted]
    exact hvouches

end Turns

/-!
## Runs
-/

namespace World

theorem tellsLast_of_completes {settings : Settings} {e : Computation} (he : e.passes .unmarked)
    {world : World} (hworld : ofComputation settings e = .ok world) {n : Nat}
    (hrounds : world.Completes n) {name : Symbol} {v : Value} {ts : List Trace}
    (hget : (world.after (n + 1)).processes.get? name = some (.halted v ts))
    (hv : ∀ s, v ≠ .process s) : Trace.TellsLast ts v := by
  rcases passes_of_ofComputation he hworld with ⟨body, rfl, hbody⟩
  have hinitial : Invariant.ground.Holds (initial body) := by
    apply Invariant.holds_initial
    exact ⟨hbody, Computation.isGroundControl_of_passes rfl hbody⟩
  have hpending : (initial body).processes.Holds Stage.Vouches :=
    Stage.Lasts.holds_initial trivial
  have htold := (Stage.vouches_lasts.holds_after hinitial hpending n hrounds).2 name _ hget
  exact htold v ts rfl hv

/-- A process that has halted with a value other than the handle of a process tells so at the end
of its trace.  With the entries inside each nest in its place, the last entry says that the value
was returned, got from the store, linked to, or is the pointer to what was put.  In the run of a
well-sorted program this holds in every world, also after rounds that broke at a hole.  In any other
run it holds in every world that completed rounds lead to, and in the one that the next round
leaves, even if it breaks. -/
theorem halted_trace_tells (settings : Settings) (e : Computation) (he : e.passes .unmarked)
    (world : World) (hworld : ofComputation settings e = .ok world) (n : Nat)
    (hrun : e.passes .sorted ∨ world.Completes n) (name : Symbol) (v : Value) (ts : List Trace)
    (hget : (world.after (n + 1)).processes.get? name = some (.halted v ts))
    (hv : ∀ s, v ≠ .process s) :
    ∃ earlier entry, Trace.openedAll ts = earlier ++ [entry] ∧ entry.Attests v := by
  rcases hrun with hsorted | hrounds
  · rcases passes_of_ofComputation hsorted hworld with ⟨body, rfl, hbody⟩
    rcases exists_completes_of_halted hbody hget with ⟨m, _, hrounds, hhalted⟩
    exact tellsLast_of_completes he hworld hrounds hhalted hv
  · exact tellsLast_of_completes he hworld hrounds hget hv

def getAcrossNests : Computation :=
  .bind .ignore
    (.spawn (.symbol (.name "h")) (.bind .ignore (.link (.process .anonymous)) .hole))
    (.bind (.variable "q")
      (.spawn (.symbol (.name "p"))
        (.nest (.symbol (.name "k")) (.put (.symbol (.name "a")) (.number 7))))
      (.nest (.symbol (.name "n"))
        (.bind (.variable "x") (.link (.variable "q"))
          (.nest (.symbol (.name "m")) (.get (.variable "x"))))))

theorem getAcrossNests_halted_tells :
    getAcrossNests.passes .unmarked ∧ getAcrossNests.passes .sorted ∧
      ∃ world us ts, ofComputation {} getAcrossNests = .ok world ∧
        (world.after 19).round.result = .error .holeAtHead ∧
        (world.after 21).processes.get? (.name "p") =
          some (.halted (.pointer (.within (.name "k") (.name "a"))) us) ∧
        (∃ earlier entry, Trace.openedAll us = earlier ++ [entry] ∧
          entry.Attests (.pointer (.within (.name "k") (.name "a")))) ∧
        (world.after 21).processes.get? .anonymous = some (.halted (.number 7) ts) ∧
        ts.length = 1 ∧
        ∃ earlier entry, Trace.openedAll ts = earlier ++ [entry] ∧ entry.Attests (.number 7) := by
  refine ⟨rfl, rfl, _, _, _, rfl, rfl, rfl, ?_, rfl, rfl, ?_⟩
  · apply halted_trace_tells {} getAcrossNests rfl _ rfl 20 (.inl rfl) (.name "p") _ _ rfl
    intro s h
    cases h
  · apply halted_trace_tells {} getAcrossNests rfl _ rfl 20 (.inl rfl) .anonymous _ _ rfl
    intro s h
    cases h

end World

end PushValue
