import PushValue.Proofs.Reduction

/-!
# What a step does to the stack and to the trace

A step that does not fail adds entries to the trace, enters a context, or leaves one.  A context
that is entered takes the trace with it, and one that is left gives it back: a nest wraps up what
was recorded inside it, and any other context has the two parts of the trace joined again.
-/

namespace PushValue

/-- The entries that a process with the given stack records.  What it puts goes under a name inside
all its nests. -/
def Stack.Notes (stack : Stack) : Trace -> Prop
  | .put name _ => ∃ s, name = stack.qualify s
  | .ret _ | .get _ _ | .link _ _ => True
  | .sequence _ | .nest _ _ | .stray _ => False

/-- The ways in which a step leads from a stack and a trace to those of a process. -/
inductive Motion (stack : Stack) (trace : List Trace) (r : Running) : Prop where
  | record (entries : List Trace) (hentries : ∀ t ∈ entries, stack.Notes t)
      (hstack : r.stack = stack) (htrace : r.trace = trace ++ entries)
  | push (context : Context) (hstack : r.stack = .mk context trace :: stack)
      (htrace : r.trace = [])
  | rejoin {frame : Frame} {rest : Stack} {context : Context} (hframe : stack = frame :: rest)
      (hcontext : frame.context = .ok context) (hother : ∀ s, context ≠ .nest s)
      (hstack : r.stack = rest) (htrace : r.trace = frame.trace ++ trace)
  | leave {frame : Frame} {rest : Stack} {s : Symbol} (entries : List Trace)
      (hentries : ∀ t ∈ entries, stack.Notes t) (hframe : stack = frame :: rest)
      (hcontext : frame.context = .ok (.nest s)) (hstack : r.stack = rest)
      (htrace : r.trace = frame.trace ++ [.nest s (trace ++ entries)])

def Attempt.Moves (stack : Stack) (trace : List Trace) (a : Attempt) : Prop :=
  (∀ f, a.outcome ≠ .failed f) -> Motion stack trace a.running

section Steps

variable {stack rest : Stack} {trace : List Trace} {store : Store} {r r' : Running} {v : Value}

/-!
## Values that are handed over
-/

theorem Stack.recordsReturn_eq_false {frame : Frame} {context : Context}
    (hcontext : frame.context = .ok context) (hother : ∀ s, context ≠ .nest s) :
    Stack.recordsReturn (frame :: rest) = false := by
  rw [Stack.recordsReturn, hcontext]
  cases context with
  | nest s => exact absurd rfl (hother s)
  | _ => rfl

def Stack.returnEntries (stack : Stack) (v : Value) : List Trace :=
  if stack.recordsReturn then [.ret v] else []

theorem Stack.notes_returnEntries (stack : Stack) (v : Value) :
    ∀ t ∈ stack.returnEntries v, stack.Notes t := by
  unfold returnEntries
  split
  · exact List.forall_mem_singleton.mpr trivial
  · exact List.forall_mem_nil _

theorem Running.recordReturn_trace (r : Running) (v : Value) :
    (r.recordReturn v).trace = r.trace ++ r.stack.returnEntries v := by
  unfold recordReturn Stack.returnEntries
  split
  · rfl
  · exact (List.append_nil _).symm

theorem Running.Hands.stack_eq (h : r.Hands v r') : r'.stack = r.stack := by
  cases h with
  | first hcontrol hu => exact r.recordReturn_stack v
  | again hcontrol => rfl

theorem Running.Hands.exists_trace_eq (h : r.Hands v r') :
    ∃ entries, (∀ t ∈ entries, r.stack.Notes t) ∧
      (r.stack.recordsReturn = false -> entries = []) ∧ r'.trace = r.trace ++ entries := by
  cases h with
  | first hcontrol hu =>
      refine ⟨r.stack.returnEntries v, r.stack.notes_returnEntries v, ?_, r.recordReturn_trace v⟩
      intro hnone
      rw [Stack.returnEntries, hnone]
      rfl
  | again hcontrol => exact ⟨[], List.forall_mem_nil _, fun _ => rfl, (List.append_nil _).symm⟩

/-!
## Motions
-/

namespace Motion

theorem still (hstack : r.stack = stack) (htrace : r.trace = trace) : Motion stack trace r := by
  apply Motion.record []
  · exact List.forall_mem_nil _
  · exact hstack
  · rw [htrace, List.append_nil]

theorem note {entry : Trace} (hstack : r.stack = stack)
    (htrace : r.trace = trace ++ [entry]) (hentry : stack.Notes entry) : Motion stack trace r :=
  .record [entry] (List.forall_mem_singleton.mpr hentry) hstack htrace

/-- All contexts but a nest join the two parts of the trace, and nothing new is in them. -/
theorem resume {frame : Frame} {context : Context} (hv : r.Hands v r')
    (hstack : r.stack = frame :: rest) (hcontext : frame.context = .ok context)
    (hother : ∀ s, context ≠ .nest s) (env : Environment) (next : Computation) :
    Motion r.stack r.trace (Running.resume { r' with stack := rest } frame env next) := by
  obtain ⟨entries, _, hnone, htrace⟩ := hv.exists_trace_eq
  have hentries : entries = [] := by
    apply hnone
    rw [hstack]
    exact Stack.recordsReturn_eq_false hcontext hother
  apply Motion.rejoin hstack hcontext hother rfl
  show frame.trace ++ r'.trace = frame.trace ++ r.trace
  rw [htrace, hentries, List.append_nil]

end Motion

theorem Reduction.motion {a : Attempt} (h : Reduction store r a) :
    Motion r.stack r.trace a.running := by
  cases h with
  | halt hv hstack =>
      obtain ⟨entries, hentries, _, htrace⟩ := hv.exists_trace_eq
      exact .record entries hentries hv.stack_eq htrace
  | leave hv hstack hcontext =>
      obtain ⟨entries, hentries, _, htrace⟩ := hv.exists_trace_eq
      refine .leave entries hentries hstack hcontext rfl ?_
      rw [← htrace]
      rfl
  | bound hv hstack hcontext hp =>
      exact .resume hv hstack hcontext (by intro s h; cases h) _ _
  | boundBox hv hstack hcontext hx =>
      exact .resume hv hstack hcontext (by intro s h; cases h) _ _
  | droppedBox hv hstack hcontext =>
      exact .resume hv hstack hcontext (by intro s h; cases h) _ _
  | enter hcontrol hstack hcontext hp | choose hcontrol hstack hcontext hv hpart hbody =>
      exact .rejoin hstack hcontext (by intro s h; cases h) rfl rfl
  | nest hcontrol hv | bind hcontrol | bindBox hcontrol hp | apply hcontrol hv
  | project hcontrol hv => exact .push _ rfl rfl
  | put hcontrol hn hv => exact .note rfl rfl ⟨_, rfl⟩
  | get hcontrol hv hstored | link hcontrol hv hstored => exact .note rfl rfl trivial
  | spawn hcontrol hv hfree | extract hcontrol hboxes hb hcode
  | switch hcontrol hv hl hpart hbind hbody | awaitEntry hcontrol hv hmissing
  | awaitHalt hcontrol hv => exact .still rfl rfl
  | assert hcontrol ha hb hequal =>
      exact .record _ (r.stack.notes_returnEntries .unit) (r.recordReturn_stack .unit)
        (r.recordReturn_trace .unit)

/-- Every step that does not fail is a motion of the list. -/
theorem Running.step_moves (store : Store) (r : Running) :
    (r.step store).Moves r.stack r.trace :=
  fun h => (r.step_reduction store h).motion

end Steps

end PushValue
