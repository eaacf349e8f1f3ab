import PushValue.Process.Stage

/-!
# Histories

The history of a process is what its traces record, in order: the traces saved with the
frames of its stack, from the outermost frame to the innermost, and then the trace
gathered since.  What was recorded inside a nest stands in the place of the nest.
-/

namespace PushValue

namespace Trace

mutual

/-- The entries of a trace, with those inside a nest or a sequence in its place. -/
def flat : Trace -> List Trace
  | sequence items | nest _ items => flatAll items
  | entry => [entry]

def flatAll : List Trace -> List Trace
  | [] => []
  | t :: rest => t.flat ++ flatAll rest

end

theorem flatAll_append (ts us : List Trace) : flatAll (ts ++ us) = flatAll ts ++ flatAll us := by
  induction ts with
  | nil => rfl
  | cons t rest ih => rw [List.cons_append, flatAll, flatAll, ih, List.append_assoc]

end Trace

/-- What the frames of a stack have saved, the outermost first. -/
def Stack.history : Stack -> List Trace
  | [] => []
  | frame :: rest => Stack.history rest ++ Trace.flatAll frame.trace

def Running.history (r : Running) : List Trace := r.stack.history ++ Trace.flatAll r.trace

def Stage.history : Stage -> List Trace
  | .running r | .awaitingEntry r _ | .awaitingHalt r _ | .failed r _ => r.history
  | .halted _ ts => Trace.flatAll ts
  | .pending _ | .stray _ => []

namespace Running

variable {r : Running} {frame : Frame} {rest : Stack}

theorem history_record (r : Running) (entry : Trace) :
    (r.record entry).history = r.history ++ entry.flat := by
  show r.stack.history ++ Trace.flatAll (r.trace ++ [entry]) = _
  rw [Trace.flatAll_append, ← List.append_assoc]
  simp only [Trace.flatAll, List.append_nil]
  rfl

theorem history_push (r : Running) (context : Context) (next : Computation) :
    (r.push context next).history = r.history := by
  show (r.stack.history ++ Trace.flatAll r.trace) ++ [] = r.history
  rw [List.append_nil]
  rfl

theorem history_rejoin (hstack : r.stack = frame :: rest) :
    (Running.rejoin { r with stack := rest } frame).history = r.history := by
  show rest.history ++ Trace.flatAll (frame.trace ++ r.trace) = _
  rw [Trace.flatAll_append, ← List.append_assoc, history, hstack]
  rfl

/-- Leaving a nest makes one entry of what was recorded inside it. -/
theorem history_leave (hstack : r.stack = frame :: rest) (s : Symbol) :
    Running.history { r with stack := rest, trace := frame.trace ++ [.nest s r.trace] } =
      r.history := by
  show rest.history ++ Trace.flatAll (frame.trace ++ [.nest s r.trace]) = _
  rw [Trace.flatAll_append, ← List.append_assoc, history, hstack]
  simp only [Trace.flatAll, Trace.flat, List.append_nil]
  rfl

/-- A frame that is taken off the stack takes its trace with it. -/
theorem mem_history_of_pop (hstack : r.stack = frame :: rest) {entry : Trace}
    (h : entry ∈ Running.history { r with stack := rest }) : entry ∈ r.history := by
  rw [history, hstack, Stack.history, List.append_assoc]
  rcases List.mem_append.mp h with hsaved | hrecent
  · exact List.mem_append_left _ hsaved
  · exact List.mem_append_right _ (List.mem_append_right _ hrecent)

end Running

end PushValue
