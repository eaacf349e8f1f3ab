import PushValue.Proofs.Lasting
import PushValue.Proofs.Motion
import PushValue.Proofs.Reference

/-!
# Nests in traces and in keys

A process puts entries under names inside the nests that it runs in.  The nests are on its stack at
the time, and later they are in its trace: a nest that is left becomes an entry that holds what was
recorded inside it.  So the nests around an entry of the trace, those that are still on the stack
and those that have become entries, are at every time the ones that its name is inside of.
-/

namespace PushValue

def Symbol.inside (path : List Symbol) (s : Symbol) : Symbol := path.foldr .within s

def Frame.nests (frame : Frame) : List Symbol :=
  match frame.context with
  | .ok (.nest s) => [s]
  | _ => []

def Stack.path : Stack -> List Symbol
  | [] => []
  | frame :: rest => path rest ++ frame.nests

namespace Trace

mutual

/-- Whatever was put by an entry with the given nests around it has a name inside of them. -/
def Keyed (path : List Symbol) : Trace -> Prop
  | put name _ => ∃ s, name = Symbol.inside path s
  | nest s items => KeyedAll (path ++ [s]) items
  | sequence items => KeyedAll path items
  | ret _ | get _ _ | link _ _ => True
  | stray _ => False

def KeyedAll (path : List Symbol) : List Trace -> Prop
  | [] => True
  | t :: rest => t.Keyed path ∧ KeyedAll path rest

end

end Trace

/-- The traces that the frames of a stack have saved are keyed by the nests below the frame. -/
def Stack.Keyed : Stack -> Prop
  | [] => True
  | frame :: rest => Trace.KeyedAll (path rest) frame.trace ∧ Keyed rest

def Running.Keyed (r : Running) : Prop :=
  r.stack.Keyed ∧ Trace.KeyedAll r.stack.path r.trace

def Stage.Keyed : Stage -> Prop
  | .running r | .awaitingEntry r _ | .awaitingHalt r _ => r.Keyed
  | .halted _ ts => Trace.KeyedAll [] ts
  | .pending _ | .failed _ _ => True
  | .stray _ => False

/-!
## Names and nests
-/

section Nests

variable {stack rest : Stack} {frame : Frame} {path : List Symbol} {s : Symbol}

theorem Stack.path_nest (hcontext : frame.context = .ok (.nest s)) :
    Stack.path (frame :: rest) = rest.path ++ [s] := by
  rw [Stack.path, Frame.nests, hcontext]

theorem Stack.path_other {context : Context} (hcontext : frame.context = .ok context)
    (hother : ∀ s, context ≠ .nest s) : Stack.path (frame :: rest) = rest.path := by
  have hnests : frame.nests = [] := by
    rw [Frame.nests, hcontext]
    cases context with
    | nest s => exact absurd rfl (hother s)
    | _ => rfl
  rw [Stack.path, hnests, List.append_nil]

theorem Symbol.inside_concat (path : List Symbol) (n s : Symbol) :
    Symbol.inside (path ++ [n]) s = Symbol.inside path (.within n s) := by
  unfold Symbol.inside
  rw [List.foldr_append]
  rfl

theorem Stack.qualify_eq_inside (stack : Stack) (s : Symbol) :
    stack.qualify s = Symbol.inside stack.path s := by
  induction stack generalizing s with
  | nil => rfl
  | cons frame rest ih =>
      rw [Stack.qualify, Stack.path, Frame.nests]
      cases frame.context with
      | error l => simp only [List.append_nil, ih]
      | ok context => cases context <;> simp only [List.append_nil, ih, Symbol.inside_concat]

theorem Trace.keyedAll_append {ts us : List Trace} :
    Trace.KeyedAll path (ts ++ us) ↔ Trace.KeyedAll path ts ∧ Trace.KeyedAll path us := by
  induction ts with
  | nil => simp only [List.nil_append, KeyedAll, true_and]
  | cons t rest ih => rw [List.cons_append, KeyedAll, KeyedAll, ih, and_assoc]

theorem Stack.Notes.keyed {t : Trace} (h : stack.Notes t) : t.Keyed stack.path := by
  cases t with
  | put name v =>
      rcases h with ⟨s, rfl⟩
      exact ⟨s, stack.qualify_eq_inside s⟩
  | ret | get | link => trivial
  | sequence | nest | stray => exact h.elim

theorem Stack.keyedAll_of_notes {entries : List Trace} (h : ∀ t ∈ entries, stack.Notes t) :
    Trace.KeyedAll stack.path entries := by
  induction entries with
  | nil => trivial
  | cons t rest ih =>
      rw [List.forall_mem_cons] at h
      exact ⟨h.1.keyed, ih h.2⟩

end Nests

/-!
## Steps
-/

theorem Motion.keyed {r r' : Running} (h : Motion r.stack r.trace r') (hr : r.Keyed) :
    r'.Keyed := by
  rcases hr with ⟨hsaved, hrecent⟩
  unfold Running.Keyed
  cases h with
  | record entries hentries hstack htrace =>
      rw [hstack, htrace, Trace.keyedAll_append]
      exact ⟨hsaved, hrecent, Stack.keyedAll_of_notes hentries⟩
  | push context hstack htrace =>
      rw [hstack, htrace]
      exact ⟨⟨hrecent, hsaved⟩, trivial⟩
  | rejoin hframe hcontext hother hstack htrace =>
      rw [hframe] at hsaved hrecent
      rw [Stack.path_other hcontext hother] at hrecent
      rw [hstack, htrace, Trace.keyedAll_append]
      exact ⟨hsaved.2, hsaved.1, hrecent⟩
  | leave entries hentries hframe hcontext hstack htrace =>
      have hnoted := Stack.keyedAll_of_notes hentries
      rw [hframe] at hsaved hrecent hnoted
      rw [Stack.path_nest hcontext] at hrecent hnoted
      rw [hstack, htrace, Trace.keyedAll_append]
      have hinner := Trace.keyedAll_append.mpr ⟨hrecent, hnoted⟩
      exact ⟨hsaved.2, hsaved.1, hinner, trivial⟩

theorem Running.keyed_start (body : Computation) (env : Environment) :
    (Running.start body env).Keyed := ⟨trivial, trivial⟩

theorem Running.Keyed.step {store : Store} {r : Running} {a : Attempt} (hr : r.Keyed)
    (ha : r.step store = a) (h : ∀ f, a.outcome ≠ .failed f) : a.running.Keyed := by
  rw [← ha] at h ⊢
  exact (Running.step_moves store r h).keyed hr

theorem Turn.keyed {table : Processes} {store : Store} {p : Stage} {v : Visit}
    (hturn : Turn table store p v) (hp : p.Keyed) : v.HandsOn Stage.Keyed := by
  cases hturn with
  | start body => exact Visit.handsOn_moved (Running.keyed_start body _)
  | step ha houtcome =>
      have hmoved := hp.step ha (by rw [houtcome]; intro f h; cases h)
      exact Visit.handsOn_moved hmoved
  | halt ha houtcome =>
      have hmoved := hp.step ha (by rw [houtcome]; intro f h; cases h)
      have hstack := Effect.stack_of_halt (ha ▸ Running.step_effect _ _) houtcome
      have htrace := hmoved.2
      rw [hstack] at htrace
      exact Visit.handsOn_moved htrace
  | parkForEntry ha houtcome | parkForHalt ha houtcome =>
      have hmoved := hp.step ha (by rw [houtcome]; intro f h; cases h)
      exact Visit.handsOn_moved hmoved
  | spawn ha houtcome hfree =>
      have hmoved := hp.step ha (by rw [houtcome]; intro f h; cases h)
      exact Visit.handsOn_spawned hmoved (Running.keyed_start _ _)
  | clash | fail | orphan => exact Visit.handsOn_moved trivial
  | breakOff | unfit => exact Visit.handsOn_broken
  | wake => exact Visit.handsOn_moved hp
  | @handOver r s w ts hhalted =>
      have hlinked : Motion r.stack r.trace ((r.record (.link (.process s) w)).returning w) :=
        .note rfl rfl trivial
      exact Visit.handsOn_moved (hlinked.keyed hp)
  | waitForEntry | waitForHalt | stayFailed | stayHalted => exact Visit.handsOn_resting

theorem Stage.keyed_lasts : Stage.Lasts Stage.Keyed := by
  intro table store p hp
  have hstage : ∀ o, p ≠ .stray o := by
    rintro o rfl
    exact hp.elim
  exact (Turn.of_visit hstage).keyed hp

/-!
## Runs
-/

namespace World

/-- In every world that completed rounds lead to, and in every process that has not failed, what was
put has a name inside the nests around its entry in the trace.  Around an entry are the nests on the
stack below the frame that saved it, or all of them if no frame has, and then the nests in the trace
that hold it.  A round that breaks is never over, and a process that has just failed in it is found
as if it still ran, so the rounds have to be completed. -/
theorem puts_inside_nests (settings : Settings) (e : Computation) (world : World)
    (hworld : ofComputation settings e = .ok world) (n : Nat) (hrounds : world.Completes n)
    (name : Symbol) (p : Stage) (hget : (world.after n).processes.get? name = some p) :
    p.Keyed := by
  rcases exists_of_ofComputation hworld with ⟨e', bs, supply, _hoisted, rfl⟩
  exact Stage.keyed_lasts.holds_after (Stage.Lasts.holds_initial trivial) n hrounds name p hget

def nestedPuts : Computation :=
  .nest (.symbol (.name "n"))
    (.bind .ignore (.nest (.symbol (.name "m")) (.put (.symbol (.name "a")) (.number 1)))
      (.bind .ignore
        (.spawn (.symbol (.name "p"))
          (.nest (.symbol (.name "k")) (.put (.symbol (.name "b")) (.number 2))))
        (.bind (.variable "x") (.put (.symbol (.name "c")) (.number 3))
          (.link (.symbol (.name "d"))))))

theorem nestedPuts_puts_inside_nests :
    ∃ world, ofComputation {} nestedPuts = .ok world ∧ world.Completes 12 ∧
      (∃ r, (world.after 12).processes.get? .anonymous = some (.running r) ∧
        r.stack.path = [.name "n"] ∧
        r.history = [.put (.within (.name "n") (.within (.name "m") (.name "a"))) (.number 1),
          .put (.within (.name "n") (.name "c")) (.number 3)] ∧ r.Keyed) ∧
      ∃ p, (world.after 12).processes.get? (.within (.name "n") (.name "p")) = some p ∧
        p.history = [.put (.within (.name "k") (.name "b")) (.number 2)] ∧ p.Keyed := by
  rcases exists_ofComputation Screen.normal_source {} (show nestedPuts.passes .source from rfl) with
    ⟨body, hworld, hbody⟩
  have hrounds := completes_of_live (live_initial hbody) 12
  have hkeyed := puts_inside_nests {} nestedPuts _ hworld 12 hrounds
  cases hworld
  exact ⟨_, rfl, hrounds, ⟨_, rfl, rfl, rfl, hkeyed .anonymous (.running _) rfl⟩,
    _, rfl, rfl, hkeyed (.within (.name "n") (.name "p")) _ rfl⟩

def faultBesideHole : Computation :=
  .nest (.symbol (.name "n"))
    (.bind .ignore (.nest (.symbol (.name "m")) (.put (.symbol (.name "a")) (.number 1)))
      (.bind .ignore (.spawn (.symbol (.name "p")) (.nest (.symbol (.name "k")) .hole))
        (.lambda .ignore .hole)))

/-- A broken round can take a nest from around what was put in it: the process has failed and lost
the frame, but is found as if it still ran. -/
theorem faultBesideHole_loses_nest :
    ∃ world r, ofComputation {} faultBesideHole = .ok world ∧
      (world.after 10).round.result = .error .holeAtHead ∧
      (world.after 11).processes.get? .anonymous = some (.running r) ∧ ¬ r.Keyed := by
  refine ⟨_, _, rfl, rfl, rfl, ?_⟩
  rintro ⟨_, ⟨⟨s, hname⟩, _⟩, _⟩
  injection hname with houter _
  injection houter with htext
  exact absurd htext (by decide)

end World

end PushValue
