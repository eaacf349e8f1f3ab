import PushValue.Proofs.Screen.Basic
import PushValue.Proofs.Tables
import PushValue.World.Basic

/-!
# Screens for states

A state passes a screen when every term in it does: the computation under control,
the bindings of the environment, the contexts on the stack and the entries of the
traces.  A return marker under control is the machine's own, so only the value that it
holds is looked at.  A process that failed is not looked at, for it keeps a snapshot with holes
and is never stepped again.
-/

namespace PushValue

def Environment.passes (S : Screen) : Environment -> Bool
  | .mk vs bs => vs.all (Value.passes S) && bs.passes S
  | .stray _ => false

namespace Trace

mutual

def passes (S : Screen) : Trace -> Bool
  | sequence items | nest _ items => passesAll S items
  | ret v | put _ v | get _ v => v.passes S
  | link t v => t.passes S && v.passes S
  | stray o => S.stray o

def passesAll (S : Screen) : List Trace -> Bool
  | [] => true
  | t :: rest => t.passes S && passesAll S rest

end

end Trace

def Context.passes (S : Screen) : Context -> Bool
  | .bind env p body | .bindBox env p body => env.passes S && p.passes S && body.passes S
  | .argument v | .label v => v.passes S
  | .nest s => S.symbol s
  | .stray _ => false

def Frame.passes (S : Screen) : Frame -> Bool
  | .mk c ts => c.passes S && Trace.passesAll S ts
  | .stray _ => false

/-- What may stand under control: a computation that passes, or the return of a value that does. -/
def Computation.passesControl (S : Screen) : Computation -> Bool
  | .returned v => v.passes S
  | e => e.passes S

def Running.passes (S : Screen) (r : Running) : Bool :=
  r.control.passesControl S && r.env.passes S && r.stack.all (Frame.passes S) &&
    Trace.passesAll S r.trace

def Signal.passes (S : Screen) : Signal -> Bool
  | .halt v => v.passes S
  | .awaitEntry s => S.symbol s
  | .awaitHalt s => S.process s
  | .spawn name env body => S.symbol name && env.passes S && body.passes S

def Stage.passes (S : Screen) : Stage -> Bool
  | .pending body => body.passes S
  | .running r => r.passes S
  | .awaitingEntry r s => r.passes S && S.symbol s
  | .awaitingHalt r s => r.passes S && S.process s
  | .failed _ _ => true
  | .halted v ts => v.passes S && Trace.passesAll S ts
  | .stray _ => false

def World.passes (S : Screen) (w : World) : Bool :=
  w.store.all (Value.passes S) && w.processes.all (Stage.passes S) &&
    w.processes.keys.all S.symbol

/-!
## Parts of states
-/

section Parts

variable {S : Screen}

theorem Environment.passes_empty : Environment.empty.passes S := rfl

theorem Environment.exists_of_passes {env : Environment} (h : env.passes S) :
    ∃ vs bs, env = .mk vs bs ∧ vs.all (Value.passes S) ∧ bs.passes S := by
  cases env with
  | mk vs bs =>
      simp only [Environment.passes, Bool.and_eq_true] at h
      exact ⟨vs, bs, rfl, h.1, h.2⟩
  | stray o => cases h

theorem Trace.passesAll_append {ts us : List Trace} :
    Trace.passesAll S (ts ++ us) = (Trace.passesAll S ts && Trace.passesAll S us) := by
  induction ts with
  | nil => rfl
  | cons t rest ih => rw [List.cons_append, passesAll, passesAll, ih, Bool.and_assoc]

theorem Frame.exists_of_passes {f : Frame} (h : f.passes S) :
    ∃ c ts, f = .mk c ts ∧ c.passes S ∧ Trace.passesAll S ts := by
  cases f with
  | mk c ts =>
      simp only [Frame.passes, Bool.and_eq_true] at h
      exact ⟨c, ts, rfl, h.1, h.2⟩
  | stray o => cases h

theorem Running.passes_iff {r : Running} :
    r.passes S ↔ r.control.passesControl S ∧ r.env.passes S ∧ r.stack.all (Frame.passes S) ∧
      Trace.passesAll S r.trace := by
  unfold Running.passes
  simp only [Bool.and_eq_true, and_assoc]

theorem World.passes_iff {w : World} :
    w.passes S ↔ w.store.all (Value.passes S) ∧ w.processes.all (Stage.passes S) ∧
      w.processes.keys.all S.symbol := by
  unfold World.passes
  simp only [Bool.and_eq_true, and_assoc]

theorem World.passes_get? {w : World} (h : w.passes S) {name : Symbol} {p : Stage}
    (hget : w.processes.get? name = some p) : p.passes S :=
  Table.all_iff.mp (World.passes_iff.mp h).2.1 name p hget

theorem Computation.passesControl_of_passes {e : Computation} (h : e.passes S) :
    e.passesControl S := by
  cases e with
  | returned v =>
      simp only [Computation.passes, Bool.and_eq_true] at h
      exact h.2
  | _ => exact h

end Parts

/-!
## Wider screens
-/

section Mono

variable {S T : Screen}

theorem Environment.passes_mono (h : S.Within T) {env : Environment} (henv : env.passes S) :
    env.passes T := by
  rcases Environment.exists_of_passes henv with ⟨vs, bs, rfl, hvs, hbs⟩
  simp only [Environment.passes, Bool.and_eq_true]
  constructor
  · rw [Table.all_iff] at hvs ⊢
    intro x v hget
    exact v.passes_mono h (hvs x v hget)
  · exact bs.passes_mono h hbs

namespace Trace

mutual

theorem passes_mono (h : S.Within T) : (t : Trace) -> t.passes S -> t.passes T
  | sequence items, ht | nest _ items, ht => passesAll_mono h items ht
  | ret v, ht | put _ v, ht | get _ v, ht => v.passes_mono h ht
  | link t v, ht => by
      simp only [passes, Bool.and_eq_true] at ht ⊢
      exact ⟨t.passes_mono h ht.1, v.passes_mono h ht.2⟩
  | stray o, ht => h.stray o ht

theorem passesAll_mono (h : S.Within T) :
    (ts : List Trace) -> passesAll S ts -> passesAll T ts
  | [], _ => rfl
  | t :: rest, ht => by
      simp only [passesAll, Bool.and_eq_true] at ht ⊢
      exact ⟨passes_mono h t ht.1, passesAll_mono h rest ht.2⟩

end

end Trace

theorem Context.passes_mono (h : S.Within T) {c : Context} (hc : c.passes S) : c.passes T := by
  cases c with
  | bind env p body | bindBox env p body =>
      simp only [Context.passes, Bool.and_eq_true] at hc ⊢
      exact ⟨⟨Environment.passes_mono h hc.1.1, p.passes_mono h hc.1.2⟩,
        body.passes_mono h hc.2⟩
  | argument v | label v => exact v.passes_mono h hc
  | nest s => exact h.symbol s hc
  | stray o => cases hc

theorem Frame.passes_mono (h : S.Within T) {f : Frame} (hf : f.passes S) : f.passes T := by
  rcases Frame.exists_of_passes hf with ⟨c, ts, rfl, hc, hts⟩
  simp only [Frame.passes, Bool.and_eq_true]
  exact ⟨Context.passes_mono h hc, Trace.passesAll_mono h ts hts⟩

theorem Stack.passes_mono (h : S.Within T) {stack : Stack} (hs : stack.all (Frame.passes S)) :
    stack.all (Frame.passes T) := by
  rw [List.all_eq_true] at hs ⊢
  intro f hf
  exact Frame.passes_mono h (hs f hf)

theorem Computation.passesControl_mono (h : S.Within T) {e : Computation}
    (he : e.passesControl S) : e.passesControl T := by
  cases e with
  | returned v => exact v.passes_mono h he
  | _ => exact Computation.passes_mono h _ he

theorem Running.passes_mono (h : S.Within T) {r : Running} (hr : r.passes S) : r.passes T := by
  rw [Running.passes_iff] at hr ⊢
  rcases hr with ⟨hcontrol, henv, hstack, htrace⟩
  exact ⟨Computation.passesControl_mono h hcontrol, Environment.passes_mono h henv,
    Stack.passes_mono h hstack, Trace.passesAll_mono h _ htrace⟩

end Mono

end PushValue
