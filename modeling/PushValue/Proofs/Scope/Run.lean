import PushValue.Proofs.Invariant
import PushValue.Proofs.Scope.Step

/-!
# Runs of scoped programs

No process of a run fails for a name without a binding when the program is closed.
Rounds that break are no exception: the processes that they leave are scoped as well.
-/

namespace PushValue

def Stage.Scoped : Stage -> Prop
  | .pending body => body.isClosed
  | .running r | .awaitingEntry r _ | .awaitingHalt r _ => r.Scoped
  | .failed _ f => f.isUnbound = false
  | .halted v _ => v.isClosed
  | .stray _ => False

namespace Stage

variable {table : Processes} {store : Store}

theorem start_scoped {vs bs : List String} {body : Computation} {env : Environment}
    (henv : env.Covers vs bs) (hbody : body.isScoped vs bs) :
    (running (Running.start body env)).Scoped := by
  refine ⟨vs, bs, henv, Computation.isScopedControl_of_isScoped hbody, ?_⟩
  intro f hf
  cases hf

theorem advance_keeps {a : Attempt} (ha : a.Scoped) :
    Visit.Keeps (fun v => v.isClosed) Scoped
      ⟨advance table a, a.store, running a.running⟩ := by
  have hstore : a.store.Holds (fun v => v.isClosed) := Table.all_iff.mp ha.store
  have hleft : (running a.running).Scoped := ha.running
  unfold advance
  cases houtcome : a.outcome with
  | moved => exact Visit.keeps_moved hstore hleft hleft
  | failed f =>
      have hf := ha.failure f houtcome
      cases f with
      | fault f => exact Visit.keeps_moved hstore hleft hf
      | breakage b => exact Visit.keeps_broken hstore hleft
  | signal s =>
      have hs := ha.signal s houtcome
      cases s with
      | halt v => exact Visit.keeps_moved hstore hleft hs
      | awaitEntry s | awaitHalt s => exact Visit.keeps_moved hstore hleft hleft
      | spawn name env body =>
          rcases hs with ⟨vs, bs, henv, hbody⟩
          dsimp only
          split
          · exact Visit.keeps_moved hstore hleft rfl
          · exact Visit.keeps_spawned hstore hleft hleft (start_scoped henv hbody)

theorem visit_keeps {p : Stage} (htable : table.Holds Scoped)
    (hstore : store.Holds (fun v => v.isClosed)) (hp : p.Scoped) :
    Visit.Keeps (fun v => v.isClosed) Scoped (p.visit table store) := by
  cases p with
  | pending body =>
      exact Visit.keeps_moved hstore hp (start_scoped Environment.covers_empty hp)
  | running r => exact advance_keeps (Running.step_scoped (Table.all_iff.mpr hstore) hp)
  | awaitingEntry r s =>
      apply Visit.keeps_seek hstore hp
      intro key
      split
      · exact Visit.keeps_moved hstore hp hp
      · exact Visit.keeps_resting hstore hp
  | awaitingHalt r s =>
      apply Visit.keeps_seek hstore hp
      intro key
      cases htarget : table.get? key with
      | none => exact Visit.keeps_moved hstore hp rfl
      | some q =>
          have hq := htable key q htarget
          cases q with
          | halted v ts =>
              rcases hp with ⟨vs, bs, hr⟩
              have hresumed : ((r.record (.link (.process key) v)).returning v).Scoped :=
                ⟨vs, bs, (hr.record _).returning hq⟩
              exact Visit.keeps_moved hstore hresumed hresumed
          | _ => exact Visit.keeps_resting hstore hp
  | failed r f | halted v ts => exact Visit.keeps_resting hstore hp
  | stray o => cases hp

end Stage

def Invariant.scoped : Invariant where
  value v := v.isClosed
  stage := Stage.Scoped
  handle _ := rfl
  visit := Stage.visit_keeps

namespace World

/-- In no world of a run of a closed program has a process failed for want of a variable or of a
box. -/
theorem no_unbound_name (e : Computation) (he : e.isClosed) (n : Nat) (name : Symbol)
    (r : Running) (f : Fault)
    (hfailed : ((initial e).after n).processes.get? name = some (.failed r f)) :
    ∀ x, f ≠ .undefinedVariable x ∧ f ≠ .undefinedBox x := by
  have hinitial : Invariant.scoped.Holds (initial e) := Invariant.holds_initial he
  have hbound : f.isUnbound = false :=
    (Invariant.holds_after hinitial n).2 name (.failed r f) hfailed
  intro x
  constructor
  · intro heq
    rw [heq] at hbound
    cases hbound
  · intro heq
    rw [heq] at hbound
    cases hbound

def boxThroughBox : Computation :=
  .bindBox (.variable "f")
    (.ret (.box (.mk
      (.lambda
        (.fields (.cons (.symbol (.name "l")) (.variable "k")
          (.cons (.variable "k") (.variable "y") .nil)))
        (.ret (.variable "y")))
      none .nil)))
    (.bindBox (.variable "g") (.ret (.box (.mk (.extract (.variable "f")) none .nil)))
      (.bind (.variable "x")
        (.apply (.extract (.variable "g"))
          (.record (.cons (.symbol (.name "l")) (.symbol (.name "m"))
            (.cons (.symbol (.name "m")) (.number 7) .nil))))
        (.get (.variable "x"))))

theorem boxThroughBox_no_unbound_name :
    boxThroughBox.isClosed ∧ ∃ r, ((initial boxThroughBox).after 12).processes.get? .anonymous =
        some (.failed r (.notPointer (.number 7))) ∧
      ∀ x, Fault.notPointer (.number 7) ≠ .undefinedVariable x ∧
        Fault.notPointer (.number 7) ≠ .undefinedBox x :=
  ⟨rfl, _, rfl, no_unbound_name boxThroughBox rfl 12 .anonymous _ _ rfl⟩

end World

end PushValue
