import PushValue.Proofs.Ground.Step
import PushValue.Proofs.Invariant
import PushValue.Proofs.Replay

/-!
# Runs with ground values

A program without return markers, also in the code of boxes, keeps to ground values in all its
processes and in the store, as long as it runs.
-/

namespace PushValue

def Stage.isGround : Stage -> Bool
  | .pending body => body.isGroundControl
  | .running r | .awaitingEntry r _ | .awaitingHalt r _ | .failed r _ => r.isGround
  | .halted v ts => v.isGround && Trace.areGround ts
  | .stray _ => false

def World.isGround (world : World) : Bool :=
  world.store.all Value.isGround && world.processes.all Stage.isGround

theorem Turn.ground {table : Processes} {store : Store} {p : Stage} {v : Visit}
    (hturn : Turn table store p v) (htable : table.Holds fun q => q.isGround)
    (hstore : store.Holds fun w => w.isGround) (hp : p.isGround)
    (hstep : ∀ r, p = .running r -> (r.step store).Ground) :
    Visit.Keeps (fun w => w.isGround) (fun q => q.isGround) v := by
  have hleft {a : Attempt} (ha : a.Ground) : (a.store.Holds fun w => w.isGround) :=
    Table.all_iff.mp ha.store
  cases hturn with
  | start body => exact Visit.keeps_moved hstore hp (Running.isGround_start hp rfl)
  | step ha houtcome =>
      have hground := ha ▸ hstep _ rfl
      exact Visit.keeps_moved (hleft hground) hground.running hground.running
  | halt ha houtcome =>
      have hground := ha ▸ hstep _ rfl
      have hv := hground.signal _ houtcome
      have htrace := (Running.isGround_iff.mp hground.running).2.2.2
      exact Visit.keeps_moved (hleft hground) hground.running
        (Bool.and_eq_true_iff.mpr ⟨hv, htrace⟩)
  | parkForEntry ha houtcome | parkForHalt ha houtcome | clash ha houtcome htaken
  | fail ha houtcome =>
      have hground := ha ▸ hstep _ rfl
      exact Visit.keeps_moved (hleft hground) hground.running hground.running
  | spawn ha houtcome hfree =>
      have hground := ha ▸ hstep _ rfl
      rcases Bool.and_eq_true_iff.mp (hground.signal _ houtcome) with ⟨henv, hbody⟩
      exact Visit.keeps_spawned (hleft hground) hground.running hground.running
        (Running.isGround_start hbody henv)
  | breakOff ha houtcome =>
      have hground := ha ▸ hstep _ rfl
      exact Visit.keeps_broken (hleft hground) hground.running
  | wake hstored => exact Visit.keeps_moved hstore hp hp
  | @handOver r s w ts hhalted =>
      have hw := (Bool.and_eq_true_iff.mp (htable s _ hhalted)).1
      have hresumed : ((r.record (.link (.process s) w)).returning w).isGround :=
        Running.isGround_withControl (Running.isGround_record hp hw) hw
      exact Visit.keeps_moved hstore hresumed hresumed
  | orphan hmissing => exact Visit.keeps_moved hstore hp hp
  | waitForEntry | waitForHalt | stayFailed | stayHalted => exact Visit.keeps_resting hstore hp
  | unfit hkey => exact Visit.keeps_broken hstore hp

def Screen.unmarked : Screen := { all with returned := false }

/-- What a program without return markers keeps: there are none but under control, and the values
of the machine are ground. -/
def Invariant.ground : Invariant where
  value v := v.passes .unmarked ∧ v.isGround
  stage p := p.passes .unmarked ∧ p.isGround
  handle _ := ⟨rfl, rfl⟩
  visit := by
    intro table store p htable hstore hp
    have hstrict : ¬ Screen.unmarked.Strict := by
      intro strict
      cases strict.foreign
    have hvalues : store.all Value.isGround :=
      Table.all_iff.mpr fun key v hget => (hstore key v hget).2
    have hpasses : Visit.Passes .unmarked (p.visit table store) := by
      apply Stage.visit_passes
      · exact Table.all_iff.mpr fun name q hget => (htable name q hget).1
      · exact Table.all_iff.mpr fun key v hget => (hstore key v hget).1
      · exact hp.1
      · intro r _
        exact ⟨fun _ _ _ _ => rfl, fun _ _ _ => rfl, fun _ _ _ _ _ => rfl⟩
      · intro r _ _
        exact hstrict
    have hkeeps := (Turn.of_visit (Stage.ne_stray_of_passes hp.1)).ground
      (fun name q hget => (htable name q hget).2) (fun key v hget => (hstore key v hget).2) hp.2
      (by
        intro r hrunning
        rw [hrunning] at hp
        exact Running.step_ground rfl rfl hp.1 hvalues hp.2)
    constructor
    · intro key v hget
      exact ⟨Table.all_iff.mp hpasses.store key v hget, hkeeps.store key v hget⟩
    · exact ⟨hpasses.left, hkeeps.left⟩
    · intro next hnext
      exact ⟨hpasses.moved next hnext, hkeeps.moved next hnext⟩
    · intro next name child hnext
      have hboth := hpasses.spawned next name child hnext
      have hground := hkeeps.spawned next name child hnext
      exact ⟨⟨hboth.1, hground.1⟩, hboth.2.1, hground.2⟩

namespace World

/-- In every world of a run of a program without return markers all values are ground: those in
the store, those that are bound in an environment, under control or saved in a frame, those that
wait in a frame for a function or for branches, those on their way to a frame, those that a
process returned, and those in a trace.  This holds of the world that a broken round leaves and
of processes that failed as well. -/
theorem values_stay_ground (settings : Settings) (e : Computation) (he : e.passes .unmarked)
    (world : World) (hworld : ofComputation settings e = .ok world) (n : Nat) :
    (world.after n).isGround := by
  rcases passes_of_ofComputation he hworld with ⟨body, rfl, hbody⟩
  have hinitial : Invariant.ground.Holds (initial body) := by
    apply Invariant.holds_initial
    exact ⟨hbody, Computation.isGroundControl_of_passes rfl hbody⟩
  have hholds := Invariant.holds_after hinitial n
  apply Bool.and_eq_true_iff.mpr
  constructor
  · exact Table.all_iff.mpr fun key v hget => (hholds.1 key v hget).2
  · exact Table.all_iff.mpr fun name p hget => (hholds.2 name p hget).2

/-- The machine takes the value of a return marker for resolved, so a marker in a program can
bring a variable in. -/
example : ((initial (.returned (.variable "x"))).after 2).isGround = false := rfl

def computedRecord : Value := .record (.cons (.symbol (.name "l")) (.number 1) .nil)

def recordThroughStore : Computation :=
  .bind (.variable "x")
    (.ret (.record (.cons (.symbol (.name "l")) (.operand (.ret (.number 1))) .nil)))
    (.bind (.variable "q")
      (.spawn (.symbol (.name "p"))
        (.bind (.variable "a") (.put (.symbol (.name "k")) (.variable "x"))
          (.get (.variable "a"))))
      (.bindBox (.variable "f")
        (.ret (.box (.mk
          (.lambda (.fields (.cons (.symbol (.name "l")) (.variable "y") .nil))
            (.ret (.variant (.symbol (.name "done")) (.variable "y")))) (some "self") .nil)))
        (.bind (.variable "r") (.link (.variable "q"))
          (.apply (.extract (.variable "f")) (.variable "r")))))

theorem recordThroughStore_values_stay_ground :
    recordThroughStore.passes .unmarked ∧
      ∃ world, ofComputation {} recordThroughStore = .ok world ∧ (world.after 16).isGround ∧
        (∃ code env ts us, (world.after 16).processes.get? .anonymous =
          some (.running ⟨code, env, [.mk (.argument computedRecord) ts], us⟩)) ∧
        (world.after 18).isGround ∧ (world.after 18).store.get? (.name "k") = some computedRecord ∧
        ∃ ts, (world.after 18).processes.get? .anonymous =
          some (.halted (.variant (.symbol (.name "done")) (.number 1)) ts) := by
  have hground := values_stay_ground {} recordThroughStore rfl _ rfl
  exact ⟨rfl, _, rfl, hground 16, ⟨_, _, _, _, rfl⟩, hground 18, rfl, _, rfl⟩

end World

end PushValue
