import PushValue.Proofs.Lifecycle
import PushValue.Proofs.Order
import PushValue.Proofs.Settling

/-!
# Worlds at rest

A process is at rest when it has halted or failed, when it waits for an entry that the
store does not have, or when it waits for a process of the table that has not halted.  A
round of a live world makes no progress exactly when all of its processes are at rest,
and a run that ends leaves a world in which all of them are.
-/

namespace PushValue

/-- A process that has nothing to do in a world. -/
def Stage.isAtRest (world : World) : Stage -> Bool
  | .halted _ _ | .failed _ _ => true
  | .awaitingEntry _ s => !world.store.contains s
  | .awaitingHalt _ s => (world.processes.get? s).any fun q => !q.isHalted
  | .pending _ | .running _ | .stray _ => false

def World.isAtRest (world : World) : Bool := world.processes.all (Stage.isAtRest world)

theorem Turn.next?_eq_none_iff {table : Processes} {store : Store} {p : Stage} {v : Visit}
    (hturn : Turn table store p v) (hwhole : ∀ b, v.outcome ≠ .broken b) :
    v.outcome.next? = none ↔ p.isAtRest ⟨store, table⟩ := by
  cases hturn with
  | start | step | halt | parkForEntry | parkForHalt | spawn | clash | fail =>
      constructor
      · intro h
        cases h
      · intro h
        cases h
  | wake hstored => simp [Visit.Outcome.next?, Stage.isAtRest, hstored]
  | waitForEntry hmissing => simp [Visit.Outcome.next?, Stage.isAtRest, hmissing]
  | handOver hhalted => simp [Visit.Outcome.next?, Stage.isAtRest, hhalted, Stage.isHalted]
  | orphan hmissing => simp [Visit.Outcome.next?, Stage.isAtRest, hmissing]
  | @waitForHalt r s q hget hgoing =>
      have hq : q.isHalted = false := by
        cases q with
        | halted w ts => exact absurd rfl (hgoing w ts)
        | _ => rfl
      simp [Visit.Outcome.next?, Stage.isAtRest, hget, hq]
  | stayFailed | stayHalted => exact ⟨fun _ => rfl, fun _ => rfl⟩
  | breakOff | unfit => exact absurd rfl (hwhole _)

namespace Sweep

variable {table : Processes} {w : Sweep} {name : Symbol} {order : List Symbol}

theorem progressed_attend_iff (htable : table.all (Stage.passes .live)) (hw : Sound table w) :
    (w.attend table name).progressed = false ↔
      w.progressed = false ∧
        ∀ p, table.get? name = some p -> p.isAtRest ⟨w.store, table⟩ := by
  unfold attend
  cases hget : table.get? name with
  | none =>
      constructor
      · intro h
        refine ⟨h, ?_⟩
        intro p hp
        cases hp
      · exact And.left
  | some p =>
      have hp := Table.all_iff.mp htable name p hget
      have hturn : Turn table w.store p _ := Turn.of_visit (Stage.ne_stray_of_passes hp)
      have hwhole : ∀ b, (p.visit table w.store).outcome ≠ .broken b := by
        intro b hbroken
        exact (Stage.visit_live htable hw.store hp).broken b hbroken Screen.strict_live
      have hrest := hturn.next?_eq_none_iff hwhole
      show (w.progressed || (p.visit table w.store).outcome.next?.isSome) = false ↔ _
      rw [Bool.or_eq_false_iff, Option.isSome_eq_false_iff, Option.isNone_iff_eq_none, hrest]
      simp only [Option.some.injEq, forall_eq']

theorem progressed_foldl_iff (htable : table.all (Stage.passes .live)) (hw : Sound table w) :
    (order.foldl (attend table) w).progressed = false ↔
      w.progressed = false ∧
        ∀ name ∈ order, ∀ p, table.get? name = some p -> p.isAtRest ⟨w.store, table⟩ := by
  induction order generalizing w with
  | nil => simp
  | cons name rest ih =>
      rw [List.foldl_cons, ih (hw.attend htable name), List.forall_mem_cons, ← and_assoc,
        ← progressed_attend_iff htable hw]
      apply and_congr_right
      intro hstill
      -- A visit without progress leaves the store in which the later ones look.
      rw [(sameAs_attend htable hw hstill).2.1]

end Sweep

namespace World

variable {world : World}

theorem round_not_progress_iff (hlive : world.passes .live) :
    world.round.result ≠ .ok .progress ↔ world.isAtRest := by
  have hsweep := @Sweep.progressed_foldl_iff world.processes (Sweep.start world)
    world.processes.keys (World.passes_iff.mp hlive).2.1 (Sweep.sound_start world hlive)
  rw [ne_eq, round_progress_iff hlive, Bool.not_eq_true, isAtRest, Table.all_iff]
  constructor
  · intro h name p hget
    have hname : name ∈ world.processes.keys :=
      Table.mem_keys_iff.mpr (Table.contains_iff.mpr ⟨p, hget⟩)
    exact (hsweep.mp h).2 name hname p hget
  · intro h
    apply hsweep.mpr
    refine ⟨rfl, ?_⟩
    intro name _ p hget
    exact h name p hget

theorem after_of_isAtRest (hlive : world.passes .live) (hrest : world.isAtRest) (n : Nat) :
    world.after n = world :=
  @after_of_not_progress world hlive 0 n ((round_not_progress_iff hlive).mpr hrest) (Nat.zero_le n)

theorem runFrom_settled (hlive : world.passes .live) {limit : Option Int} {attempts n k : Nat}
    (h : (runFrom limit attempts n (world.after n)).ending = .settled k) :
    (runFrom limit attempts n (world.after n)).world = world.after k ∧
      (world.after k).isAtRest := by
  induction attempts generalizing n with
  | zero => cases h
  | succ attempts ih =>
      have hn := passes_after hlive n
      have hstop (hresult : (world.after n).round.result ≠ .ok .progress) :
          (world.after n).round.world = world.after n ∧ (world.after n).isAtRest :=
        ⟨round_world_of_not_progress hn hresult, (round_not_progress_iff hn).mp hresult⟩
      simp only [runFrom] at h ⊢
      cases hresult : (world.after n).round.result with
      | error b =>
          rw [hresult] at h
          cases h
      | ok p =>
          rw [hresult] at h hstop
          cases p with
          | noProgress | noProcesses =>
              cases h
              exact hstop (by simp)
          | progress =>
              cases limit with
              | none => exact ih h
              | some m =>
                  by_cases hlimit : m < (n + 1 : Int)
                  · simp only [if_pos hlimit] at h
                    cases h
                  · simp only [if_neg hlimit] at h ⊢
                    exact ih h

theorem run_settled (hlive : world.passes .live) {limit : Option Int} {attempts k : Nat}
    (h : (world.run limit attempts).ending = .settled k) :
    (world.run limit attempts).world = world.after k ∧ (world.after k).isAtRest := by
  cases limit with
  | none | some m => exact runFrom_settled hlive (n := 0) h

/-- A round of a well-sorted world without holes that has processes makes no progress if and only
if every process has halted or failed, waits for an entry that is not there, or waits for a process
of the table that has not halted; the round then changes nothing.  A run that ends is therefore at
rest, and no number of further rounds changes what it leaves. -/
theorem settled_iff_at_rest (world : World) (hlive : world.passes .live) :
    (world.processes.isEmpty = false ->
        (world.round.result = .ok .noProgress ↔ world.isAtRest)) ∧
      (world.round.result = .ok .noProgress -> world.round.world = world) ∧
      ∀ limit attempts k, (world.run limit attempts).ending = .settled k ->
        (world.run limit attempts).world = world.after k ∧ (world.after k).isAtRest ∧
          ∀ n, (world.after k).after n = world.after k := by
  have hrest := round_not_progress_iff hlive
  refine ⟨?_, ?_, ?_⟩
  · intro hprocesses
    rw [← hrest, round_eq hlive, roundIn_eq hlive, progress, hprocesses]
    cases (world.sweep world.processes.keys).progressed with
    | false | true => simp
  · intro hresult
    apply round_world_of_not_progress hlive
    simp [hresult]
  · intro limit attempts k hsettled
    rcases run_settled hlive hsettled with ⟨hworld, hatRest⟩
    exact ⟨hworld, hatRest, after_of_isAtRest (passes_after hlive k) hatRest⟩

def waitForNeverPut : Computation :=
  .bind .ignore (.spawn (.symbol (.name "f")) (.get (.number 1)))
    (.bind .ignore (.spawn (.symbol (.name "h")) (.ret (.number 2)))
      (.bind (.variable "p") (.spawn (.symbol (.name "w")) (.link (.symbol (.name "never"))))
        (.link (.variable "p"))))

theorem waitForNeverPut_at_rest :
    (initial waitForNeverPut).passes .live ∧
      ((initial waitForNeverPut).runFor 20).ending = .settled 11 ∧
      ((initial waitForNeverPut).after 11).processes.entries.filterMap (fun e => e.2.phase?) =
        [.awaitingHalt, .failed, .halted, .awaitingEntry] ∧
      ((initial waitForNeverPut).after 10).isAtRest = false ∧
      ((initial waitForNeverPut).after 11).isAtRest ∧
      ((initial waitForNeverPut).after 11).round.result = .ok .noProgress ∧
      ∀ n, ((initial waitForNeverPut).after 11).after n = (initial waitForNeverPut).after 11 := by
  have hlive : (initial waitForNeverPut).passes .live := rfl
  rcases settled_iff_at_rest (initial waitForNeverPut) hlive with ⟨_, _, hrun⟩
  rcases hrun none 20 11 rfl with ⟨_, hrest, hstays⟩
  have hround := (settled_iff_at_rest _ (passes_after hlive 11)).1
  exact ⟨hlive, rfl, rfl, rfl, hrest, (hround rfl).mpr hrest, hstays⟩

end World

end PushValue
