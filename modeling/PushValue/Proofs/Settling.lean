import PushValue.Proofs.Round
import PushValue.Proofs.Turn

/-!
# Rounds without progress

A round in which no process moves leaves a live world as it is, and so do all rounds after
it.  A run ends with the first such round, if it comes to one within its limit.
-/

namespace PushValue

theorem Turn.store_of_resting {table : Processes} {store : Store} {p : Stage} {v : Visit}
    (hturn : Turn table store p v) (h : v.outcome = .resting) : v.store = store := by
  cases hturn with
  | waitForEntry | waitForHalt | stayFailed | stayHalted => rfl
  | _ => cases h

namespace Sweep

variable {table : Processes} {w : Sweep} {name : Symbol} {order : List Symbol}

/-- What a round has changed so far, apart from how it would be given up. -/
def SameAs (w w' : Sweep) : Prop :=
  w.store = w'.store ∧ w.next = w'.next ∧ w.children = w'.children

theorem sameAs_attend (htable : table.all (Stage.passes .live)) (hw : Sound table w)
    (h : (w.attend table name).progressed = false) :
    w.progressed = false ∧ (w.attend table name).SameAs w := by
  unfold attend at h ⊢
  cases hget : table.get? name with
  | none =>
      rw [hget] at h
      exact ⟨h, rfl, rfl, rfl⟩
  | some p =>
      rw [hget] at h
      have hp := Table.all_iff.mp htable name p hget
      rcases Bool.or_eq_false_iff.mp h with ⟨hearlier, hnext⟩
      have hresting : (p.visit table w.store).outcome = .resting := by
        cases houtcome : (p.visit table w.store).outcome with
        | resting => rfl
        | moved next | spawned next childName child =>
            rw [houtcome] at hnext
            cases hnext
        | broken b =>
            have hvisit := Stage.visit_live htable hw.store hp
            exact absurd Screen.strict_live (hvisit.broken b houtcome)
      have hturn : Turn table w.store p _ := Turn.of_visit (Stage.ne_stray_of_passes hp)
      have hwrite := @Stage.reserve_eq_write table w.store p hp
      rw [hresting] at hwrite
      refine ⟨hearlier, ?_, ?_, ?_⟩
      · exact hwrite.symm.trans (hturn.store_of_resting hresting)
      · show w.next.move name (p.visit table w.store).outcome.next? = w.next
        rw [hresting]
        rfl
      · show w.children ++ (p.visit table w.store).outcome.child?.toList = w.children
        rw [hresting]
        exact List.append_nil _

theorem sameAs_foldl (htable : table.all (Stage.passes .live)) (hw : Sound table w)
    (h : (order.foldl (attend table) w).progressed = false) :
    w.progressed = false ∧ (order.foldl (attend table) w).SameAs w := by
  induction order generalizing w with
  | nil => exact ⟨h, rfl, rfl, rfl⟩
  | cons name rest ih =>
      rcases ih (hw.attend htable name) h with ⟨hhere, hstore, hnext, hchildren⟩
      rcases sameAs_attend htable hw hhere with ⟨hbefore, hstore', hnext', hchildren'⟩
      exact ⟨hbefore, hstore.trans hstore', hnext.trans hnext', hchildren.trans hchildren'⟩

end Sweep

namespace World

variable {world : World}

theorem round_progress_iff (hlive : world.passes .live) :
    world.round.result = .ok .progress ↔ (world.sweep world.processes.keys).progressed := by
  rw [round_eq hlive, roundIn_eq hlive]
  unfold progress
  by_cases hempty : world.processes.isEmpty
  · rw [if_pos hempty, sweep_of_isEmpty hempty]
    constructor
    · exact nofun
    · exact nofun
  · rw [if_neg hempty]
    cases (world.sweep world.processes.keys).progressed with
    | false =>
        constructor
        · exact nofun
        · exact nofun
    | true => exact ⟨fun _ => rfl, fun _ => rfl⟩

theorem round_world_of_not_progress (hlive : world.passes .live)
    (h : world.round.result ≠ .ok .progress) : world.round.world = world := by
  rw [ne_eq, round_progress_iff hlive, Bool.not_eq_true] at h
  rcases Sweep.sameAs_foldl (World.passes_iff.mp hlive).2.1 (Sweep.sound_start world hlive) h with
    ⟨_, hstore, hnext, hchildren⟩
  rw [round_eq hlive, roundIn_eq hlive]
  unfold sweep
  rw [hstore, hnext, hchildren]
  rfl

theorem after_of_not_progress (hlive : world.passes .live) {k m : Nat}
    (h : (world.after k).round.result ≠ .ok .progress) (hkm : k ≤ m) :
    world.after m = world.after k := by
  induction hkm with
  | refl => rfl
  | step _ ih =>
      show (world.after _).round.world = world.after k
      rw [ih]
      exact round_world_of_not_progress (passes_after hlive k) h

/-- A run ends with the first round that makes no progress, if it does not exceed its limit before
that. -/
theorem runFrom_eq_settled_of_le (hlive : world.passes .live) {limit : Option Int} {k : Nat}
    (hlimit : ∀ m ∈ limit, (k : Int) ≤ m)
    (hbefore : ∀ n, n < k -> (world.after n).round.result = .ok .progress)
    (h : (world.after k).round.result ≠ .ok .progress) {attempts n : Nat} (hn : n ≤ k)
    (hattempts : k < n + attempts) :
    runFrom limit attempts n (world.after n) = ⟨.settled k, world.after k⟩ := by
  induction attempts generalizing n with
  | zero => omega
  | succ attempts ih =>
      simp only [runFrom]
      by_cases hlast : n = k
      · rw [hlast]
        have hk := passes_after hlive k
        rw [round_world_of_not_progress hk h]
        rw [round_eq hk, roundIn_eq hk] at h ⊢
        cases hresult : (world.after k).progress (world.after k).processes.keys with
        | progress => exact absurd (congrArg Except.ok hresult) h
        | noProgress | noProcesses => rfl
      · have hprogress := hbefore n (by omega)
        simp only [hprogress]
        have hrest := ih (n := n + 1) (by omega) (by omega)
        cases limit with
        | none => exact hrest
        | some m =>
            have hkm : (k : Int) ≤ m := hlimit m rfl
            have hwithin : ¬ m < (n + 1 : Int) := by omega
            simp only [if_neg hwithin]
            exact hrest

theorem runFrom_eq_settled (hlive : world.passes .live) {k : Nat}
    (hbefore : ∀ n, n < k -> (world.after n).round.result = .ok .progress)
    (h : (world.after k).round.result ≠ .ok .progress) {attempts n : Nat} (hn : n ≤ k)
    (hattempts : k < n + attempts) :
    runFrom none attempts n (world.after n) = ⟨.settled k, world.after k⟩ := by
  refine runFrom_eq_settled_of_le hlive ?_ hbefore h hn hattempts
  intro m hm
  cases hm

end World

end PushValue
