import Mathlib.Data.Nat.Find
import PushValue.Proofs.Resting

/-!
# How runs end

A run without a limit ends after the rounds that make progress, or it goes on without end.  A run
with a limit is that run as long as it stays within the limit.  It makes one more round with
progress than the limit allows before it stops.
-/

namespace PushValue

namespace World

variable {world : World}

/-!
## Runs without a limit
-/

/-- A run without a limit ends after the given number of rounds that make progress. -/
def EndsAfter (world : World) (k : Nat) : Prop :=
  ∀ attempts, k < attempts -> world.runFor attempts = ⟨.settled k, world.after k⟩

def NeverEnds (world : World) : Prop :=
  ∀ attempts, (world.runFor attempts).ending = .unfinished

theorem EndsAfter.unique {k l : Nat} (hk : world.EndsAfter k) (hl : world.EndsAfter l) : k = l := by
  have hend := hk (k + l + 1) (by omega)
  rw [hl (k + l + 1) (by omega)] at hend
  injection hend with hending
  injection hending with hkl
  exact hkl.symm

theorem EndsAfter.not_neverEnds {k : Nat} (h : world.EndsAfter k) : ¬ world.NeverEnds := by
  intro hnever
  have hending := hnever (k + 1)
  rw [h (k + 1) (Nat.lt_succ_self k)] at hending
  cases hending

theorem progress_iff (hlive : world.passes .live) (n : Nat) :
    (world.after n).round.result = .ok .progress ↔ (world.after n).isAtRest = false := by
  rw [← Bool.not_eq_true, ← round_not_progress_iff (passes_after hlive n), ne_eq, Classical.not_not]

theorem endsAfter_of_isAtRest (hlive : world.passes .live) {k : Nat}
    (hbefore : ∀ n, n < k -> (world.after n).isAtRest = false)
    (hrest : (world.after k).isAtRest) : world.EndsAfter k := by
  intro attempts hattempts
  apply runFrom_eq_settled hlive _ _ (Nat.zero_le k) (by omega)
  · intro n hn
    exact (progress_iff hlive n).mpr (hbefore n hn)
  · exact (round_not_progress_iff (passes_after hlive k)).mpr hrest

theorem runFrom_eq_unfinished (hlive : world.passes .live)
    (hgoing : ∀ n, (world.after n).isAtRest = false) (attempts n : Nat) :
    (runFrom none attempts n (world.after n)).ending = .unfinished := by
  induction attempts generalizing n with
  | zero => rfl
  | succ attempts ih =>
      simp only [runFrom, (progress_iff hlive n).mpr (hgoing n)]
      exact ih (n + 1)

theorem isAtRest_eq_false_of_le (hlive : world.passes .live) {m n : Nat}
    (h : (world.after n).isAtRest = false) (hmn : m ≤ n) : (world.after m).isAtRest = false := by
  rw [Bool.eq_false_iff] at h ⊢
  intro hrest
  have hstill := (round_not_progress_iff (passes_after hlive m)).mpr hrest
  rw [after_of_not_progress hlive hstill hmn] at h
  exact h hrest

theorem exists_endsAfter (hlive : world.passes .live) {m : Nat} (h : (world.after m).isAtRest) :
    ∃ k, k ≤ m ∧ world.EndsAfter k := by
  have hrest : ∃ n, (world.after n).isAtRest := ⟨m, h⟩
  refine ⟨Nat.find hrest, Nat.find_min' hrest h, ?_⟩
  apply endsAfter_of_isAtRest hlive _ (Nat.find_spec hrest)
  intro n hn
  exact Bool.eq_false_iff.mpr (Nat.find_min hrest hn)

theorem exists_endsAfter_or_neverEnds (hlive : world.passes .live) :
    (∃ k, world.EndsAfter k) ∨ world.NeverEnds := by
  by_cases hrest : ∃ n, (world.after n).isAtRest
  · rcases hrest with ⟨n, hn⟩
    rcases exists_endsAfter hlive hn with ⟨k, _, hk⟩
    exact .inl ⟨k, hk⟩
  · right
    intro attempts
    apply runFrom_eq_unfinished hlive _ attempts 0
    intro n
    exact Bool.eq_false_iff.mpr fun hn => hrest ⟨n, hn⟩

theorem EndsAfter.isAtRest (hlive : world.passes .live) {k : Nat} (h : world.EndsAfter k) :
    (world.after k).isAtRest := by
  have hending : (world.run none (k + 1)).ending = .settled k :=
    congrArg Run.ending (h (k + 1) (Nat.lt_succ_self k))
  exact (run_settled hlive hending).2

/-- A run ends after the given number of rounds exactly if these rounds, and no later ones, make
progress. -/
theorem endsAfter_iff (hlive : world.passes .live) {k : Nat} :
    world.EndsAfter k ↔ ∀ m, (world.after m).round.result = .ok .progress ↔ m < k := by
  constructor
  · intro hk m
    constructor
    · intro hprogress
      by_contra hkm
      have hstill := (round_not_progress_iff (passes_after hlive k)).mpr (hk.isAtRest hlive)
      rw [after_of_not_progress hlive hstill (Nat.not_lt.mp hkm)] at hprogress
      exact hstill hprogress
    · intro hmk
      rw [progress_iff hlive, Bool.eq_false_iff]
      intro hrest
      rcases exists_endsAfter hlive hrest with ⟨l, hlm, hl⟩
      have hkl := hk.unique hl
      omega
  · intro h
    apply endsAfter_of_isAtRest hlive
    · intro n hn
      exact (progress_iff hlive n).mp ((h n).mpr hn)
    · rw [← round_not_progress_iff (passes_after hlive k), ne_eq, h k]
      exact Nat.lt_irrefl k

/-!
## Runs with a limit
-/

theorem runFrom_eq_limitExceeded {limit : Nat}
    (hgoing : ∀ m, m ≤ limit -> (world.after m).round.result = .ok .progress) {attempts n : Nat}
    (hn : n ≤ limit) (hattempts : limit < n + attempts) :
    runFrom (some limit) attempts n (world.after n) =
      ⟨.limitExceeded limit, world.after (limit + 1)⟩ := by
  induction attempts generalizing n with
  | zero => omega
  | succ attempts ih =>
      simp only [runFrom, hgoing n hn]
      by_cases hlast : n = limit
      · rw [hlast, if_pos (by omega)]
        rfl
      · rw [if_neg (by omega)]
        exact ih (by omega) (by omega)

theorem EndsAfter.runWithin_eq (hlive : world.passes .live) {k n : Nat} (h : world.EndsAfter k)
    (hkn : k ≤ n) : world.runWithin n = ⟨.settled k, world.after k⟩ := by
  have hrounds := (endsAfter_iff hlive).mp h
  refine runFrom_eq_settled_of_le hlive ?_ ?_ ?_ (Nat.zero_le k) ?_
  · intro m hm
    cases hm
    exact Int.ofNat_le.mpr hkn
  · intro m hm
    exact (hrounds m).mpr hm
  · rw [ne_eq, hrounds k]
    exact Nat.lt_irrefl k
  · rw [Int.toNat_natCast]
    omega

theorem progress_of_not_endsAfter (hlive : world.passes .live) {n : Nat}
    (h : ¬ ∃ k, world.EndsAfter k ∧ k ≤ n) {m : Nat} (hm : m ≤ n) :
    (world.after m).round.result = .ok .progress := by
  rw [progress_iff hlive, Bool.eq_false_iff]
  intro hrest
  rcases exists_endsAfter hlive hrest with ⟨k, hkm, hk⟩
  exact h ⟨k, hk, Nat.le_trans hkm hm⟩

theorem runWithin_eq_limitExceeded (hlive : world.passes .live) {n : Nat}
    (h : ¬ ∃ k, world.EndsAfter k ∧ k ≤ n) :
    world.runWithin n = ⟨.limitExceeded n, world.after (n + 1)⟩ := by
  apply runFrom_eq_limitExceeded (fun m hm => progress_of_not_endsAfter hlive h hm) (Nat.zero_le n)
  rw [Int.toNat_natCast]
  omega

/-- A run with a limit ends after a number of rounds with progress exactly if the run without a
limit does and the number is within the limit, and it leaves the same world.  Otherwise the run
without a limit ends later or never.  The run with the limit then exceeds it and leaves the world
after one round more than the limit, all of which made progress. -/
theorem limited_run_agrees (world : World) (hlive : world.passes .live) (n : Nat) :
    (∀ k, world.EndsAfter k ↔ ∀ m, (world.after m).round.result = .ok .progress ↔ m < k) ∧
      (∀ k, (world.runWithin n).ending = .settled k ↔ world.EndsAfter k ∧ k ≤ n) ∧
      (∀ k, world.EndsAfter k -> k ≤ n ->
        ∀ attempts, k < attempts -> world.runWithin n = world.runFor attempts) ∧
      ((¬ ∃ k, world.EndsAfter k ∧ k ≤ n) ->
        ((∃ k, n < k ∧ world.EndsAfter k) ∨ world.NeverEnds) ∧
          (∀ m, m ≤ n -> (world.after m).round.result = .ok .progress) ∧
          world.runWithin n = ⟨.limitExceeded n, world.after (n + 1)⟩) := by
  refine ⟨fun k => endsAfter_iff hlive, ?_, ?_, ?_⟩
  · intro k
    constructor
    · intro hsettled
      by_cases hends : ∃ l, world.EndsAfter l ∧ l ≤ n
      · rcases hends with ⟨l, hl, hln⟩
        rw [hl.runWithin_eq hlive hln] at hsettled
        cases hsettled
        exact ⟨hl, hln⟩
      · rw [runWithin_eq_limitExceeded hlive hends] at hsettled
        cases hsettled
    · rintro ⟨hk, hkn⟩
      rw [hk.runWithin_eq hlive hkn]
  · intro k hk hkn attempts hattempts
    rw [hk.runWithin_eq hlive hkn, hk attempts hattempts]
  · intro hends
    refine ⟨?_, fun m hm => progress_of_not_endsAfter hlive hends hm,
      runWithin_eq_limitExceeded hlive hends⟩
    rcases exists_endsAfter_or_neverEnds hlive with ⟨k, hk⟩ | hnever
    · refine .inl ⟨k, ?_, hk⟩
      by_contra hnk
      exact hends ⟨k, hk, Nat.not_lt.mp hnk⟩
    · exact .inr hnever

def boxExtractingItself : Computation :=
  .bindBox (.variable "f")
    (.ret (.box (.mk (.bindBox (.variable "f") (.ret (.variable "f")) (.extract (.variable "f")))
      (some "f") .nil)))
    (.extract (.variable "f"))

theorem boxExtractingItself_limited :
    (initial (.ret (.number 1))).passes .live ∧ (initial boxExtractingItself).passes .live ∧
      (initial (.ret (.number 1))).EndsAfter 2 ∧
      (initial (.ret (.number 1))).runWithin 2 = (initial (.ret (.number 1))).runFor 10 ∧
      (initial (.ret (.number 1))).runWithin 1 =
        ⟨.limitExceeded 1, (initial (.ret (.number 1))).after 2⟩ ∧
      (initial boxExtractingItself).runWithin 20 =
        ⟨.limitExceeded 20, (initial boxExtractingItself).after 21⟩ ∧
      ((∃ k, 20 < k ∧ (initial boxExtractingItself).EndsAfter k) ∨
        (initial boxExtractingItself).NeverEnds) := by
  have hshort := limited_run_agrees (initial (.ret (.number 1))) rfl
  have hends : (initial (.ret (.number 1))).EndsAfter 2 := ((hshort 2).2.1 2 |>.mp rfl).1
  have hearly : ¬ ∃ k, (initial (.ret (.number 1))).EndsAfter k ∧ k ≤ 1 := by
    rintro ⟨k, hk⟩
    cases (hshort 1).2.1 k |>.mpr hk
  have hlong := limited_run_agrees (initial boxExtractingItself) rfl 20
  have hround : ¬ ∃ k, (initial boxExtractingItself).EndsAfter k ∧ k ≤ 20 := by
    rintro ⟨k, hk⟩
    cases hlong.2.1 k |>.mpr hk
  exact ⟨rfl, rfl, hends, (hshort 2).2.2.1 2 hends (by decide) 10 (by decide),
    ((hshort 1).2.2.2 hearly).2.2, (hlong.2.2.2 hround).2.2, (hlong.2.2.2 hround).1⟩

end World

end PushValue
