import PushValue.Proofs.Failing
import PushValue.Proofs.Lifecycle

/-!
# What a process remembers

As long as a process does not fail its history only grows, whatever contexts it enters and
leaves.  A step that fails has no time to record anything, but it may have taken the innermost
frame off the stack.  What that frame had saved is then lost, and nothing else is: a process
that has failed remembers all it did before the frame was entered, and all it did since.
-/

namespace PushValue

/-!
## Steps and turns
-/

theorem Running.history_eq {r : Running} {stack : Stack} {trace : List Trace}
    (hstack : r.stack = stack) (htrace : r.trace = trace) :
    r.history = stack.history ++ Trace.flatAll trace := by
  rw [history, hstack, htrace]

theorem Motion.history_grows {r r' : Running} (h : Motion r.stack r.trace r') :
    r.history <+: r'.history := by
  cases h with
  | record entries hentries hstack htrace =>
      rw [Running.history_eq hstack htrace, Trace.flatAll_append, ← List.append_assoc]
      exact List.prefix_append _ _
  | push context hstack htrace =>
      rw [Running.history_eq hstack htrace]
      exact List.prefix_append _ _
  | rejoin hframe hcontext hother hstack htrace =>
      rw [Running.history_eq hstack htrace, Trace.flatAll_append, ← List.append_assoc,
        Running.history_eq hframe rfl]
      exact List.prefix_refl _
  | leave entries hentries hframe hcontext hstack htrace =>
      rw [Running.history_eq hstack htrace, Trace.flatAll_append, ← List.append_assoc,
        Running.history_eq hframe rfl]
      simp only [Trace.flatAll, Trace.flat, List.append_nil, Trace.flatAll_append]
      rw [← List.append_assoc]
      exact List.prefix_append _ _

/-- A process fails and loses a frame that had saved something. -/
inductive Stage.Forgets : Stage -> Stage -> Prop where
  | lost {r r' : Running} {f : Fault} {frame : Frame} (hstack : r.stack = frame :: r'.stack)
      (htrace : r'.trace = r.trace) (hsaved : Trace.flatAll frame.trace ≠ []) :
      Forgets (.running r) (.failed r' f)

theorem Stage.Forgets.not_grows {p q : Stage} (h : p.Forgets q) :
    ¬ p.history <+: q.history := by
  cases h with
  | @lost r r' f frame hstack htrace hsaved =>
      intro hprefix
      have hpos := List.length_pos_iff.mpr hsaved
      have hlength : r.history.length ≤ r'.history.length := hprefix.length_le
      rw [Running.history_eq hstack htrace.symm, Running.history, Stack.history] at hlength
      simp only [List.length_append] at hlength
      omega

/-- A fault leaves the history as it was, unless it loses a frame that had saved something. -/
theorem Remains.grows_or_forgets {store : Store} {r : Running} {a : Attempt}
    (h : Remains store r a) (f : Fault) :
    r.history <+: a.running.history ∨ (Stage.running r).Forgets (.failed a.running f) := by
  obtain hstack | ⟨frame, hstack⟩ := h.stack
  · left
    rw [Running.history_eq hstack h.trace]
    exact List.prefix_refl _
  by_cases hsaved : Trace.flatAll frame.trace = []
  · left
    rw [Running.history_eq hstack h.trace.symm, Stack.history, hsaved, List.append_nil]
    exact List.prefix_refl _
  · right
    exact .lost hstack h.trace hsaved

theorem Turn.grows_or_forgets {table : Processes} {store : Store} {p : Stage} {v : Visit}
    (hturn : Turn table store p v) :
    p.history <+: (v.outcome.next?.getD p).history ∨ p.Forgets (v.outcome.next?.getD p) := by
  have hmoves {r : Running} {a : Attempt} (ha : r.step store = a)
      (h : ∀ f, a.outcome ≠ .failed f) : r.history <+: a.running.history :=
    (Running.reduction_of_step ha h).motion.history_grows
  cases hturn with
  | start => exact .inl (List.prefix_refl _)
  | step ha houtcome | parkForEntry ha houtcome | parkForHalt ha houtcome | spawn ha houtcome hfree
  | clash ha houtcome htaken =>
      exact .inl (hmoves ha (by rw [houtcome]; exact nofun))
  | @halt r a w ha houtcome =>
      have hgrown := hmoves ha (by rw [houtcome]; exact nofun)
      have hstack := Effect.stack_of_halt (ha ▸ Running.step_effect _ _) houtcome
      rw [Running.history_eq hstack rfl] at hgrown
      exact .inl hgrown
  | fail ha houtcome =>
      subst ha
      exact (Running.step_remains _ _ _ houtcome).grows_or_forgets _
  | @handOver r s w ts hhalted =>
      left
      show r.history <+: (r.record (.link (.process s) w)).history
      rw [Running.history_record]
      exact List.prefix_append _ _
  | breakOff | wake | orphan | waitForEntry | waitForHalt | stayFailed | stayHalted | unfit =>
      exact .inl (List.prefix_refl _)

/-!
## Runs
-/

namespace World

variable {world : World} {name : Symbol} {p q : Stage}

theorem grows_round_iff (hlive : world.passes .live)
    (hp : world.processes.get? name = some p)
    (hq : world.round.world.processes.get? name = some q) :
    p.history <+: q.history ↔ ¬ p.Forgets q := by
  rcases exists_keys_eq hp with ⟨before, later, hkeys⟩
  rw [get?_round hlive hkeys hp] at hq
  cases hq
  have hturn : Turn world.processes (world.sweep before).store p _ :=
    Turn.of_visit (Stage.ne_stray_of_passes (passes_get? hlive hp))
  constructor
  · intro hprefix hforgets
    exact hforgets.not_grows hprefix
  · intro hkept
    exact hturn.grows_or_forgets.resolve_right hkept

theorem history_grows_after (hlive : world.passes .live) {n m : Nat} (h : n ≤ m)
    (hp : (world.after n).processes.get? name = some p)
    (hq : (world.after m).processes.get? name = some q) (hgoing : ∀ r f, q ≠ .failed r f) :
    p.history <+: q.history := by
  induction h generalizing q with
  | refl =>
      cases hp.symm.trans hq
      exact List.prefix_refl _
  | @step m h ih =>
      have hnamed := (retains_after hlive h).names name (Table.contains_iff.mpr ⟨p, hp⟩)
      obtain ⟨p', hp'⟩ := Table.contains_iff.mp hnamed
      have hgoing' : ∀ r f, p' ≠ .failed r f := by
        rintro r f rfl
        have hstays := get?_after_of_isOver hlive m.le_succ hp' rfl
        exact hgoing r f (Option.some.inj (hq.symm.trans hstays))
      have hlast : p'.history <+: q.history := by
        apply (grows_round_iff (passes_after hlive m) hp' hq).mpr
        rintro ⟨_, _, _⟩
        exact hgoing _ _ rfl
      exact (ih hp' hgoing').trans hlast

/-- In every run of a program the history of a process grows up to its failure.  In the round in
which it fails it still does, unless the step takes a frame off the stack that had saved
something. -/
theorem histories_grow (settings : Settings) (e : Computation) (he : e.passes .source) :
    ∃ world, ofComputation settings e = .ok world ∧
      (∀ n m name p q, n ≤ m -> (world.after n).processes.get? name = some p ->
        (world.after m).processes.get? name = some q -> (∀ r f, q ≠ .failed r f) ->
        p.history <+: q.history) ∧
      ∀ n name p q, (world.after n).processes.get? name = some p ->
        (world.after (n + 1)).processes.get? name = some q ->
        (p.history <+: q.history ↔ ¬ p.Forgets q) := by
  rcases exists_ofComputation Screen.normal_source settings he with ⟨e', hworld, he'⟩
  have hlive := live_initial he'
  refine ⟨_, hworld, ?_, ?_⟩
  · intro n m name p q h hp hq hgoing
    exact history_grows_after hlive h hp hq hgoing
  · intro n name p q hp hq
    exact grows_round_iff (passes_after hlive n) hp hq

def putThenGetMissing : Computation :=
  .bind .ignore (.put (.symbol (.name "a")) (.number 1))
    (.bind .ignore (.get (.pointer (.name "z"))) (.ret (.number 2)))

theorem putThenGetMissing_histories_grow :
    putThenGetMissing.passes .source ∧ ∃ world start p q,
      ofComputation {} putThenGetMissing = .ok world ∧
      (world.after 2).processes.get? .anonymous = some start ∧
      (world.after 5).processes.get? .anonymous = some (.running p) ∧
      (world.after 6).processes.get? .anonymous =
        some (.failed q (.undefinedEntry (.name "z"))) ∧
      start.history <+: p.history ∧ p.history = [.put (.name "a") (.number 1)] ∧
      q.history = p.history ∧
      ¬ (Stage.running p).Forgets (.failed q (.undefinedEntry (.name "z"))) := by
  rcases histories_grow {} putThenGetMissing rfl with ⟨world, hworld, hgrow, hround⟩
  cases hworld
  have hprefix := hgrow 2 5 .anonymous _ (.running _) (by decide) rfl rfl nofun
  have hkept := (hround 5 .anonymous (.running _) (.failed _ _) rfl rfl).mp (List.prefix_refl _)
  exact ⟨rfl, _, _, _, _, rfl, rfl, rfl, rfl, hprefix, rfl, rfl, hkept⟩

def putThenMismatch : Computation :=
  .bind .ignore (.put (.symbol (.name "a")) (.number 1))
    (.bind (.fields .nil) (.ret (.number 1)) (.ret (.number 2)))

/-- A process that fails where a value is bound forgets what it did before. -/
theorem putThenMismatch_forgets :
    putThenMismatch.passes .source ∧ ∃ world p q, ofComputation {} putThenMismatch = .ok world ∧
      (world.after 5).processes.get? .anonymous = some p ∧
      (world.after 6).processes.get? .anonymous = some q ∧
      p.history = [.put (.name "a") (.number 1)] ∧ q.history = [] ∧
      ¬ p.history <+: q.history := by
  refine ⟨rfl, _, _, _, rfl, rfl, rfl, rfl, rfl, ?_⟩
  intro hprefix
  exact List.cons_ne_nil _ _ (List.prefix_nil.mp hprefix)

end World

end PushValue
