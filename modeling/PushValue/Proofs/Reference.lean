import PushValue.Proofs.Growing
import PushValue.Proofs.Round
import PushValue.Proofs.Turn

/-!
# References

Pointers refer to entries of the store, and handles to processes.  A program that spells
out no pointer gets its pointers from the machine, which makes them for entries that
exist, and no entry is ever removed; so all pointers point to entries, and no process
asks for an entry that is missing.  Handles are made by spawns.  In the middle of a round
a handle may be about before its process is in the table, but once the round is over
every handle names a process.
-/

namespace PushValue

/-!
## Screens for references
-/

namespace Object

mutual

/-- Whether a node of the given kind occurs in an object. -/
def mentions (k : Kind) : Object -> Bool
  | scalar _ => false
  | node j parts => j == k || mentionsAny k parts

def mentionsAny (k : Kind) : List Object -> Bool
  | [] => false
  | o :: rest => o.mentions k || mentionsAny k rest

end

end Object

namespace Screen

def without (k : Kind) : Screen where
  symbol s := !s.toObject.mentions k
  pointer s := !s.toObject.mentions k
  process s := !s.toObject.mentions k
  foreign := true
  stray o := !o.mentions k

def pointing (known : Symbol -> Bool) : Screen :=
  { without .pointer with pointer := fun s => !s.toObject.mentions .pointer && known s }

def handling (known : Symbol -> Bool) : Screen :=
  { without .process with process := fun s => !s.toObject.mentions .process && known s }

variable {k : Kind} {known known' : Symbol -> Bool}

theorem without_within (hk : k ≠ .withinSymbol) {n s : Symbol} (hn : (without k).symbol n)
    (hs : (without k).symbol s) : (without k).symbol (.within n s) := by
  have hkind : (Kind.withinSymbol == k) = false := beq_eq_false_iff_ne.mpr hk.symm
  simp only [without, Bool.not_eq_true'] at hn hs ⊢
  simp only [Symbol.toObject, Object.mentions, Object.mentionsAny, hn, hs, hkind, Bool.or_false]

theorem known_of_pointing {s : Symbol} (hs : (pointing known).pointer s) : known s := by
  simp only [pointing, Bool.and_eq_true] at hs
  exact hs.2

theorem known_of_handling {s : Symbol} (hs : (handling known).process s) : known s := by
  simp only [handling, Bool.and_eq_true] at hs
  exact hs.2

theorem pointing_mono (h : ∀ s, known s -> known' s) :
    (pointing known).Within (pointing known') where
  symbol _ hs := hs
  pointer s hs := by
    simp only [pointing, Bool.and_eq_true] at hs ⊢
    exact ⟨hs.1, h s hs.2⟩
  process _ hs := hs
  operand h := h
  spawn h := h
  returned h := h
  hole h := h
  foreign h := h
  stray _ h := h

theorem handling_mono (h : ∀ s, known s -> known' s) :
    (handling known).Within (handling known') where
  symbol _ hs := hs
  pointer _ hs := hs
  process s hs := by
    simp only [handling, Bool.and_eq_true] at hs ⊢
    exact ⟨hs.1, h s hs.2⟩
  operand h := h
  spawn h := h
  returned h := h
  hole h := h
  foreign h := h
  stray _ h := h

theorem holed_eq_self {S : Screen} (h : S.hole = true) : S.holed = S := by
  unfold holed
  rw [← h]

end Screen

/-- Whether a stage passes a screen, with the state that a failed process keeps. -/
def Stage.passesWhole (S : Screen) : Stage -> Bool
  | .failed r _ => r.passes S
  | p => p.passes S

/-!
## Failures of a visit
-/

namespace Stage

variable {S T : Screen} {p : Stage}

theorem passes_of_passesWhole (hp : p.passesWhole S) : p.passes S := by
  cases p with
  | failed r f => rfl
  | _ => exact hp

theorem passesWhole_of_passes (hp : p.passes S) (hfailed : ∀ r f, p = .failed r f -> r.passes S) :
    p.passesWhole S := by
  cases p with
  | failed r f => exact hfailed r f rfl
  | _ => exact hp

theorem passesWhole_mono (h : S.Within T) (hp : p.passesWhole S) : p.passesWhole T := by
  apply passesWhole_of_passes (passes_mono h (passes_of_passesWhole hp))
  intro r f hfailed
  rw [hfailed] at hp
  exact Running.passes_mono h hp

end Stage

namespace Turn

variable {table : Processes} {store : Store} {p : Stage} {v : Visit} {r : Running} {f : Fault}

theorem eq_failed_of_left (hturn : Turn table store p v) (h : v.left = .failed r f) :
    p = .failed r f := by
  cases hturn with
  | stayFailed | unfit => exact h
  | _ => cases h

theorem passes_of_failed {S : Screen} (hturn : Turn table store p v)
    (h : v.outcome = .moved (.failed r f)) (hleft : v.left.passes S) : r.passes S := by
  cases hturn with
  | clash | fail =>
      cases h
      exact hleft
  | orphan =>
      cases h
      exact (Bool.and_eq_true_iff.mp hleft).1
  | _ => cases h

end Turn

/-!
## Guards
-/

/-- A guard says by a screen which references may be about, given a ledger, and which faults a
process may meet as long as the screen is kept. -/
structure Guard where
  screen : Ledger -> Screen
  fault : Fault -> Prop
  mono : ∀ {L M : Ledger}, L.Within M -> (screen L).Within (screen M)
  hole : ∀ L, (screen L).hole = true
  foreign : ∀ L, (screen L).foreign = true
  within : ∀ L n s, (screen L).symbol n -> (screen L).symbol s -> (screen L).symbol (.within n s)
  pointer : ∀ L s, (screen L).symbol s -> L.entries s -> (screen L).pointer s
  process : ∀ L s, (screen L).symbol s -> L.names s -> (screen L).process s
  inner : ∀ L f, (screen L).Tolerates (.fault f) -> (Failure.fault f).isInner -> fault f
  duplicateName : ∀ s, fault (.duplicateName s)
  undefinedEntry : ∀ L s, (screen L).pointer s -> L.entries s ∨ fault (.undefinedEntry s)
  noSuchProcess : ∀ L s, (screen L).process s -> L.names s ∨ fault (.noSuchProcess s)

namespace Guard

variable {G : Guard} {world : World} {w : Sweep} {p : Stage} {L : Ledger}

def Keeps (G : Guard) (L : Ledger) (p : Stage) : Prop :=
  p.passesWhole (G.screen L) ∧ ∀ r f, p = .failed r f -> G.fault f

theorem Keeps.mono {M : Ledger} (hp : G.Keeps L p) (h : L.Within M) : G.Keeps M p :=
  ⟨Stage.passesWhole_mono (G.mono h) hp.1, hp.2⟩

theorem keeps_of_passes (hp : p.passes (G.screen L)) (hfailed : ∀ r f, p = .failed r f ->
    r.passes (G.screen L) ∧ G.fault f) : G.Keeps L p :=
  ⟨Stage.passesWhole_of_passes hp fun r f h => (hfailed r f h).1, fun r f h => (hfailed r f h).2⟩

theorem admits_step {r : Running}
    (hL : (w.ledger world.processes).visited ((Stage.running r).visit world.processes w.store) = L) :
    (G.screen L).Admits (r.step w.store) where
  within := G.within L
  pointer s hs hstored := by
    apply G.pointer L s hs
    rw [← hL]
    exact Bool.or_eq_true_iff.mpr (.inl hstored)
  process name env body hspawn hname := by
    apply G.process L name hname
    rw [← hL]
    apply Bool.or_eq_true_iff.mpr
    -- If the name is taken the spawn fails, but the name is that of a process all the same.
    by_cases htaken : world.processes.contains name
    · left
      exact Bool.or_eq_true_iff.mpr (.inl htaken)
    · right
      show ((Stage.advance world.processes (r.step w.store)).child?.any _) = true
      simp only [Stage.advance, hspawn, if_neg htaken, Visit.Outcome.child?, Option.any_some,
        beq_self_eq_true]

/-- A step of a process whose references are known meets no fault that is ruled out. -/
theorem fault_of_step {r : Running} {f : Fault}
    (hr : r.passes (G.screen (w.ledger world.processes))) (hf : (G.screen L).Tolerates (.fault f))
    (h : (r.step w.store).outcome = .failed (.fault f)) : G.fault f := by
  rcases (r.step_effect w.store).cases_of_fault h with
    hinner | ⟨v, s, hcontrol, hv, hmissing, rfl⟩ | ⟨s, rfl⟩
  · exact G.inner L f hf hinner
  · rcases Running.passes_iff.mp hr with ⟨hget, henv, _hstack, _htrace⟩
    rw [hcontrol] at hget
    have hpointer := (Value.resolvePointer_meets henv hget).of_eq_ok hv
    rcases G.undefinedEntry _ s hpointer with hstored | hfault
    · rcases Table.contains_iff.mp hstored with ⟨stored, hfound⟩
      rw [hmissing] at hfound
      cases hfound
    · exact hfault
  · exact G.duplicateName s

theorem fault_of_turn {v : Visit} {r : Running} {f : Fault} (hextends : Sweep.Extends world w)
    (hp : G.Keeps world.ledger p) (hturn : Turn world.processes w.store p v)
    (hv : v.Passes (G.screen L)) (h : v.outcome = .moved (.failed r f)) : G.fault f := by
  cases hturn with
  | clash =>
      cases h
      exact G.duplicateName _
  | fail ha houtcome =>
      have hf := hv.fault r f h
      cases h
      rw [← ha] at houtcome
      exact fault_of_step (hp.mono hextends.ledger_within).1 hf houtcome
  | @orphan r s hmissing =>
      cases h
      have hwaiting := Bool.and_eq_true_iff.mp hp.1
      rcases G.noSuchProcess _ s hwaiting.2 with hnamed | hfault
      · rcases Table.contains_iff.mp hnamed with ⟨q, hfound⟩
        rw [hmissing] at hfound
        cases hfound
      · exact hfault
  | _ => cases h

theorem passes_visit {v : Visit} (hextends : Sweep.Extends world w)
    (hprocesses : world.processes.Holds (G.Keeps world.ledger))
    (hstore : w.store.Holds fun v => v.passes (G.screen (w.ledger world.processes)))
    (hp : G.Keeps world.ledger p) (hvisit : p.visit world.processes w.store = v)
    (hL : (w.ledger world.processes).visited v = L) : v.Passes (G.screen L) := by
  have hvisited := Sweep.ledger_within_visited hvisit hL
  have hgrows := hextends.ledger_within.trans hvisited
  have htable : world.processes.all (Stage.passes (G.screen L)) := by
    rw [Table.all_iff]
    intro name q hget
    exact Stage.passes_of_passesWhole ((hprocesses name q hget).mono hgrows).1
  have hvalues : w.store.all (Value.passes (G.screen L)) := by
    rw [Table.all_iff]
    intro key x hget
    exact x.passes_mono (G.mono hvisited) (hstore key x hget)
  rw [← hvisit]
  apply Stage.visit_passes htable hvalues (Stage.passes_of_passesWhole (hp.mono hgrows).1)
  · intro r hr
    apply admits_step
    rw [← hL, ← hvisit, hr]
  · intro r hr hcontrol strict
    cases (G.foreign L).symm.trans strict.foreign

theorem maintains_visit {v : Visit} (hextends : Sweep.Extends world w)
    (hprocesses : world.processes.Holds (G.Keeps world.ledger))
    (hstore : w.store.Holds fun v => v.passes (G.screen (w.ledger world.processes)))
    (hp : G.Keeps world.ledger p) (hvisit : p.visit world.processes w.store = v)
    (hL : (w.ledger world.processes).visited v = L) :
    v.Maintains (fun v => v.passes (G.screen L)) (G.Keeps L) := by
  have hkept := passes_visit hextends hprocesses hstore hp hvisit hL
  have hlater := hp.mono
    (hextends.ledger_within.trans (Sweep.ledger_within_visited hvisit hL))
  have hpasses := Stage.passes_of_passesWhole hlater.1
  have hturn := @Turn.of_visit world.processes w.store p (Stage.ne_stray_of_passes hpasses)
  rw [hvisit] at hturn
  have hleft := hkept.left
  rw [Screen.holed_eq_self (G.hole L)] at hleft
  constructor
  · constructor
    · exact Table.all_iff.mp hkept.store
    · apply keeps_of_passes hleft
      intro r f hfailed
      rw [hturn.eq_failed_of_left hfailed] at hlater
      exact ⟨hlater.1, hlater.2 r f rfl⟩
    · intro next hmoved
      -- A failed stage passes whatever it keeps, so its state is looked at where it is left.
      apply keeps_of_passes (hkept.moved next hmoved)
      intro r f hfailed
      rw [hfailed] at hmoved
      exact ⟨hturn.passes_of_failed hmoved hleft, fault_of_turn hextends hp hturn hkept hmoved⟩
    · intro next name child hspawned
      rcases hkept.spawned next name child hspawned with ⟨hnext, hchild, _hname⟩
      rcases hturn.running_of_spawned hspawned with ⟨r, r', rfl, rfl⟩
      constructor
      · apply keeps_of_passes hnext
        intro r f h
        cases h
      · apply keeps_of_passes hchild
        intro r f h
        cases h
  · intro next name child hspawned
    apply G.process L name (hkept.spawned next name child hspawned).2.2
    rw [← hL]
    apply Bool.or_eq_true_iff.mpr
    right
    rw [hspawned]
    simp only [Visit.Outcome.child?, Option.any_some, beq_self_eq_true]

def growing (G : Guard) : Growing where
  value L v := v.passes (G.screen L)
  stage L p := G.Keeps L p
  value_mono h hv := Value.passes_mono (G.mono h) _ hv
  stage_mono h hp := hp.mono h
  visit := maintains_visit

/-- A guard keeps a body that it lets pass in every world that is reached by completed rounds, and
in all worlds of its run if the guard does not look at names. -/
theorem holds_after_initial (G : Guard) {body : Computation}
    (hbody : body.passes (G.screen (World.initial body).ledger)) (n : Nat)
    (hrun : G.growing.Nameless ∨ (World.initial body).Completes n) :
    G.growing.Holds ((World.initial body).after n) := by
  apply Growing.holds_after _ n hrun
  apply Growing.holds_initial
  have hpending : (Stage.pending body).passes (G.screen (World.initial body).ledger) := hbody
  apply keeps_of_passes hpending
  intro r f h
  cases h

theorem holds_after_ofComputation (G : Guard) {S : Screen} (hS : ∀ L, S.Within (G.screen L))
    {settings : Settings} {e : Computation} (he : e.passes S)
    (hworld : World.ofComputation settings e = .ok world) (n : Nat)
    (hrun : G.growing.Nameless ∨ world.Completes n) : G.growing.Holds (world.after n) := by
  rcases World.passes_of_ofComputation he hworld with ⟨body, rfl, hbody⟩
  exact holds_after_initial G (body.passes_mono (hS _) hbody) n hrun

def pointers : Guard where
  screen L := .pointing L.entries
  fault f := ∀ s, f ≠ .undefinedEntry s
  mono h := Screen.pointing_mono h.entries
  hole _ := rfl
  foreign _ := rfl
  within _ _ _ := Screen.without_within (by decide)
  pointer L s hs hstored := by
    simp only [Screen.pointing, Bool.and_eq_true]
    exact ⟨hs, hstored⟩
  process _ _ hs _ := hs
  inner := by
    intro L f _ hf s h
    rw [h] at hf
    cases hf
  duplicateName := by
    intro s t h
    cases h
  undefinedEntry _ _ hs := .inl (Screen.known_of_pointing hs)
  noSuchProcess := by
    intro L s hs
    right
    intro t h
    cases h

def handles : Guard where
  screen L := .handling L.names
  fault f := ∀ s, f ≠ .noSuchProcess s
  mono h := Screen.handling_mono h.names
  hole _ := rfl
  foreign _ := rfl
  within _ _ _ := Screen.without_within (by decide)
  pointer _ _ hs _ := hs
  process L s hs hnamed := by
    simp only [Screen.handling, Bool.and_eq_true]
    exact ⟨hs, hnamed⟩
  inner := by
    intro L f _ hf s h
    rw [h] at hf
    cases hf
  duplicateName := by
    intro s t h
    cases h
  undefinedEntry := by
    intro L s hs
    right
    intro t h
    cases h
  noSuchProcess _ _ hs := .inl (Screen.known_of_handling hs)

theorem nameless_pointers : pointers.growing.Nameless :=
  ⟨fun _ hv => hv, fun _ hp => hp⟩

end Guard

namespace World

/-!
## Runs
-/

/-- A program that spells out no pointer has no dangling ones in any world of its run, not even in
one that a broken round leaves: every pointer in the store or in a process points to an entry, and
no process asks for an entry that is missing. -/
theorem no_dangling_pointer (settings : Settings) (e : Computation)
    (he : e.passes (.pointing fun _ => false)) (world : World)
    (hworld : ofComputation settings e = .ok world) (n : Nat) :
    (∀ key v, (world.after n).store.get? key = some v ->
      v.passes (.pointing (world.after n).store.contains)) ∧
      (∀ name p, (world.after n).processes.get? name = some p ->
        p.passesWhole (.pointing (world.after n).store.contains)) ∧
      ∀ name r f s, (world.after n).processes.get? name = some (.failed r f) ->
        f ≠ .undefinedEntry s := by
  have hsource : ∀ L : Ledger, (Screen.pointing fun _ => false).Within (.pointing L.entries) := by
    intro L
    apply Screen.pointing_mono
    intro s h
    cases h
  have hholds := Guard.pointers.holds_after_ofComputation hsource he hworld n
    (.inl Guard.nameless_pointers)
  refine ⟨hholds.1, ?_, ?_⟩
  · intro name p hget
    exact (hholds.2 name p hget).1
  · intro name r f s hget
    exact (hholds.2 name _ hget).2 r f rfl s

def pointerToPointer : Computation :=
  .bind (.variable "p") (.put (.symbol (.name "x")) (.number 1))
    (.bind (.variable "q") (.put (.symbol (.name "y")) (.variable "p"))
      (.bind (.variable "r") (.get (.variable "q")) (.get (.variable "r"))))

theorem pointerToPointer_no_dangling_pointer :
    pointerToPointer.passes (.pointing fun _ => false) ∧
      ∃ world, ofComputation {} pointerToPointer = .ok world ∧
        (world.after 8).store.get? (.name "y") = some (.pointer (.name "x")) ∧
        (world.after 8).store.contains (.name "x") := by
  refine ⟨rfl, _, rfl, rfl, ?_⟩
  have hstored := (no_dangling_pointer {} pointerToPointer rfl _ rfl 8).1
  exact Screen.known_of_pointing (hstored (.name "y") (.pointer (.name "x")) rfl)

theorem completes_of_live {world : World} (hworld : world.passes .live) (n : Nat) :
    world.Completes n := by
  intro k _
  have hlive := passes_after hworld k
  rw [round_eq hlive, roundIn_eq hlive]
  exact ⟨_, rfl⟩

/-- A program that spells out no handle has no dangling ones between the rounds of its run: every
handle in the store or in a process, also in one that failed, names a process, a process waits only
for one that is there, and none finds the other one missing.  A round that breaks is never over, and
the processes that it was asked for do not join the table, so the rounds have to be completed. -/
theorem no_dangling_handle (settings : Settings) (e : Computation)
    (he : e.passes (.handling fun _ => false)) (world : World)
    (hworld : ofComputation settings e = .ok world) (n : Nat) (hrounds : world.Completes n) :
    (∀ key v, (world.after n).store.get? key = some v ->
      v.passes (.handling (world.after n).processes.contains)) ∧
      (∀ name p, (world.after n).processes.get? name = some p ->
        p.passesWhole (.handling (world.after n).processes.contains)) ∧
      (∀ name r s, (world.after n).processes.get? name = some (.awaitingHalt r s) ->
        (world.after n).processes.contains s) ∧
      ∀ name r f s, (world.after n).processes.get? name = some (.failed r f) ->
        f ≠ .noSuchProcess s := by
  have hsource : ∀ L : Ledger, (Screen.handling fun _ => false).Within (.handling L.names) := by
    intro L
    apply Screen.handling_mono
    intro s h
    cases h
  have hholds := Guard.handles.holds_after_ofComputation hsource he hworld n (.inr hrounds)
  refine ⟨hholds.1, ?_, ?_, ?_⟩
  · intro name p hget
    exact (hholds.2 name p hget).1
  · intro name r s hget
    have hwaiting := Bool.and_eq_true_iff.mp (hholds.2 name _ hget).1
    exact Screen.known_of_handling hwaiting.2
  · intro name r f s hget
    exact (hholds.2 name _ hget).2 r f rfl s

theorem spawnLinkGet_no_dangling_handle :
    spawnLinkGet.passes (.handling fun _ => false) ∧
      ∃ world, ofComputation {} spawnLinkGet = .ok world ∧ world.Completes 8 ∧
        (∃ r, (world.after 8).processes.get? .anonymous =
          some (.awaitingHalt r (.within (.name "n") (.name "a")))) ∧
        (world.after 8).processes.contains (.within (.name "n") (.name "a")) := by
  rcases exists_ofComputation Screen.normal_source {}
    (show spawnLinkGet.passes .source from rfl) with
    ⟨body, hworld, hbody⟩
  have hrounds := completes_of_live (live_initial hbody) 8
  have hhandle := no_dangling_handle {} spawnLinkGet rfl _ hworld 8 hrounds
  cases hworld
  exact ⟨rfl, _, rfl, hrounds, ⟨_, rfl⟩, hhandle.2.2.1 .anonymous _ _ rfl⟩

end World

end PushValue
