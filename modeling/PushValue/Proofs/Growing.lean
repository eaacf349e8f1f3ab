import PushValue.Proofs.Ledger

/-!
# Invariants that grow

Some invariants speak of what is on the ledger: a pointer points to an entry, a handle
names a process.  They stay true when the ledger grows.  If each visit keeps such an
invariant, as the ledger stands after the visit, then every completed round does.  A
round that is given up loses the names of its children, so it keeps the invariants that
do not look at names.
-/

namespace PushValue

theorem Meets.and {ε α : Type} {allowed allowed' : ε -> Prop} {holds holds' : α -> Prop}
    {x : Except ε α} (h : Meets allowed holds x) (h' : Meets allowed' holds' x) :
    Meets (fun e => allowed e ∧ allowed' e) (fun a => holds a ∧ holds' a) x := by
  cases x with
  | ok a => exact ⟨h, h'⟩
  | error e => exact ⟨h, h'⟩

/-- A visit that leaves only values and stages with given properties, and asks only for processes
whose handles have them as well. -/
structure Visit.Maintains (value : Value -> Prop) (stage : Stage -> Prop) (v : Visit) : Prop
    extends v.Keeps value stage where
  handle : ∀ next name child, v.outcome = .spawned next name child -> value (.process name)

/-- Properties of values and of stages that refer to a ledger, last when it grows and are kept by
every visit of a round. -/
structure Growing where
  value : Ledger -> Value -> Prop
  stage : Ledger -> Stage -> Prop
  value_mono : ∀ {L M : Ledger} {v : Value}, L.Within M -> value L v -> value M v
  stage_mono : ∀ {L M : Ledger} {p : Stage}, L.Within M -> stage L p -> stage M p
  visit : ∀ {world : World} {w : Sweep} {p : Stage} {v : Visit} {L : Ledger},
    Sweep.Extends world w -> world.processes.Holds (stage world.ledger) ->
    w.store.Holds (value (w.ledger world.processes)) -> stage world.ledger p ->
    p.visit world.processes w.store = v -> (w.ledger world.processes).visited v = L ->
    v.Maintains (value L) (stage L)

/-!
## The ledger after a visit
-/

namespace Ledger

theorem visited_within {L M : Ledger} {v : Visit}
    (hentries : ∀ s, v.store.contains s -> M.entries s) (hnames : ∀ s, L.names s -> M.names s)
    (hresults : ∀ s x, L.results s = some x -> M.results s = some x)
    (hchild : ∀ c, v.outcome.child? = some c -> M.entries c.1 ∧ M.names c.1) :
    (L.visited v).Within M := by
  have hnew : ∀ s, (v.outcome.child?.any fun c => c.1 == s) -> M.entries s ∧ M.names s := by
    intro s h
    cases hc : v.outcome.child? with
    | none =>
        rw [hc] at h
        cases h
    | some c =>
        rw [hc] at h
        rw [← eq_of_beq (show (c.1 == s) = true from h)]
        exact hchild c hc
  constructor
  · intro s h
    rcases Bool.or_eq_true_iff.mp h with hstored | hs
    · exact hentries s hstored
    · exact (hnew s hs).1
  · intro s h
    rcases Bool.or_eq_true_iff.mp h with hold | hs
    · exact hnames s hold
    · exact (hnew s hs).2
  · exact hresults

end Ledger

namespace Sweep

variable {table : Processes} {w : Sweep} {name : Symbol} {p : Stage} {v : Visit}

theorem ledger_within_visited {L : Ledger} (hvisit : p.visit table w.store = v)
    (hL : (w.ledger table).visited v = L) : (w.ledger table).Within L := by
  rw [← hL, ← hvisit]
  constructor
  · intro s h
    apply Bool.or_eq_true_iff.mpr
    left
    exact p.contains_visit h table
  · intro s h
    exact Bool.or_eq_true_iff.mpr (.inl h)
  · intro s x h
    exact h

/-- The ledger of a round once a process was visited.  When the visit breaks the round, the names
of the table are all that is left of the names. -/
theorem visited_within (hget : table.get? name = some p)
    (hvisit : p.visit table w.store = v) :
    Meets
      (fun broken => Ledger.Within { (w.ledger table).visited v with names := table.contains }
        { broken.2.ledger table with names := table.contains })
      (fun w' => ((w.ledger table).visited v).Within (w'.ledger table))
      (w.visit table name) := by
  unfold visit
  rw [hget]
  dsimp only
  rw [hvisit]
  cases houtcome : v.outcome with
  | resting | moved next =>
      apply Ledger.visited_within
      · intro s h
        exact h
      · intro s h
        exact h
      · intro s x h
        exact h
      · intro c hc
        rw [houtcome] at hc
        cases hc
  | spawned next childName child =>
      have hchild : v.outcome.child? = some (childName, child) := by
        rw [houtcome]
        rfl
      dsimp only [reserve]
      split
      next hreserved =>
        constructor
        · intro s h
          rcases Bool.or_eq_true_iff.mp h with hstored | hs
          · exact hstored
          · rw [hchild] at hs
            rw [← eq_of_beq (show (childName == s) = true from hs)]
            exact hreserved
        · intro s h
          exact h
        · intro s x h
          exact h
      next hfree =>
        apply Ledger.visited_within
        · intro s h
          exact Table.contains_insert_of_contains _ _ h
        · intro s h
          rcases Bool.or_eq_true_iff.mp h with htable | hold
          · exact Bool.or_eq_true_iff.mpr (.inl htable)
          · apply Bool.or_eq_true_iff.mpr
            right
            rw [List.any_append, hold, Bool.true_or]
        · intro s x h
          exact h
        · intro c hc
          rw [hchild] at hc
          cases hc
          constructor
          · show (v.store.insert childName _).contains childName
            rw [Table.contains_insert, decide_eq_true rfl, Bool.true_or]
          · apply Bool.or_eq_true_iff.mpr
            right
            simp
  | broken b =>
      constructor
      · intro s h
        rcases Bool.or_eq_true_iff.mp h with hstored | hs
        · exact hstored
        · rw [houtcome] at hs
          cases hs
      · intro s h
        exact h
      · intro s x h
        exact h

end Sweep

/-- The first rounds of a run are completed. -/
def World.Completes (world : World) (n : Nat) : Prop :=
  ∀ k < n, ∃ p, (world.after k).round.result = .ok p

namespace Growing

variable {I : Growing} {world : World} {w : Sweep}

/-!
## Rounds in progress
-/

structure HoldsAt (I : Growing) (L : Ledger) (w : Sweep) : Prop where
  store : w.store.Holds (I.value L)
  next : w.next.Holds (I.stage L)
  left : w.left.Holds (I.stage L)
  children : ∀ c ∈ w.children, I.stage L c.2

theorem HoldsAt.mono {L M : Ledger} (hw : I.HoldsAt L w) (h : L.Within M) : I.HoldsAt M w where
  store key v hget := I.value_mono h (hw.store key v hget)
  next name p hget := I.stage_mono h (hw.next name p hget)
  left name p hget := I.stage_mono h (hw.left name p hget)
  children c hc := I.stage_mono h (hw.children c hc)

theorem holdsAt_visit (hextends : Sweep.Extends world w)
    (hprocesses : world.processes.Holds (I.stage world.ledger))
    (hw : I.HoldsAt (w.ledger world.processes) w) {name : Symbol} {p : Stage}
    (hget : world.processes.get? name = some p) {v : Visit}
    (hvisit : p.visit world.processes w.store = v) {L : Ledger}
    (hL : (w.ledger world.processes).visited v = L) :
    Meets (fun broken => I.HoldsAt L broken.2) (I.HoldsAt L)
      (w.visit world.processes name) := by
  have hkeeps := I.visit hextends hprocesses hw.store (hprocesses name p hget) hvisit hL
  have hbefore := hw.mono (Sweep.ledger_within_visited hvisit hL)
  have hleft : Processes.Holds (I.stage L) (w.left.insert name v.left) :=
    hbefore.left.insert hkeeps.left
  unfold Sweep.visit
  rw [hget]
  dsimp only
  rw [hvisit]
  cases houtcome : v.outcome with
  | resting => exact ⟨hkeeps.store, hbefore.next, hleft, hbefore.children⟩
  | moved next =>
      have hnext : Processes.Holds (I.stage L) (w.next.insert name next) :=
        hbefore.next.insert (hkeeps.moved next houtcome)
      exact ⟨hkeeps.store, hnext, hleft, hbefore.children⟩
  | spawned next childName child =>
      rcases hkeeps.spawned next childName child houtcome with ⟨hmoved, hchild⟩
      have hnext : Processes.Holds (I.stage L) (w.next.insert name next) :=
        hbefore.next.insert hmoved
      dsimp only [Sweep.reserve]
      split
      · exact ⟨hkeeps.store, hnext, hleft, hbefore.children⟩
      · have hstore : Store.Holds (I.value L) (v.store.insert childName (.process childName)) :=
          hkeeps.store.insert (hkeeps.handle next childName child houtcome)
        refine ⟨hstore, hnext, hleft, ?_⟩
        intro c hc
        rcases List.mem_append.mp hc with hold | hnew
        · exact hbefore.children c hold
        · rw [List.mem_singleton.mp hnew]
          exact hchild
  | broken b => exact ⟨hkeeps.store, hbefore.next, hleft, hbefore.children⟩

def Holds (I : Growing) (world : World) : Prop :=
  world.store.Holds (I.value world.ledger) ∧ world.processes.Holds (I.stage world.ledger)

def HoldsOf (I : Growing) (world : World) (w : Sweep) : Prop :=
  Sweep.Extends world w ∧ I.HoldsAt (w.ledger world.processes) w

/-- The invariants that do not look at the names of processes. -/
structure Nameless (I : Growing) : Prop where
  value : ∀ {L : Ledger} {v : Value} (names : Symbol -> Bool), I.value L v ->
    I.value { L with names } v
  stage : ∀ {L : Ledger} {p : Stage} (names : Symbol -> Bool), I.stage L p ->
    I.stage { L with names } p

theorem Nameless.holds_abandoned (nameless : I.Nameless) (hextends : Sweep.Extends world w)
    {L : Ledger} (hw : I.HoldsAt L w)
    (hL : Ledger.Within { L with names := world.processes.contains }
      { w.ledger world.processes with names := world.processes.contains }) :
    I.Holds w.abandoned := by
  have hwithin := hL.trans hextends.within_abandoned
  constructor
  · intro key v hget
    exact I.value_mono hwithin (nameless.value _ (hw.store key v hget))
  · intro name p hget
    exact I.stage_mono hwithin (nameless.stage _ (hw.left name p hget))

theorem holdsOf_visit (hprocesses : world.processes.Holds (I.stage world.ledger))
    (hw : I.HoldsOf world w) (name : Symbol) :
    Meets (fun broken => I.Nameless -> I.Holds broken.2.abandoned) (I.HoldsOf world)
      (w.visit world.processes name) := by
  rcases hw with ⟨hextends, hholds⟩
  cases hget : world.processes.get? name with
  | none =>
      unfold Sweep.visit
      rw [hget]
      exact ⟨hextends, hholds⟩
  | some p =>
      have hkept := holdsAt_visit hextends hprocesses hholds hget rfl rfl
      have hledger := Sweep.visited_within hget (Eq.refl (p.visit world.processes w.store))
      have hall := (Sweep.extends_visit hextends name).and (hkept.and hledger)
      cases hresult : w.visit world.processes name with
      | ok w' =>
          rcases hall.of_eq_ok hresult with ⟨hextends', hholds', hwithin⟩
          exact ⟨hextends', hholds'.mono hwithin⟩
      | error broken =>
          rcases hall.of_eq_error hresult with ⟨hextends', hholds', hwithin⟩
          intro nameless
          exact nameless.holds_abandoned hextends' hholds' hwithin

theorem holdsOf_foldlM (hprocesses : world.processes.Holds (I.stage world.ledger))
    (hw : I.HoldsOf world w) (order : List Symbol) :
    Meets (fun broken => I.Nameless -> I.Holds broken.2.abandoned) (I.HoldsOf world)
      (order.foldlM (Sweep.visit world.processes) w) := by
  induction order generalizing w with
  | nil => exact hw
  | cons name rest ih =>
      rw [List.foldlM_cons]
      apply (holdsOf_visit hprocesses hw name).bind
      intro w' hw'
      exact ih hw'

/-!
## Whole rounds and runs
-/

theorem holds_finish (hw : I.HoldsOf world w)
    (hround : I.Nameless ∨ ∃ p, w.finish.result = .ok p) : I.Holds w.finish.world := by
  rcases hw with ⟨hextends, hholds⟩
  unfold Sweep.finish at hround ⊢
  cases hjoined : Sweep.enroll w.next w.children with
  | error b =>
      rw [hjoined] at hround
      rcases hround with nameless | ⟨p, hp⟩
      · exact nameless.holds_abandoned hextends hholds (Ledger.Within.refl _)
      · cases hp
  | ok processes =>
      have hafter := hholds.mono (hextends.within_enrolled hjoined)
      have henrolled := Sweep.holds_enroll hafter.next hafter.children
      exact ⟨hafter.store, henrolled.of_eq_ok hjoined⟩

theorem holds_roundIn (hworld : I.Holds world) (order : List Symbol)
    (hround : I.Nameless ∨ ∃ p, (world.roundIn order).result = .ok p) :
    I.Holds (world.roundIn order).world := by
  have hstart : I.HoldsOf world (Sweep.start world) := by
    refine ⟨Sweep.extends_start world, ?_⟩
    rw [Sweep.ledger_start]
    refine ⟨hworld.1, hworld.2, hworld.2, ?_⟩
    intro c hc
    cases hc
  have hsweep := holdsOf_foldlM hworld.2 hstart order
  unfold World.roundIn at hround ⊢
  split
  · exact hworld
  next hempty =>
    rw [if_neg hempty] at hround
    cases hfold : order.foldlM (Sweep.visit world.processes) (Sweep.start world) with
    | error broken =>
        rw [hfold] at hround
        rcases hround with nameless | ⟨p, hp⟩
        · exact hsweep.of_eq_error hfold nameless
        · cases hp
    | ok w =>
        rw [hfold] at hround
        exact holds_finish (hsweep.of_eq_ok hfold) hround

/-- A round that completes keeps the invariant, and so does every round if the invariant does not
look at names. -/
theorem holds_round (hworld : I.Holds world)
    (hround : I.Nameless ∨ ∃ p, world.round.result = .ok p) : I.Holds world.round.world := by
  unfold World.round at hround ⊢
  split
  next hnames =>
    rw [if_pos hnames] at hround
    exact holds_roundIn hworld _ hround
  · exact hworld

theorem holds_after (hworld : I.Holds world) (n : Nat)
    (hrun : I.Nameless ∨ world.Completes n) : I.Holds (world.after n) := by
  induction n with
  | zero => exact hworld
  | succ n ih =>
      rcases hrun with nameless | hcompletes
      · exact holds_round (ih (.inl nameless)) (.inl nameless)
      · have hearlier : world.Completes n := fun k hk => hcompletes k (Nat.lt_succ_of_lt hk)
        exact holds_round (ih (.inr hearlier)) (.inr (hcompletes n (Nat.lt_succ_self n)))

theorem holds_initial {body : Computation}
    (hbody : I.stage (World.initial body).ledger (.pending body)) :
    I.Holds (World.initial body) := by
  constructor
  · intro key v hget
    cases hget
  · apply Processes.Holds.insert _ hbody
    intro name p hget
    cases hget

end Growing

end PushValue
