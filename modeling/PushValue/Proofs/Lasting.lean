import PushValue.Proofs.Growing

/-!
# Properties of processes that last

A property of processes may be lost by a step that fails and yet be of use, if a process that has
failed need not have it.  A round that is given up leaves the processes as their steps left them, so
such a property lasts through completed rounds only.  Something weaker may be left of it by a round
that is given up.
-/

namespace PushValue

structure Visit.HandsOn (P : Stage -> Prop) (v : Visit) : Prop where
  moved : ∀ next, v.outcome = .moved next -> P next
  spawned : ∀ next name child, v.outcome = .spawned next name child -> P next ∧ P child

namespace Visit

variable {P : Stage -> Prop} {store : Store} {p q : Stage}

theorem handsOn_resting : HandsOn P ⟨.resting, store, p⟩ where
  moved := by
    intro next h
    cases h
  spawned := by
    intro next name child h
    cases h

theorem handsOn_moved (hq : P q) : HandsOn P ⟨.moved q, store, p⟩ where
  moved := by
    intro next h
    cases h
    exact hq
  spawned := by
    intro next name child h
    cases h

theorem handsOn_spawned {name : Symbol} {child : Stage} (hq : P q) (hchild : P child) :
    HandsOn P ⟨.spawned q name child, store, p⟩ where
  moved := by
    intro next h
    cases h
  spawned := by
    intro next name' child' h
    cases h
    exact ⟨hq, hchild⟩

theorem handsOn_broken {b : Breakage} : HandsOn P ⟨.broken b, store, p⟩ where
  moved := by
    intro next h
    cases h
  spawned := by
    intro next name child h
    cases h

end Visit

def Stage.Lasts (P : Stage -> Prop) : Prop :=
  ∀ table store p, P p -> (Stage.visit table store p).HandsOn P

/-- A property that every visit hands on in a world with an invariant, and what a round that is
given up leaves of it. -/
structure Stage.LastsUnder (I : Invariant) (P left : Stage -> Prop) : Prop where
  weaken : ∀ p, P p -> left p
  handsOn : ∀ {table : Processes} {store : Store} {p : Stage}, table.Holds I.stage ->
    store.Holds I.value -> I.stage p -> P p -> (p.visit table store).HandsOn P
  left : ∀ {table : Processes} {store : Store} {p : Stage}, I.stage p -> P p ->
    left (p.visit table store).left

/-- The processes that a round in progress has dealt with have the property, and those that it
would leave have what is left of it. -/
structure Sweep.HandsOn (P left : Stage -> Prop) (w : Sweep) : Prop where
  next : w.next.Holds P
  left : w.left.Holds left
  children : ∀ c ∈ w.children, P c.2

namespace Stage.LastsUnder

variable {I : Invariant} {P left : Stage -> Prop} {world : World} {w : Sweep}

theorem handsOn_visit (hP : LastsUnder I P left) (hworld : I.Holds world)
    (hprocesses : world.processes.Holds P) (hI : I.HoldsOf w) (hw : w.HandsOn P left)
    (name : Symbol) :
    Meets (fun broken => broken.2.left.Holds left) (fun w' => I.HoldsOf w' ∧ w'.HandsOn P left)
      (w.visit world.processes name) := by
  have hkept := Invariant.holdsOf_visit hworld.2 hI name
  unfold Sweep.visit at hkept ⊢
  cases hget : world.processes.get? name with
  | none => exact ⟨hI, hw⟩
  | some p =>
      rw [hget] at hkept
      have hp := hprocesses name p hget
      have hvisit := hP.handsOn hworld.2 hI.store (hworld.2 name p hget) hp
      have hleft : Processes.Holds left
          (w.left.insert name (p.visit world.processes w.store).left) :=
        hw.left.insert (hP.left (hworld.2 name p hget) hp)
      dsimp only at hkept ⊢
      cases houtcome : (p.visit world.processes w.store).outcome with
      | resting =>
          rw [houtcome] at hkept
          exact ⟨hkept, hw.next, hleft, hw.children⟩
      | moved next =>
          rw [houtcome] at hkept
          have hnext : Processes.Holds P (w.next.insert name next) :=
            hw.next.insert (hvisit.moved next houtcome)
          exact ⟨hkept, hnext, hleft, hw.children⟩
      | spawned next childName child =>
          rw [houtcome] at hkept
          rcases hvisit.spawned next childName child houtcome with ⟨hmoved, hchild⟩
          have hnext : Processes.Holds P (w.next.insert name next) := hw.next.insert hmoved
          dsimp only [Sweep.reserve] at hkept ⊢
          split
          · exact hleft
          next hfree =>
            rw [if_neg hfree] at hkept
            refine ⟨hkept, hnext, hleft, ?_⟩
            intro c hc
            rcases List.mem_append.mp hc with hold | hnew
            · exact hw.children c hold
            · rw [List.mem_singleton.mp hnew]
              exact hchild
      | broken b => exact hleft

theorem handsOn_foldlM (hP : LastsUnder I P left) (hworld : I.Holds world)
    (hprocesses : world.processes.Holds P) (hI : I.HoldsOf w) (hw : w.HandsOn P left)
    (order : List Symbol) :
    Meets (fun broken => broken.2.left.Holds left) (fun w' => w'.HandsOn P left)
      (order.foldlM (Sweep.visit world.processes) w) := by
  induction order generalizing w with
  | nil => exact hw
  | cons name rest ih =>
      rw [List.foldlM_cons]
      apply (handsOn_visit hP hworld hprocesses hI hw name).bind
      intro w' hw'
      exact ih hw'.1 hw'.2

theorem holds_finish (hP : LastsUnder I P left) (hw : w.HandsOn P left) :
    w.finish.world.processes.Holds left ∧
      ((∃ p, w.finish.result = .ok p) -> w.finish.world.processes.Holds P) := by
  have henrolled := Sweep.holds_enroll hw.next hw.children
  unfold Sweep.finish
  cases hjoined : Sweep.enroll w.next w.children with
  | error b =>
      refine ⟨hw.left, ?_⟩
      rintro ⟨p, hp⟩
      cases hp
  | ok processes =>
      have hall : Processes.Holds P processes := henrolled.of_eq_ok hjoined
      exact ⟨fun name p hget => hP.weaken p (hall name p hget), fun _ => hall⟩

theorem holds_roundIn (hP : LastsUnder I P left) (hworld : I.Holds world)
    (hprocesses : world.processes.Holds P) (order : List Symbol) :
    (world.roundIn order).world.processes.Holds left ∧
      ((∃ p, (world.roundIn order).result = .ok p) ->
        (world.roundIn order).world.processes.Holds P) := by
  have hweak : world.processes.Holds left :=
    fun name p hget => hP.weaken p (hprocesses name p hget)
  have hnone : ∀ c ∈ (Sweep.start world).children, P c.2 ∧ I.stage c.2 := by
    intro c hc
    cases hc
  have hstart : (Sweep.start world).HandsOn P left :=
    ⟨hprocesses, hweak, fun c hc => (hnone c hc).1⟩
  have hI : I.HoldsOf (Sweep.start world) :=
    ⟨hworld.1, hworld.2, hworld.2, fun c hc => (hnone c hc).2⟩
  have hsweep := handsOn_foldlM hP hworld hprocesses hI hstart order
  unfold World.roundIn
  split
  · exact ⟨hweak, fun _ => hprocesses⟩
  · cases hfold : order.foldlM (Sweep.visit world.processes) (Sweep.start world) with
    | error broken =>
        refine ⟨hsweep.of_eq_error hfold, ?_⟩
        rintro ⟨p, hp⟩
        cases hp
    | ok w => exact holds_finish hP (hsweep.of_eq_ok hfold)

theorem holds_round (hP : LastsUnder I P left) (hworld : I.Holds world)
    (hprocesses : world.processes.Holds P) :
    world.round.world.processes.Holds left ∧
      ((∃ p, world.round.result = .ok p) -> world.round.world.processes.Holds P) := by
  unfold World.round
  split
  · exact holds_roundIn hP hworld hprocesses _
  · exact ⟨fun name p hget => hP.weaken p (hprocesses name p hget), fun _ => hprocesses⟩

/-- A property that lasts holds of all processes in every world that is reached by completed
rounds, and what is left of it holds after one more round, completed or not. -/
theorem holds_after (hP : LastsUnder I P left) (hworld : I.Holds world)
    (hprocesses : world.processes.Holds P) (n : Nat) (hrounds : world.Completes n) :
    (world.after n).processes.Holds P ∧ (world.after (n + 1)).processes.Holds left := by
  induction n with
  | zero => exact ⟨hprocesses, (holds_round hP hworld hprocesses).1⟩
  | succ n ih =>
      have hearlier : world.Completes n := fun k hk => hrounds k (Nat.lt_succ_of_lt hk)
      have hround := holds_round hP (Invariant.holds_after hworld n) (ih hearlier).1
      have hlast := hround.2 (hrounds n (Nat.lt_succ_self n))
      exact ⟨hlast, (holds_round hP (Invariant.holds_after hworld (n + 1)) hlast).1⟩

end Stage.LastsUnder

def Invariant.none : Invariant where
  value _ := True
  stage _ := True
  handle _ := trivial
  visit _ _ _ :=
    { store := fun _ _ _ => trivial
      left := trivial
      moved := fun _ _ => trivial
      spawned := fun _ _ _ _ => ⟨trivial, trivial⟩ }

namespace Stage.Lasts

variable {P : Stage -> Prop} {world : World}

theorem under (hP : Lasts P) : LastsUnder .none P fun _ => True where
  weaken _ _ := trivial
  handsOn _ _ _ hp := hP _ _ _ hp
  left _ _ := trivial

theorem holds_after (hP : Lasts P) (hprocesses : world.processes.Holds P) (n : Nat)
    (hrounds : world.Completes n) : (world.after n).processes.Holds P :=
  (hP.under.holds_after ⟨fun _ _ _ => trivial, fun _ _ _ => trivial⟩ hprocesses n hrounds).1

theorem holds_initial {body : Computation} (hbody : P (.pending body)) :
    (World.initial body).processes.Holds P := by
  apply Processes.Holds.insert _ hbody
  intro name p hget
  cases hget

end Stage.Lasts

end PushValue
