import PushValue.Proofs.Abreast
import PushValue.Proofs.Ending
import PushValue.Proofs.Replay

/-!
# Sequences of computations

A sequence of three computations may be grouped to the left or to the right.  Grouped to the left,
an additional frame is pushed before the first computation runs; grouped to the right, it is pushed
after that.  In between the two processes go abreast, one round apart, and from then on they go
abreast in the same rounds.
-/

namespace PushValue

/-!
## Worlds of one process
-/

namespace Screen

theorem strict_live_spawnless : live.spawnless.Strict where
  symbol _ h := h
  pointer _ h := h
  process _ h := h
  foreign := rfl
  stray _ := rfl

theorem live_spawnless_admits (a : Attempt) : live.spawnless.Admits a where
  within := live_within
  pointer _ hs _ := hs
  process _ _ _ _ hname := hname

theorem normal_source_spawnless : source.spawnless.Normal where
  symbol _ h := h
  pointer _ h := h
  process _ h := h
  foreign := rfl
  stray _ := rfl
  returned := rfl

theorem source_spawnless_within : source.spawnless.Within live.spawnless where
  symbol _ h := h
  pointer _ h := h
  process _ h := h
  operand h := h
  spawn h := h
  returned _ := rfl
  hole h := h
  foreign h := h
  stray _ h := h

theorem spawnless_within (S : Screen) : S.spawnless.Within S where
  symbol _ h := h
  pointer _ h := h
  process _ h := h
  operand h := h
  spawn h := by cases h
  returned h := h
  hole h := h
  foreign h := h
  stray _ h := h

end Screen

namespace World

variable {world world' : World} {store store' : Store} {p p' : Stage} {r r' : Running} {v : Value}

theorem solo_inj (h : solo store p = solo store' p') : store = store' ∧ p = p' := by
  have hget := get?_solo store p
  rw [h, get?_solo] at hget
  exact ⟨congrArg World.store h, (Option.some.inj hget).symm⟩

/-- One process is alone and has neither spawns nor holes. -/
def IsLone (world : World) : Prop :=
  ∃ store p, world.Recounted Screen.live.spawnless store p

theorem isLone_after {body : Computation} (hbody : body.passes Screen.source.spawnless)
    (n : Nat) : ((initial body).after n).IsLone := by
  have hlive := body.passes_mono Screen.source_spawnless_within hbody
  exact recounted_after (recounted_initial hlive) Screen.live_spawnless_admits n
    (.inl Screen.strict_live_spawnless)

theorem live_initial_spawnless {body : Computation}
    (hbody : body.passes Screen.source.spawnless) : (initial body).passes .live :=
  live_initial (body.passes_mono (Screen.spawnless_within _) hbody)

theorem IsLone.round_world (h : (solo store p).IsLone) :
    (solo store p).round.world = solo (p.visit (solo store p).processes store).store
      ((p.visit (solo store p).processes store).outcome.next?.getD p) := by
  rcases h with ⟨store₀, p₀, hworld⟩
  rcases solo_inj hworld.alone with ⟨rfl, rfl⟩
  apply hworld.round_world
  intro b hb
  have hvisit := hworld.visit_passes Screen.live_spawnless_admits (by
    rintro r rfl hcontrol
    have hhole := (Running.passes_iff.mp hworld.process).1
    rw [hcontrol] at hhole
    cases hhole)
  exact hvisit.broken b hb Screen.strict_live_spawnless

theorem round_solo_moved (h : r.step store = .moved store' r') :
    (solo store (.running r)).round.world = solo store' (.running r') := by
  have hvisit : (Stage.running r).visit (solo store (.running r)).processes store =
      ⟨.moved (.running r'), store', .running r'⟩ := by
    simp only [Stage.visit, h, Stage.advance, Attempt.moved]
  apply round_solo hvisit _ rfl
  intro b hb
  cases hb

theorem round_solo_halted (h : r.step store = ⟨.signal (.halt v), store, r'⟩) :
    (solo store (.running r)).round.world = solo store (.halted v r'.trace) := by
  have hvisit : (Stage.running r).visit (solo store (.running r)).processes store =
      ⟨.moved (.halted v r'.trace), store, .running r'⟩ := by
    simp only [Stage.visit, h, Stage.advance]
  apply round_solo hvisit _ rfl
  intro b hb
  cases hb

theorem round_solo_failed {f : Fault}
    (h : r.step store = ⟨.failed (.fault f), store, r'⟩) :
    (solo store (.running r)).round.world = solo store (.failed r' f) := by
  have hvisit : (Stage.running r).visit (solo store (.running r)).processes store =
      ⟨.moved (.failed r' f), store, .running r'⟩ := by
    simp only [Stage.visit, h, Stage.advance]
  apply round_solo hvisit _ rfl
  intro b hb
  cases hb

theorem after_one (body : Computation) :
    (initial body).after 1 = solo {} (.running (Running.start body .empty)) := by
  apply round_solo rfl _ rfl
  intro b hb
  cases hb

theorem isAtRest_solo (store : Store) (p : Stage) :
    (solo store p).isAtRest = p.isAtRest (solo store p) :=
  Bool.and_true _

theorem isAtRest_running (store : Store) (r : Running) :
    (solo store (.running r)).isAtRest = false := by
  rw [isAtRest_solo]
  rfl

end World

/-!
## Worlds that go abreast
-/

section Abreast

variable {traced : Prop} {b b' : List Context} {store store' : Store} {p p' : Stage}
  {world world' : World}

theorem Stage.Abreast.solo (h : p.Abreast traced b b' p') :
    Processes.Abreast traced b b' (World.solo store p).processes
      (World.solo store' p').processes := by
  intro name
  show Option.Rel _ (Table.get? (Table.empty.insert .anonymous p) name)
    (Table.get? (Table.empty.insert .anonymous p') name)
  rw [Table.get?_insert, Table.get?_insert]
  split
  · exact .some h
  · exact .none

theorem Stage.Abreast.isAtRest_eq (h : p.Abreast traced b b' p')
    (hstore : world.store = world'.store)
    (hprocesses : world.processes.Abreast traced b b' world'.processes) :
    p.isAtRest world = p'.isAtRest world' := by
  cases h with
  | running | failed | halted => rfl
  | awaitingEntry h s => rw [Stage.isAtRest, Stage.isAtRest, hstore]
  | awaitingHalt h s =>
      have hfound := hprocesses s
      rw [Stage.isAtRest, Stage.isAtRest]
      generalize world.processes.get? s = found, world'.processes.get? s = found' at hfound ⊢
      cases hfound with
      | none => rfl
      | some hq =>
          cases hq with
          | running | failed | halted | awaitingEntry | awaitingHalt => rfl

namespace World

def Abreast (traced : Prop) (b b' : List Context) (world world' : World) : Prop :=
  ∃ store p p', world = solo store p ∧ world' = solo store p' ∧ p.Abreast traced b b' p'

/-- A value is about to get down to the bottom of the stack. -/
def Surfaces (b : List Context) (world : World) : Prop :=
  ∃ store r, world = solo store (.running r) ∧ r.stack.Shows b ∧ r.control.Hands r.env

theorem Abreast.round (h : world.Abreast traced b b' world') (hfoot : Footing traced b b')
    (hlone : world.IsLone) (hlone' : world'.IsLone)
    (hdeep : world.Surfaces b -> b = [] ∧ b' = []) :
    world.round.world.Abreast traced b b' world'.round.world := by
  rcases h with ⟨store, p, p', rfl, rfl, hp⟩
  have hbottom : ∀ r, p = .running r -> r.stack.Shows b -> r.control.Hands r.env ->
      b = [] ∧ b' = [] := by
    rintro r rfl hshows hhands
    exact hdeep ⟨store, r, rfl, hshows, hhands⟩
  have hvisit := @Stage.Abreast.visit traced b b' (solo store p).processes
    (solo store p').processes store p p' hp hfoot hp.solo hbottom
  rw [hlone.round_world, hlone'.round_world, hvisit.1]
  refine ⟨_, _, _, rfl, rfl, ?_⟩
  have hnext := hvisit.2
  generalize (p.visit (solo store p).processes store).outcome.next? = next,
    (p'.visit (solo store p').processes store).outcome.next? = next' at hnext ⊢
  cases hnext with
  | none => exact hp
  | some hq => exact hq

theorem Abreast.isAtRest_eq (h : world.Abreast traced b b' world') :
    world.isAtRest = world'.isAtRest := by
  rcases h with ⟨store, p, p', rfl, rfl, hp⟩
  rw [isAtRest_solo, isAtRest_solo]
  exact hp.isAtRest_eq rfl hp.solo

end World

end Abreast

/-!
## Runs that go abreast
-/

/-- Two processes have come to the same end: they have halted with the same value and the same trace
or failed with the same fault, or they wait for the same entry or the same process. -/
inductive Stage.SameOutcome : Stage -> Stage -> Prop where
  | halted (v : Value) (ts : List Trace) : SameOutcome (.halted v ts) (.halted v ts)
  | failed (r r' : Running) (f : Fault) : SameOutcome (.failed r f) (.failed r' f)
  | awaitingEntry (r r' : Running) (s : Symbol) :
      SameOutcome (.awaitingEntry r s) (.awaitingEntry r' s)
  | awaitingHalt (r r' : Running) (s : Symbol) :
      SameOutcome (.awaitingHalt r s) (.awaitingHalt r' s)

theorem Stage.SameOutcome.symm {p p' : Stage} (h : p.SameOutcome p') : p'.SameOutcome p := by
  cases h with
  | halted v ts => exact .halted v ts
  | failed r r' f => exact .failed r' r f
  | awaitingEntry r r' s => exact .awaitingEntry r' r s
  | awaitingHalt r r' s => exact .awaitingHalt r' r s

theorem Stage.Abreast.sameOutcome {b b' : List Context} {p p' : Stage} {world : World}
    (h : p.Abreast True b b' p') (hrest : p.isAtRest world) : p.SameOutcome p' := by
  cases h with
  | running => cases hrest
  | awaitingEntry h s => exact .awaitingEntry _ _ s
  | awaitingHalt h s => exact .awaitingHalt _ _ s
  | failed r r' f => exact .failed r r' f
  | halted hbottom v htrace =>
      rw [htrace trivial]
      exact .halted v _

namespace World

variable {world world' : World} {b b' : List Context} {i j : Nat}

def Halts (world : World) : Prop :=
  ∃ n v ts, (world.after n).processes.get? .anonymous = some (.halted v ts)

/-- Either neither of two runs ends, or both end, after numbers of rounds that are in a given
relation, with the same store and with their processes in the same way. -/
def EndAlike (rounds : Nat -> Nat -> Prop) (world world' : World) : Prop :=
  world.NeverEnds ∧ world'.NeverEnds ∨
    ∃ k l p q, world.EndsAfter k ∧ world'.EndsAfter l ∧ rounds k l ∧
      (world.after k).store = (world'.after l).store ∧
      (world.after k).processes.get? .anonymous = some p ∧
      (world'.after l).processes.get? .anonymous = some q ∧ p.SameOutcome q

theorem EndAlike.swap {rounds rounds' : Nat -> Nat -> Prop} (h : EndAlike rounds world world')
    (hrounds : ∀ k l, rounds k l -> rounds' l k) : EndAlike rounds' world' world := by
  rcases h with ⟨hnever, hnever'⟩ | ⟨k, l, p, q, hk, hl, hkl, hstore, hp, hq, hsame⟩
  · exact .inl ⟨hnever', hnever⟩
  · exact .inr ⟨l, k, q, p, hl, hk, hrounds k l hkl, hstore.symm, hq, hp, hsame.symm⟩

/-- Two runs go abreast from two rounds on, before which both are under way. -/
structure InStep (b b' : List Context) (world world' : World) (i j : Nat) : Prop where
  abreast : ∀ n, (world.after (i + n)).Abreast True b b' (world'.after (j + n))
  left : ∀ n, n < i -> (world.after n).isAtRest = false
  right : ∀ n, n < j -> (world'.after n).isAtRest = false

theorem endsAfter_add (hlive : world.passes .live) {k : Nat}
    (hearly : ∀ n, n < i -> (world.after n).isAtRest = false)
    (hlate : ∀ n, n < k -> (world.after (i + n)).isAtRest = false)
    (hrest : (world.after (i + k)).isAtRest) : world.EndsAfter (i + k) := by
  apply endsAfter_of_isAtRest hlive _ hrest
  intro n hn
  by_cases hi : n < i
  · exact hearly n hi
  · have hlater := hlate (n - i) (by omega)
    rw [Nat.add_sub_cancel' (Nat.not_lt.mp hi)] at hlater
    exact hlater

theorem neverEnds_add (hlive : world.passes .live)
    (hlate : ∀ n, (world.after (i + n)).isAtRest = false) : world.NeverEnds := by
  intro attempts
  apply runFrom_eq_unfinished hlive _ attempts 0
  intro n
  apply isAtRest_eq_false_of_le hlive (hlate n)
  omega

theorem InStep.endAlike (h : InStep b b' world world' i j) (hlive : world.passes .live)
    (hlive' : world'.passes .live) :
    EndAlike (fun k l => k + j = l + i) world world' := by
  have hsame (n : Nat) : (world.after (i + n)).isAtRest = (world'.after (j + n)).isAtRest :=
    (h.abreast n).isAtRest_eq
  by_cases hrest : ∃ n, (world.after (i + n)).isAtRest
  · right
    have hk := Nat.find_spec hrest
    have hbefore : ∀ n, n < Nat.find hrest -> (world.after (i + n)).isAtRest = false :=
      fun n hn => Bool.eq_false_iff.mpr (Nat.find_min hrest hn)
    rcases h.abreast (Nat.find hrest) with ⟨store, p, p', hworld, hworld', hp⟩
    refine ⟨i + Nat.find hrest, j + Nat.find hrest, p, p', ?_, ?_, ?_, ?_, ?_, ?_, ?_⟩
    · exact endsAfter_add hlive h.left hbefore hk
    · apply endsAfter_add hlive' h.right
      · intro n hn
        rw [← hsame n]
        exact hbefore n hn
      · rw [← hsame]
        exact hk
    · omega
    · rw [hworld, hworld']
      rfl
    · rw [hworld]
      exact get?_solo store p
    · rw [hworld']
      exact get?_solo store p'
    · rw [hworld, isAtRest_solo] at hk
      exact hp.sameOutcome hk
  · left
    have hgoing (n : Nat) : (world.after (i + n)).isAtRest = false :=
      Bool.eq_false_iff.mpr fun hn => hrest ⟨n, hn⟩
    have hgoing' (n : Nat) : (world'.after (j + n)).isAtRest = false :=
      (hsame n).symm.trans (hgoing n)
    exact ⟨neverEnds_add hlive hgoing, neverEnds_add hlive' hgoing'⟩

end World

/-!
## Values that get down
-/

namespace Running

variable {r : Running} {store : Store}

theorem step_bind_ignore (h : r.control.Hands r.env) {frame : Frame} {rest : Stack}
    {env : Environment} {e : Computation} (hstack : r.stack = frame :: rest)
    (hframe : frame.context = .ok (.bind env .ignore e)) :
    r.step store = .moved store ⟨e, env, rest, frame.trace ++ r.trace⟩ := by
  rcases r with ⟨control, env₀, stack, trace⟩
  cases hstack
  have hsilent : Stack.recordsReturn (frame :: rest) = false := by
    rw [Stack.recordsReturn, hframe]
  cases h with
  | ret hu =>
      simp only [step, Computation.head, Attempt.proceed_ok, reduce, hu, Stack.checkTop, hframe,
        recordReturn, hsilent]
      simp [deliver, hframe, returning, Pattern.bind, resume, rejoin]
  | returned v =>
      simp [step, Computation.head, reduce, deliver, hframe, Pattern.bind, resume, rejoin]

theorem step_halt (h : r.control.Hands r.env) (hstack : r.stack = []) :
    ∃ v r', r.step store = ⟨.signal (.halt v), store, r'⟩ := by
  rcases r with ⟨control, env₀, stack, trace⟩
  cases hstack
  cases h with
  | ret hu =>
      simp only [step, Computation.head, Attempt.proceed_ok, reduce, hu]
      exact ⟨_, _, rfl⟩
  | returned v => exact ⟨v, _, rfl⟩

end Running

/-!
## Sequences
-/

def Context.thenDo (e : Computation) : Context := .bind .empty .ignore e

theorem Computation.passes_andThen {S : Screen} {e e' : Computation} (he : e.passes S)
    (he' : e'.passes S) : (e.andThen e').passes S := by
  rw [Computation.andThen, Computation.passes, he, he']
  rfl

namespace World

section Abreast

variable {traced : Prop} {b b' : List Context} {world world' : World} {i j : Nat}

theorem Abreast.after (h : (world.after i).Abreast traced b b' (world'.after j))
    (hfoot : Footing traced b b') (hlone : ∀ n, (world.after n).IsLone)
    (hlone' : ∀ n, (world'.after n).IsLone) (n : Nat)
    (hdeep : ∀ m, m < n -> (world.after (i + m)).Surfaces b -> b = [] ∧ b' = []) :
    (world.after (i + n)).Abreast traced b b' (world'.after (j + n)) := by
  induction n with
  | zero => exact h
  | succ n ih =>
      have hn := ih fun m hm => hdeep m (Nat.lt_succ_of_lt hm)
      exact hn.round hfoot (hlone _) (hlone' _) (hdeep n (Nat.lt_succ_self n))

theorem Abreast.surfaces (h : world.Abreast traced b b' world') (hsurfaces : world.Surfaces b) :
    ∃ store r r', world = solo store (.running r) ∧ world' = solo store (.running r') ∧
      r.Abreast traced b b' [] r' ∧ r.control.Hands r.env ∧ r'.control.Hands r'.env := by
  rcases h with ⟨store, p, p', hworld, hworld', hp⟩
  rcases hsurfaces with ⟨store₀, r, hworld₀, hshows, hhands⟩
  rcases solo_inj (hworld.symm.trans hworld₀) with ⟨rfl, rfl⟩
  cases hp with
  | @running upper _ r' hr =>
      have hlength := congrArg List.length (hr.left.symm.trans hshows)
      rw [List.length_map, List.length_map, List.length_append] at hlength
      have hupper : upper = [] := List.length_eq_zero_iff.mp (by omega)
      rw [hupper] at hr
      have hhands' := hhands
      rw [hr.control, hr.env] at hhands'
      exact ⟨store, r, r', hworld, hworld', hr, hhands, hhands'⟩

end Abreast

section Sequences

variable (c₁ c₂ c₃ : Computation)

theorem footing_sequences :
    Footing True [.thenDo (c₂.andThen c₃)] [.thenDo c₂, .thenDo c₃] where
  left := by simp [Context.thenDo, Context.isBind]
  right := by simp [Context.thenDo, Context.isBind]
  even := by simp

theorem footing_alone : Footing False [.thenDo (c₂.andThen c₃)] [] where
  left := by simp [Context.thenDo, Context.isBind]
  right := by simp
  even := False.elim

theorem footing_nil : Footing True [] [] where
  left := by simp
  right := by simp
  even := by simp

theorem after_two_andThen :
    (initial (c₁.andThen c₂)).after 2 =
      solo {} (.running ⟨c₁, .empty, [.mk (.thenDo c₂) []], []⟩) := by
  show ((initial (c₁.andThen c₂)).after 1).round.world = _
  rw [after_one]
  exact round_solo_moved rfl

theorem after_three_andThen :
    (initial ((c₁.andThen c₂).andThen c₃)).after 3 =
      solo {} (.running ⟨c₁, .empty, [.mk (.thenDo c₂) [], .mk (.thenDo c₃) []], []⟩) := by
  show ((initial ((c₁.andThen c₂).andThen c₃)).after 2).round.world = _
  rw [after_two_andThen]
  exact round_solo_moved rfl

/-- While the first computation of a sequence runs, the process that is grouped to the right goes
abreast with the one that is grouped to the left, which is a round behind. -/
theorem abreast_groupings :
    ((initial (c₁.andThen (c₂.andThen c₃))).after 2).Abreast True [.thenDo (c₂.andThen c₃)]
      [.thenDo c₂, .thenDo c₃] ((initial ((c₁.andThen c₂).andThen c₃)).after 3) := by
  rw [after_two_andThen, after_three_andThen]
  exact ⟨{}, _, _, rfl, rfl, @Stage.Abreast.running _ _ _ [] _ _ ⟨rfl, rfl, rfl, rfl, fun _ => rfl⟩⟩

theorem abreast_alone :
    ((initial (c₁.andThen (c₂.andThen c₃))).after 2).Abreast False [.thenDo (c₂.andThen c₃)] []
      ((initial c₁).after 1) := by
  rw [after_two_andThen, after_one]
  exact ⟨{}, _, _, rfl, rfl, @Stage.Abreast.running _ _ _ [] _ _ ⟨rfl, rfl, rfl, rfl, False.elim⟩⟩

variable {c₁ c₂ c₃} {world world' : World} {n m : Nat}

theorem Abreast.regroup
    (h : (world.after n).Abreast True [.thenDo (c₂.andThen c₃)] [.thenDo c₂, .thenDo c₃]
      (world'.after m))
    (hsurfaces : (world.after n).Surfaces [.thenDo (c₂.andThen c₃)]) :
    (world.after (n + 2)).Abreast True [] [] (world'.after (m + 1)) ∧
      (world.after (n + 1)).isAtRest = false ∧ (world'.after m).isAtRest = false := by
  rcases h.surfaces hsurfaces with ⟨store, r, r', hworld, hworld', hr, hhands, hhands'⟩
  rcases Stack.shows_cons_iff.mp hr.left with ⟨frame, rest, hstack, hframe, hrest⟩
  rcases Stack.shows_cons_iff.mp hr.right with ⟨frame', rest', hstack', hframe', hrest'⟩
  rw [Stack.shows_nil_iff] at hrest
  rcases Stack.shows_cons_iff.mp hrest' with ⟨last, none, hlast, hcontext, hnone⟩
  rw [Stack.shows_nil_iff] at hnone
  subst hrest hlast hnone
  have hnext : world.after (n + 1) =
      solo store (.running ⟨c₂.andThen c₃, .empty, [], frame.trace ++ r.trace⟩) := by
    show (world.after n).round.world = _
    rw [hworld]
    exact round_solo_moved (Running.step_bind_ignore hhands hstack hframe)
  have hpushed : world.after (n + 2) =
      solo store (.running ⟨c₂, .empty, [.mk (.thenDo c₃) (frame.trace ++ r.trace)], []⟩) := by
    show (world.after (n + 1)).round.world = _
    rw [hnext]
    exact round_solo_moved rfl
  have hnext' : world'.after (m + 1) =
      solo store (.running ⟨c₂, .empty, [last], frame'.trace ++ r'.trace⟩) := by
    show (world'.after m).round.world = _
    rw [hworld']
    exact round_solo_moved (Running.step_bind_ignore hhands' hstack' hframe')
  have hregrouped : Running.Abreast True [] [] [.thenDo c₃]
      ⟨c₂, .empty, [.mk (.thenDo c₃) (frame.trace ++ r.trace)], []⟩
      ⟨c₂, .empty, [last], frame'.trace ++ r'.trace⟩ := by
    refine ⟨rfl, rfl, rfl, congrArg (fun c => [c]) hcontext, ?_⟩
    intro _
    have hlayers := hr.layers trivial
    rw [Running.layers, Running.layers, hstack, hstack',
      Stack.layers_other hframe rfl, Stack.layers_other hframe' rfl] at hlayers
    rw [Running.layers, Running.layers, @Stack.layers_other _ (.thenDo c₃) rfl rfl,
      List.append_nil]
    exact hlayers
  refine ⟨?_, ?_, ?_⟩
  · rw [hpushed, hnext']
    exact ⟨store, _, _, rfl, rfl, .running hregrouped⟩
  · rw [hnext]
    exact isAtRest_running _ _
  · rw [hworld']
    exact isAtRest_running _ _

theorem Abreast.halts {b : List Context}
    (h : (world.after n).Abreast False b [] (world'.after m))
    (hsurfaces : (world.after n).Surfaces b) : world'.Halts := by
  rcases h.surfaces hsurfaces with ⟨store, r, r', _, hworld', hr, _, hhands'⟩
  rcases @Running.step_halt r' store hhands' (Stack.shows_nil_iff.mp hr.right) with
    ⟨v, posed, hstep⟩
  refine ⟨m + 1, v, posed.trace, ?_⟩
  show (world'.after m).round.world.processes.get? .anonymous = _
  rw [hworld', round_solo_halted hstep]
  exact get?_solo store _

theorem not_halts {b : List Context} {body : Computation} (hb : b ≠ [])
    (h : ∀ n, (world.after (m + n)).Abreast False b [] ((initial body).after (1 + n))) :
    ¬ (initial body).Halts := by
  rintro ⟨n, v, ts, hget⟩
  cases n with
  | zero => cases hget
  | succ n =>
      rw [Nat.add_comm n 1] at hget
      rcases h n with ⟨store, p, p', _, hworld, hp⟩
      rw [hworld, get?_solo] at hget
      cases hget
      cases hp with
      | halted hbottom => exact hb hbottom.1

section Groupings

variable (h₁ : c₁.passes Screen.source.spawnless) (h₂ : c₂.passes Screen.source.spawnless)
  (h₃ : c₃.passes Screen.source.spawnless)

include h₁ h₂ h₃

theorem passes_grouped_right : (c₁.andThen (c₂.andThen c₃)).passes Screen.source.spawnless :=
  Computation.passes_andThen h₁ (Computation.passes_andThen h₂ h₃)

theorem passes_grouped_left : ((c₁.andThen c₂).andThen c₃).passes Screen.source.spawnless :=
  Computation.passes_andThen (Computation.passes_andThen h₁ h₂) h₃

/-- Where the first computation returns, the groupings come to be abreast in the same round. -/
theorem groupings_of_surfaces
    (hsurfaces : ∃ n, ((initial (c₁.andThen (c₂.andThen c₃))).after (2 + n)).Surfaces
      [.thenDo (c₂.andThen c₃)]) :
    (initial c₁).Halts ∧ ∃ i, InStep [] [] (initial (c₁.andThen (c₂.andThen c₃)))
      (initial ((c₁.andThen c₂).andThen c₃)) i i := by
  classical
  rcases Nat.findX hsurfaces with ⟨n, hn, hbefore⟩
  have hright := passes_grouped_right h₁ h₂ h₃
  have hleft := passes_grouped_left h₁ h₂ h₃
  -- Up to this round no value gets down.
  have habreast := (abreast_groupings c₁ c₂ c₃).after (footing_sequences c₂ c₃)
    (isLone_after hright) (isLone_after hleft) n fun m hm h => absurd h (hbefore m hm)
  have halone := (abreast_alone c₁ c₂ c₃).after (footing_alone c₂ c₃) (isLone_after hright)
    (isLone_after h₁) n fun m hm h => absurd h (hbefore m hm)
  rcases habreast.regroup hn with ⟨hregrouped, hgoing, hgoing'⟩
  rw [show 3 + n + 1 = 2 + n + 2 by omega] at hregrouped
  refine ⟨halone.halts hn, 2 + n + 2, ?_, ?_, ?_⟩
  · intro m
    apply hregrouped.after footing_nil (isLone_after hright) (isLone_after hleft)
    intro _ _ _
    exact ⟨rfl, rfl⟩
  · intro m hm
    exact isAtRest_eq_false_of_le (live_initial_spawnless hright) hgoing (by omega)
  · intro m hm
    exact isAtRest_eq_false_of_le (live_initial_spawnless hleft) hgoing' (by omega)

/-- Where the first computation never returns, the groupings stay a round apart. -/
theorem groupings_of_not_surfaces
    (hdeep : ∀ n, ¬ ((initial (c₁.andThen (c₂.andThen c₃))).after (2 + n)).Surfaces
      [.thenDo (c₂.andThen c₃)]) :
    ¬ (initial c₁).Halts ∧ InStep [.thenDo (c₂.andThen c₃)] [.thenDo c₂, .thenDo c₃]
      (initial (c₁.andThen (c₂.andThen c₃))) (initial ((c₁.andThen c₂).andThen c₃)) 2 3 := by
  have hright := passes_grouped_right h₁ h₂ h₃
  have hleft := passes_grouped_left h₁ h₂ h₃
  constructor
  · apply not_halts (List.cons_ne_nil _ _)
    intro n
    exact (abreast_alone c₁ c₂ c₃).after (footing_alone c₂ c₃) (isLone_after hright)
      (isLone_after h₁) n fun m _ h => absurd h (hdeep m)
  · refine ⟨?_, ?_, ?_⟩
    · intro n
      exact (abreast_groupings c₁ c₂ c₃).after (footing_sequences c₂ c₃) (isLone_after hright)
        (isLone_after hleft) n fun m _ h => absurd h (hdeep m)
    · intro n hn
      apply isAtRest_eq_false_of_le (live_initial_spawnless hright) _ (Nat.le_of_lt_succ hn)
      rw [after_one]
      exact isAtRest_running _ _
    · intro n hn
      apply isAtRest_eq_false_of_le (live_initial_spawnless hleft) _ (Nat.le_of_lt_succ hn)
      rw [after_two_andThen]
      exact isAtRest_running _ _

theorem groupings_endAlike :
    EndAlike
      (fun k l => ((initial c₁).Halts -> k = l) ∧ (¬ (initial c₁).Halts -> k = l + 1))
      (initial ((c₁.andThen c₂).andThen c₃)) (initial (c₁.andThen (c₂.andThen c₃))) := by
  have hright := live_initial_spawnless (passes_grouped_right h₁ h₂ h₃)
  have hleft := live_initial_spawnless (passes_grouped_left h₁ h₂ h₃)
  by_cases hsurfaces : ∃ n, ((initial (c₁.andThen (c₂.andThen c₃))).after (2 + n)).Surfaces
      [.thenDo (c₂.andThen c₃)]
  · rcases groupings_of_surfaces h₁ h₂ h₃ hsurfaces with ⟨hhalts, i, hinStep⟩
    apply (hinStep.endAlike hright hleft).swap
    intro k l hkl
    exact ⟨fun _ => by omega, fun hnever => absurd hhalts hnever⟩
  · rcases groupings_of_not_surfaces h₁ h₂ h₃ (not_exists.mp hsurfaces) with ⟨hnever, hinStep⟩
    apply (hinStep.endAlike hright hleft).swap
    intro k l hkl
    exact ⟨fun hhalts => absurd hhalts hnever, fun _ => by omega⟩

end Groupings

end Sequences

end World

/-!
## Normalized sequences
-/

namespace Computation

variable {e e' c c' : Computation} {supply rest later : NameSupply}

theorem normalize_andThen (h : e.normalize supply = .ok (c, rest))
    (h' : e'.normalize rest = .ok (c', later)) :
    (e.andThen e').normalize supply = .ok (c.andThen c', later) := by
  rcases normalize_eq_ok_iff.mp h with ⟨hoisted, bs, hrun, rfl⟩
  rcases normalize_eq_ok_iff.mp h' with ⟨hoisted', bs', hrun', rfl⟩
  apply normalize_eq_ok_iff.mpr
  refine ⟨_, [], ?_, rfl⟩
  show (e.hoist supply >>= fun out => _) = _
  rw [hrun]
  show (e'.hoist rest >>= fun out => _) = _
  rw [hrun']
  rfl

theorem exists_normalize {S : Screen} (normal : S.Normal) (he : e.passes S) (base : String)
    (index : Int) :
    ∃ c index', e.normalize (.counter base index) = .ok (c, .counter base index') ∧
      c.passes S := by
  have hyields := e.hoist_yields he base index
  cases hrun : e.hoist (.counter base index) with
  | error err =>
      rw [hrun] at hyields
      exact absurd normal hyields
  | ok out =>
      rcases out with ⟨⟨hoisted, bs⟩, supply⟩
      rw [hrun] at hyields
      rcases hyields with ⟨hpasses, index', rfl⟩
      exact ⟨_, index', normalize_eq_ok_iff.mpr ⟨hoisted, bs, hrun, rfl⟩, passes_close hpasses⟩

end Computation

namespace World

/-- Sequences of well-sorted computations without holes, return markers and spawns run alike,
whether they are grouped to the left or to the right.  Either both runs never end, or both end with
the same store and the same outcome: the process has halted with the same value and the same trace,
has failed with the same fault, or waits for the same entry or process.  The runs make progress in
equally many rounds if the first computation halts when it is run alone.  Otherwise the run that
is grouped to the left takes one round more. -/
theorem sequencing_associative (settings : Settings) (e₁ e₂ e₃ : Computation)
    (h₁ : e₁.passes Screen.source.spawnless) (h₂ : e₂.passes Screen.source.spawnless)
    (h₃ : e₃.passes Screen.source.spawnless) :
    ∃ left right first, ofComputation settings ((e₁.andThen e₂).andThen e₃) = .ok left ∧
      ofComputation settings (e₁.andThen (e₂.andThen e₃)) = .ok right ∧
      ofComputation settings e₁ = .ok first ∧
      EndAlike (fun k l => (first.Halts -> k = l) ∧ (¬ first.Halts -> k = l + 1)) left right := by
  have hnormal := Screen.normal_source_spawnless
  rcases e₁.exists_normalize hnormal h₁ settings.nameBase 0 with ⟨c₁, i, hc₁, hp₁⟩
  rcases e₂.exists_normalize hnormal h₂ settings.nameBase i with ⟨c₂, j, hc₂, hp₂⟩
  rcases e₃.exists_normalize hnormal h₃ settings.nameBase j with ⟨c₃, k, hc₃, hp₃⟩
  have hleft := Computation.normalize_andThen (Computation.normalize_andThen hc₁ hc₂) hc₃
  have hright := Computation.normalize_andThen hc₁ (Computation.normalize_andThen hc₂ hc₃)
  refine ⟨_, _, _, ?_, ?_, ?_, groupings_endAlike hp₁ hp₂ hp₃⟩
  · rw [ofComputation, hleft]
    rfl
  · rw [ofComputation, hright]
    rfl
  · rw [ofComputation, hc₁]
    rfl

def putAndGetInNest : Computation :=
  .nest (.symbol (.name "n"))
    (.bind (.variable "x") (.put (.symbol (.name "a")) (.number 1)) (.get (.variable "x")))

def putByBoxedFunction : Computation :=
  .bindBox (.variable "f")
    (.ret (.box (.mk (.lambda (.variable "y") (.put (.symbol (.name "b")) (.variable "y")))
      none .nil)))
    (.apply (.extract (.variable "f")) (.operand (.ret (.number 2))))

def linkToEntry : Computation := .link (.symbol (.name "b"))

theorem putAndGetInNest_sequencing :
    putAndGetInNest.passes Screen.source.spawnless ∧
      putByBoxedFunction.passes Screen.source.spawnless ∧
      linkToEntry.passes Screen.source.spawnless ∧
      ∃ left right first ts,
        ofComputation {} ((putAndGetInNest.andThen putByBoxedFunction).andThen linkToEntry) =
          .ok left ∧
        ofComputation {} (putAndGetInNest.andThen (putByBoxedFunction.andThen linkToEntry)) =
          .ok right ∧
        ofComputation {} putAndGetInNest = .ok first ∧ first.Halts ∧
        EndAlike (fun k l => (first.Halts -> k = l) ∧ (¬ first.Halts -> k = l + 1)) left right ∧
        (left.runFor 40).ending = .settled 21 ∧ (right.runFor 40).ending = .settled 21 ∧
        (left.after 21).processes.get? .anonymous = some (.halted (.pointer (.name "b")) ts) ∧
        (right.after 21).processes.get? .anonymous = some (.halted (.pointer (.name "b")) ts) := by
  rcases sequencing_associative {} putAndGetInNest putByBoxedFunction linkToEntry rfl rfl rfl with
    ⟨left, right, first, hleft, hright, hfirst, halike⟩
  cases hleft
  cases hright
  cases hfirst
  exact ⟨rfl, rfl, rfl, _, _, _, _, rfl, rfl, rfl, ⟨8, _, _, rfl⟩, halike, rfl, rfl, rfl, rfl⟩

def getMissingEntry : Computation := .get (.pointer (.name "z"))

/-- Where the first computation fails, the groupings of a sequence take different numbers of
rounds. -/
theorem getMissingEntry_rounds_differ :
    getMissingEntry.passes Screen.source.spawnless ∧
      (Computation.ret (.number 1)).passes Screen.source.spawnless ∧
      ∃ left right,
        ofComputation {} ((getMissingEntry.andThen (.ret (.number 1))).andThen (.ret (.number 1))) =
          .ok left ∧
        ofComputation {} (getMissingEntry.andThen ((Computation.ret (.number 1)).andThen
          (.ret (.number 1)))) = .ok right ∧
        left.EndsAfter 4 ∧ right.EndsAfter 3 ∧ ¬ EndAlike (fun k l => k = l) left right := by
  refine ⟨rfl, rfl, _, _, rfl, rfl, ?_⟩
  have hleft : EndsAfter (initial ((getMissingEntry.andThen (.ret (.number 1))).andThen
      (.ret (.number 1)))) 4 :=
    endsAfter_of_isAtRest (live_initial_spawnless rfl) (by decide) rfl
  have hright : EndsAfter (initial (getMissingEntry.andThen ((Computation.ret (.number 1)).andThen
      (.ret (.number 1))))) 3 :=
    endsAfter_of_isAtRest (live_initial_spawnless rfl) (by decide) rfl
  refine ⟨hleft, hright, ?_⟩
  rintro (⟨hnever, _⟩ | ⟨k, l, _, _, hk, hl, rfl, _⟩)
  · exact hleft.not_neverEnds hnever
  · have h := (hleft.unique hk).trans (hright.unique hl).symm
    omega

end World

end PushValue
