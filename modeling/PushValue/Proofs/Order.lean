import PushValue.Proofs.Round

/-!
# The order of visits

The processes of a world may be visited in any order when none of them writes a key
that another one reads or writes.  The proof follows the visits already made: an entry
that a visited process writes is in the store, every other entry is as it was when the
round began, and so each process finds what it would have found alone.

All visits read the process table of the start of the round.  A process that waits for
another one to halt therefore learns of it in the next round, whatever the order.
-/

namespace PushValue

namespace World

/-!
## Footprints
-/

def written? (world : World) (p : Stage) : Option (Symbol × Value) :=
  p.written? world.processes world.store

def touches (world : World) (p : Stage) (key : Symbol) : Bool :=
  p.consulted? == some key || (world.written? p).map Prod.fst == some key

/-- No process writes a key that another one reads or writes. -/
def isIndependent (world : World) : Bool :=
  world.processes.entries.all fun a => world.processes.entries.all fun b =>
    a.1 == b.1 || (world.written? a.2).all fun entry => !world.touches b.2 entry.1

variable {world : World}

theorem consulted?_ne_of_isIndependent (hindependent : world.isIndependent)
    {name other : Symbol} {p q : Stage} (hp : world.processes.get? name = some p)
    (hq : world.processes.get? other = some q) (hne : name ≠ other) {key : Symbol} {v : Value}
    (hwritten : world.written? p = some (key, v)) :
    q.consulted? ≠ some key ∧ ∀ w, world.written? q ≠ some (key, w) := by
  have hpair := List.all_eq_true.mp hindependent (name, p) (Table.mem_entries_iff.mpr hp)
  have htouches := List.all_eq_true.mp hpair (other, q) (Table.mem_entries_iff.mpr hq)
  simp only [hwritten, Option.all_some, touches, Bool.or_eq_true, beq_iff_eq, hne, false_or,
    Bool.not_eq_true', Bool.or_eq_false_iff, beq_eq_false_iff_ne] at htouches
  refine ⟨htouches.1, ?_⟩
  intro w hw
  rw [hw] at htouches
  exact htouches.2 rfl

/-!
## The visits already made
-/

def Visited (world : World) (names : List Symbol) (p : Stage) : Prop :=
  ∃ name ∈ names, world.processes.get? name = some p

def outcome (world : World) (p : Stage) : Visit.Outcome :=
  (p.visit world.processes world.store).outcome

/-- The round after visits to the given names, told from the start of the round alone. -/
structure Reflects (world : World) (names : List Symbol) (w : Sweep) : Prop where
  written : ∀ p key v, world.Visited names p -> world.written? p = some (key, v) ->
    w.store.get? key = some v
  unwritten : ∀ key, (∀ p v, world.Visited names p -> world.written? p ≠ some (key, v)) ->
    w.store.get? key = world.store.get? key
  visited : ∀ name p, name ∈ names -> world.processes.get? name = some p ->
    w.next.get? name = some ((world.outcome p).next?.getD p)
  unvisited : ∀ name, name ∉ names -> w.next.get? name = world.processes.get? name
  children : ∀ c, c ∈ w.children ↔ ∃ p, world.Visited names p ∧ (world.outcome p).child? = some c
  progressed : w.progressed ↔ ∃ p, world.Visited names p ∧ (world.outcome p).next?.isSome

theorem reflects_start (world : World) : Reflects world [] (Sweep.start world) where
  written := by
    rintro p key v ⟨name, hmem, _⟩
    cases hmem
  unwritten := by
    intro key _
    rfl
  visited := by
    intro name p hmem
    cases hmem
  unvisited := by
    intro name _
    rfl
  children := by
    intro c
    constructor
    · intro hmem
      cases hmem
    · rintro ⟨p, ⟨name, hmem, _⟩, _⟩
      cases hmem
  progressed := by
    constructor
    · intro h
      cases h
    · rintro ⟨p, ⟨name, hmem, _⟩, _⟩
      cases hmem

theorem visited_concat {names : List Symbol} {name : Symbol} {p q : Stage}
    (hget : world.processes.get? name = some p) :
    world.Visited (names ++ [name]) q ↔ world.Visited names q ∨ q = p := by
  constructor
  · rintro ⟨other, hmem, hq⟩
    rcases List.mem_append.mp hmem with hold | hnew
    · exact .inl ⟨other, hold, hq⟩
    · rw [List.mem_singleton.mp hnew, hget] at hq
      cases hq
      exact .inr rfl
  · rintro (⟨other, hmem, hq⟩ | rfl)
    · exact ⟨other, List.mem_append_left _ hmem, hq⟩
    · exact ⟨name, List.mem_append_right _ List.mem_cons_self, hget⟩

section Step

variable {names : List Symbol} {w : Sweep} {name : Symbol} {p : Stage}

theorem Reflects.agree (hindependent : world.isIndependent) (hw : Reflects world names w)
    (hget : world.processes.get? name = some p) (hnew : name ∉ names) {key : Symbol}
    (hkey : p.consulted? = some key) : w.store.get? key = world.store.get? key := by
  apply hw.unwritten
  rintro q v ⟨other, hmem, hq⟩ hwritten
  have hne : other ≠ name := by
    intro heq
    exact hnew (heq ▸ hmem)
  exact (consulted?_ne_of_isIndependent hindependent hq hget hne hwritten).1 hkey

theorem Reflects.attend (hindependent : world.isIndependent) (hlive : world.passes .live)
    (hw : Reflects world names w) (hget : world.processes.get? name = some p)
    (hnew : name ∉ names) :
    Reflects world (names ++ [name]) (w.attend world.processes name) := by
  have hp := World.passes_get? hlive hget
  have hagree : ∀ key, p.consulted? = some key -> w.store.get? key = world.store.get? key := by
    intro key hkey
    exact hw.agree hindependent hget hnew hkey
  have houtcome : (p.visit world.processes w.store).outcome = world.outcome p :=
    Stage.visit_agree hp hagree
  have hwrite : p.written? world.processes w.store = world.written? p :=
    Stage.written?_agree hagree
  have hattend : w.attend world.processes name = w.advance world.processes name p := by
    rw [Sweep.attend, hget]
  have hstore : (w.attend world.processes name).store = w.store.write (world.written? p) := by
    rw [hattend, ← hwrite]
    rfl
  exact {
    written := by
      intro q key v hq hwritten
      rw [hstore]
      rcases (visited_concat hget).mp hq with ⟨other, hmem, hother⟩ | rfl
      · have hne : other ≠ name := by
          intro heq
          exact hnew (heq ▸ hmem)
        have hold := hw.written q key v ⟨other, hmem, hother⟩ hwritten
        have hapart := (consulted?_ne_of_isIndependent hindependent hother hget hne hwritten).2
        cases hentry : world.written? p with
        | none => exact hold
        | some entry =>
            have hkey : key ≠ entry.1 := by
              rintro rfl
              exact hapart entry.2 hentry
            rw [Store.write, Table.get?_insert_of_ne _ hkey]
            exact hold
      · rw [hwritten, Store.write, Table.get?_insert_self]
    unwritten := by
      intro key hfree
      rw [hstore]
      have hold : w.store.get? key = world.store.get? key := by
        apply hw.unwritten
        intro q v hq
        exact hfree q v ((visited_concat hget).mpr (.inl hq))
      cases hentry : world.written? p with
      | none => exact hold
      | some entry =>
          have hkey : key ≠ entry.1 := by
            rintro rfl
            exact hfree p entry.2 ((visited_concat hget).mpr (.inr rfl)) hentry
          rw [Store.write, Table.get?_insert_of_ne _ hkey]
          exact hold
    visited := by
      intro other q hmem hq
      by_cases hother : other = name
      · rw [hother] at hq ⊢
        rw [hget] at hq
        cases hq
        rw [Sweep.next_attend_self hget ((hw.unvisited name hnew).trans hget), houtcome]
      · rw [Sweep.next_attend_of_ne hother]
        rcases List.mem_append.mp hmem with hold | hlast
        · exact hw.visited other q hold hq
        · exact absurd (List.mem_singleton.mp hlast) hother
    unvisited := by
      intro other hmem
      rw [List.mem_append, not_or, List.mem_singleton] at hmem
      rw [Sweep.next_attend_of_ne hmem.2]
      exact hw.unvisited other hmem.1
    children := by
      intro c
      rw [hattend]
      show c ∈ w.children ++ (p.visit world.processes w.store).outcome.child?.toList ↔ _
      rw [List.mem_append, hw.children, houtcome, Option.mem_toList]
      constructor
      · rintro (⟨q, hq, hchild⟩ | hchild)
        · exact ⟨q, (visited_concat hget).mpr (.inl hq), hchild⟩
        · exact ⟨p, (visited_concat hget).mpr (.inr rfl), hchild⟩
      · rintro ⟨q, hq, hchild⟩
        rcases (visited_concat hget).mp hq with hold | rfl
        · exact .inl ⟨q, hold, hchild⟩
        · exact .inr hchild
    progressed := by
      rw [hattend]
      show (w.progressed || (p.visit world.processes w.store).outcome.next?.isSome) = true ↔ _
      rw [Bool.or_eq_true, hw.progressed, houtcome]
      constructor
      · rintro (⟨q, hq, hnext⟩ | hnext)
        · exact ⟨q, (visited_concat hget).mpr (.inl hq), hnext⟩
        · exact ⟨p, (visited_concat hget).mpr (.inr rfl), hnext⟩
      · rintro ⟨q, hq, hnext⟩
        rcases (visited_concat hget).mp hq with hold | rfl
        · exact .inl ⟨q, hold, hnext⟩
        · exact .inr hnext }

end Step

theorem Reflects.foldl (hindependent : world.isIndependent) (hlive : world.passes .live)
    {names rest : List Symbol} {w : Sweep} (hw : Reflects world names w)
    (hdistinct : (names ++ rest).Nodup) (hrest : ∀ name ∈ rest, world.processes.contains name) :
    Reflects world (names ++ rest) (rest.foldl (Sweep.attend world.processes) w) := by
  induction rest generalizing names w with
  | nil =>
      rw [List.append_nil]
      exact hw
  | cons name rest ih =>
      have hnew := notMem_of_nodup hdistinct
      rcases Table.contains_iff.mp (hrest name List.mem_cons_self) with ⟨p, hget⟩
      have hstep := hw.attend hindependent hlive hget hnew
      have happend : names ++ name :: rest = (names ++ [name]) ++ rest := by
        rw [List.append_assoc]
        rfl
      rw [happend] at hdistinct ⊢
      apply ih hstep hdistinct
      intro other hother
      exact hrest other (List.mem_cons_of_mem name hother)

/-!
## All orders
-/

theorem Reflects.congr {names names' : List Symbol} {w : Sweep} (hw : Reflects world names w)
    (hmem : ∀ name, name ∈ names ↔ name ∈ names') : Reflects world names' w := by
  have hvisited : ∀ p, world.Visited names p ↔ world.Visited names' p := by
    intro p
    constructor
    · rintro ⟨name, hname, hget⟩
      exact ⟨name, (hmem name).mp hname, hget⟩
    · rintro ⟨name, hname, hget⟩
      exact ⟨name, (hmem name).mpr hname, hget⟩
  exact {
    written := by
      intro p key v hp
      exact hw.written p key v ((hvisited p).mpr hp)
    unwritten := by
      intro key hfree
      apply hw.unwritten
      intro p v hp
      exact hfree p v ((hvisited p).mp hp)
    visited := by
      intro name p hname
      exact hw.visited name p ((hmem name).mpr hname)
    unvisited := by
      intro name hname
      exact hw.unvisited name (mt (hmem name).mp hname)
    children := by
      intro c
      rw [hw.children]
      simp only [hvisited]
    progressed := by
      rw [hw.progressed]
      simp only [hvisited] }

/-- Whatever the order of the visits, the round is told from its start in the same way. -/
theorem reflects_sweep (hindependent : world.isIndependent) (hlive : world.passes .live)
    {order : List Symbol} (horder : order.Perm world.processes.keys) :
    Reflects world world.processes.keys (world.sweep order) := by
  have hdistinct : ([] ++ order).Nodup := horder.nodup_iff.mpr world.processes.keys_nodup
  have hnames : ∀ name ∈ order, world.processes.contains name := by
    intro name hname
    exact Table.mem_keys_iff.mp (horder.mem_iff.mp hname)
  have hsweep := (reflects_start world).foldl hindependent hlive hdistinct hnames
  exact hsweep.congr fun name => horder.mem_iff

section Unique

variable {names : List Symbol} {w w' : Sweep}

theorem Reflects.store_eq (hw : Reflects world names w) (hw' : Reflects world names w') :
    w.store = w'.store := by
  apply Table.ext_get?
  intro key
  by_cases hwriter : ∃ p v, world.Visited names p ∧ world.written? p = some (key, v)
  · rcases hwriter with ⟨p, v, hp, hwritten⟩
    rw [hw.written p key v hp hwritten, hw'.written p key v hp hwritten]
  · have hfree : ∀ p v, world.Visited names p -> world.written? p ≠ some (key, v) := by
      intro p v hp hwritten
      exact hwriter ⟨p, v, hp, hwritten⟩
    rw [hw.unwritten key hfree, hw'.unwritten key hfree]

theorem Reflects.next_eq (hw : Reflects world names w) (hw' : Reflects world names w')
    (hnames : ∀ name ∈ names, world.processes.contains name) : w.next = w'.next := by
  apply Table.ext_get?
  intro name
  by_cases hname : name ∈ names
  · rcases Table.contains_iff.mp (hnames name hname) with ⟨p, hget⟩
    rw [hw.visited name p hname hget, hw'.visited name p hname hget]
  · rw [hw.unvisited name hname, hw'.unvisited name hname]

theorem Reflects.mem_children_iff (hw : Reflects world names w) (hw' : Reflects world names w')
    (c : Symbol × Stage) : c ∈ w.children ↔ c ∈ w'.children := by
  rw [hw.children, hw'.children]

theorem Reflects.progressed_eq (hw : Reflects world names w) (hw' : Reflects world names w') :
    w.progressed = w'.progressed := by
  rw [Bool.eq_iff_iff, hw.progressed, hw'.progressed]

end Unique

end World

theorem Sweep.joined_congr (table : Processes) {children children' : List (Symbol × Stage)}
    (hdistinct : (children.map Prod.fst).Nodup) (hdistinct' : (children'.map Prod.fst).Nodup)
    (hmem : ∀ c, c ∈ children ↔ c ∈ children') :
    joined table children = joined table children' := by
  apply Table.ext_get?
  intro name
  by_cases hname : name ∈ children.map Prod.fst
  · rcases List.mem_map.mp hname with ⟨c, hc, rfl⟩
    rw [get?_joined_of_mem hdistinct hc, get?_joined_of_mem hdistinct' ((hmem c).mp hc)]
  · have hname' : name ∉ children'.map Prod.fst := by
      intro hin
      rcases List.mem_map.mp hin with ⟨c, hc, rfl⟩
      exact hname (List.mem_map_of_mem ((hmem c).mpr hc))
    rw [get?_joined_of_notMem hname, get?_joined_of_notMem hname']

namespace World

variable {world : World}

theorem roundIn_eq_round (hlive : world.passes .live) (hindependent : world.isIndependent)
    {order : List Symbol} (horder : order.Perm world.processes.keys) :
    world.roundIn order = world.round := by
  have hleft := reflects_sweep hindependent hlive horder
  have hright := reflects_sweep hindependent hlive (List.Perm.refl world.processes.keys)
  have hnames : ∀ name ∈ world.processes.keys, world.processes.contains name := by
    intro name hname
    exact Table.mem_keys_iff.mp hname
  have hchildren := Sweep.joined_congr (world.sweep world.processes.keys).next
    (sound_sweep hlive order).distinct (sound_sweep hlive world.processes.keys).distinct
    (hleft.mem_children_iff hright)
  rw [round_eq hlive, roundIn_eq hlive, roundIn_eq hlive, progress, progress,
    hleft.store_eq hright, hleft.progressed_eq hright, hleft.next_eq hright hnames, hchildren]

/-!
## Waiting for a process
-/

theorem get?_roundIn_of_perm (hlive : world.passes .live) {order : List Symbol}
    (horder : order.Perm world.processes.keys) {name : Symbol} {p next : Stage}
    (hget : world.processes.get? name = some p)
    (hnext : ∀ store, (p.visit world.processes store).outcome.next?.getD p = next) :
    (world.roundIn order).world.processes.get? name = some next := by
  have hmem : name ∈ order :=
    horder.mem_iff.mpr (Table.mem_keys_iff.mpr (Table.contains_iff.mpr ⟨p, hget⟩))
  have hdistinct : order.Nodup := horder.nodup_iff.mpr world.processes.keys_nodup
  rcases List.append_of_mem hmem with ⟨before, later, rfl⟩
  rw [get?_roundIn hlive hget hdistinct, hnext]

theorem get?_roundIn_link (hlive : world.passes .live) {order : List Symbol}
    (horder : order.Perm world.processes.keys) {name target : Symbol} {r : Running} {v : Value}
    (hget : world.processes.get? name = some (.running r)) (hcontrol : r.control = .link v)
    (htarget : v.resolve r.env = .ok (.process target)) :
    (world.roundIn order).world.processes.get? name = some (.awaitingHalt r target) := by
  apply get?_roundIn_of_perm hlive horder hget
  intro store
  have hhead : r.control.head = .ok r.control := by
    rw [hcontrol]
    rfl
  have hstep : r.step store = ⟨.signal (.awaitHalt target), store, r⟩ := by
    rw [Running.step_of_head hhead, hcontrol, Running.reduce]
    simp only [htarget, Attempt.proceed_ok]
    rw [← hcontrol]
  rw [Stage.visit, hstep]
  rfl

theorem get?_roundIn_awaitingHalt (hlive : world.passes .live) {order : List Symbol}
    (horder : order.Perm world.processes.keys) {name target : Symbol} {r : Running} {q : Stage}
    (hget : world.processes.get? name = some (.awaitingHalt r target))
    (htarget : world.processes.get? target = some q) :
    (world.roundIn order).world.processes.get? name =
      match q with
      | .halted v _ => some (.running ((r.record (.link (.process target) v)).returning v))
      | _ => some (.awaitingHalt r target) := by
  have hp := World.passes_get? hlive hget
  simp only [Stage.passes, Bool.and_eq_true] at hp
  cases q with
  | halted v ts =>
      apply get?_roundIn_of_perm hlive horder hget
      intro store
      rw [Stage.visit_awaitingHalt hp.2, htarget]
      rfl
  | _ =>
      apply get?_roundIn_of_perm hlive horder hget
      intro store
      rw [Stage.visit_awaitingHalt hp.2, htarget]
      rfl

end World

def Stage.isHalted : Stage -> Bool
  | .halted _ _ => true
  | _ => false

namespace World

/-- When no process writes a key that another one reads or writes, a round comes to the same in
every order.  In every order, a process that links to another one only begins to wait, and one
that waits goes on waiting unless the other had halted when the round began; if the other halts in
the round, the next round hands its value over, again in every order. -/
theorem round_order_irrelevant (world : World) (hlive : world.passes .live)
    (hindependent : world.isIndependent) (order : List Symbol)
    (horder : order.Perm world.processes.keys) :
    (world.roundIn order).world = world.round.world ∧
      (world.roundIn order).result = world.round.result ∧
      (∃ p, world.round.result = .ok p) ∧
      (∀ name target r v, world.processes.get? name = some (.running r) ->
        r.control = .link v -> v.resolve r.env = .ok (.process target) ->
        (world.roundIn order).world.processes.get? name = some (.awaitingHalt r target)) ∧
      (∀ name target r q, world.processes.get? name = some (.awaitingHalt r target) ->
        world.processes.get? target = some q -> q.isHalted = false ->
        (world.roundIn order).world.processes.get? name = some (.awaitingHalt r target) ∧
          ∀ v ts, (world.roundIn order).world.processes.get? target = some (.halted v ts) ->
            ∀ order', order'.Perm (world.roundIn order).world.processes.keys ->
              ((world.roundIn order).world.roundIn order').world.processes.get? name =
                some (.running ((r.record (.link (.process target) v)).returning v))) := by
  have hround := roundIn_eq_round hlive hindependent horder
  refine ⟨?_, ?_, ?_, ?_, ?_⟩
  · rw [hround]
  · rw [hround]
  · rw [round_eq hlive, roundIn_eq hlive]
    exact ⟨_, rfl⟩
  · intro name target r v hget hcontrol htarget
    exact get?_roundIn_link hlive horder hget hcontrol htarget
  · intro name target r q hget htarget hrunning
    have hwaiting : (world.roundIn order).world.processes.get? name =
        some (.awaitingHalt r target) := by
      rw [get?_roundIn_awaitingHalt hlive horder hget htarget]
      cases q with
      | halted v ts => cases hrunning
      | _ => rfl
    refine ⟨hwaiting, ?_⟩
    intro v ts hhalted order' horder'
    exact get?_roundIn_awaitingHalt (passes_roundIn hlive order) horder' hwaiting hhalted

def haltLinkPutSpawn : World where
  store := Table.ofList [(.name "y", .number 2)]
  processes := Table.ofList
    [(.anonymous, .running { control := .returned (.number 1) }),
      (.name "a", .awaitingHalt { control := .link (.process .anonymous) } .anonymous),
      (.name "b", .running { control := .put (.symbol (.name "x")) (.number 3) }),
      (.name "c", .running
        { control := .spawn (.symbol (.name "d")) (.get (.pointer (.name "y"))) })]

theorem haltLinkPutSpawn_order_irrelevant :
    haltLinkPutSpawn.passes .live ∧ haltLinkPutSpawn.isIndependent ∧
      (haltLinkPutSpawn.roundIn haltLinkPutSpawn.processes.keys.reverse).world =
        haltLinkPutSpawn.round.world ∧
      (haltLinkPutSpawn.roundIn haltLinkPutSpawn.processes.keys.reverse).world.processes.get?
          (.name "a") =
        some (.awaitingHalt { control := .link (.process .anonymous) } .anonymous) := by
  have horder := round_order_irrelevant haltLinkPutSpawn rfl rfl _ (List.reverse_perm _)
  exact ⟨rfl, rfl, horder.1, (horder.2.2.2.2 _ _ _ _ rfl rfl rfl).1⟩

end World

end PushValue
