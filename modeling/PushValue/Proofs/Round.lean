import PushValue.Proofs.Footprint
import PushValue.Proofs.Invariant
import PushValue.Proofs.Normalize.Hoisting
import PushValue.Proofs.Screen.Normalize

/-!
# Rounds of live worlds

In a live world, where every term is well-sorted and has no holes, no visit breaks and
no name is reserved or taken twice.  A round is then a fold over the visited names that
cannot fail, and the world that it leaves is live again.
-/

namespace PushValue

theorem Screen.live_admits (a : Attempt) : live.Admits a where
  within := live_within
  pointer _ hs _ := hs
  process _ _ _ _ hname := hname

theorem Stage.visit_live {table : Processes} {store : Store} {p : Stage}
    (htable : table.all (Stage.passes .live)) (hstore : store.all (Value.passes .live))
    (hp : p.passes .live) : Visit.Passes .live (p.visit table store) := by
  apply visit_passes htable hstore hp fun _ _ => Screen.live_admits _
  intro r hr hcontrol
  rw [hr] at hp
  have hhole := (Running.passes_iff.mp hp).1
  rw [hcontrol] at hhole
  cases hhole

/-- The process that a visit to a live process asks for: it is live, and its name is free and is
the entry that the visit writes. -/
theorem Stage.child_live {table : Processes} {store : Store} {p : Stage}
    (htable : table.all (Stage.passes .live)) (hstore : store.all (Value.passes .live))
    (hp : p.passes .live) {name : Symbol} {child : Stage}
    (h : (p.visit table store).outcome.child? = some (name, child)) :
    name.isProper ∧ child.passes .live ∧ store.contains name = false ∧
      table.contains name = false ∧ p.written? table store = some (name, .process name) := by
  rcases spawn_of_visit hp h with
    ⟨r, v, body, rfl, hspawn, _hcontrol, _hchild, _hstored, hfree, hnew⟩
  have hwritten : (running r).written? table store = some (name, .process name) := by
    simp [written?, hspawn, hfree, hnew]
  have hvisit := visit_live htable hstore hp
  cases houtcome : ((running r).visit table store).outcome with
  | spawned next name' child' =>
      rw [houtcome] at h
      cases h
      rcases hvisit.spawned next name child houtcome with ⟨_hnext, hchild, hname⟩
      exact ⟨hname, hchild, hfree, hnew, hwritten⟩
  | _ =>
      rw [houtcome] at h
      cases h

theorem Stage.next_live {table : Processes} {store : Store} {p q : Stage}
    (htable : table.all (Stage.passes .live)) (hstore : store.all (Value.passes .live))
    (hp : p.passes .live) (h : (p.visit table store).outcome.next? = some q) :
    q.passes .live := by
  have hvisit := visit_live htable hstore hp
  cases houtcome : (p.visit table store).outcome with
  | moved next =>
      rw [houtcome] at h
      cases h
      exact hvisit.moved q houtcome
  | spawned next name child =>
      rw [houtcome] at h
      cases h
      exact (hvisit.spawned q name child houtcome).1
  | _ =>
      rw [houtcome] at h
      cases h

theorem Stage.write_live {table : Processes} {store : Store} {p : Stage}
    (htable : table.all (Stage.passes .live)) (hstore : store.all (Value.passes .live))
    (hp : p.passes .live) :
    (store.write (p.written? table store)).all (Value.passes .live) := by
  have hvisit := visit_live htable hstore hp
  rw [← reserve_eq_write hp]
  cases hchild : (p.visit table store).outcome.child? with
  | none => exact hvisit.store
  | some c =>
      have hname := (child_live htable hstore hp hchild).1
      exact Table.all_insert c.1 hvisit.store hname

def Processes.move (table : Processes) (name : Symbol) : Option Stage -> Processes
  | none => table
  | some next => table.insert name next

namespace Sweep

/-!
## Visits that do not break
-/

def advance (table : Processes) (w : Sweep) (name : Symbol) (p : Stage) : Sweep :=
  let v := p.visit table w.store
  { store := w.store.write (p.written? table w.store)
    next := w.next.move name v.outcome.next?
    left := w.left.insert name v.left
    children := w.children ++ v.outcome.child?.toList
    progressed := w.progressed || v.outcome.next?.isSome }

/-- The round after a visit to a name, which passes over a name that no process has. -/
def attend (table : Processes) (w : Sweep) (name : Symbol) : Sweep :=
  match table.get? name with
  | none => w
  | some p => w.advance table name p

/-- What holds of a round of a live world after each visit. -/
structure Sound (table : Processes) (w : Sweep) : Prop where
  store : w.store.all (Value.passes .live)
  next : w.next.all (Stage.passes .live)
  /-- The names are those of the start of the round. -/
  names : ∀ name, w.next.contains name = table.contains name
  live : ∀ c ∈ w.children, c.1.isProper ∧ c.2.passes .live
  /-- The names of children are reserved and were no names of processes. -/
  reserved : ∀ c ∈ w.children, w.store.contains c.1 ∧ table.contains c.1 = false
  distinct : (w.children.map Prod.fst).Nodup

variable {table : Processes} {w : Sweep}

theorem visit_eq_attend (htable : table.all (Stage.passes .live))
    (hstore : w.store.all (Value.passes .live)) (name : Symbol) :
    visit table w name = .ok (w.attend table name) := by
  unfold visit attend advance
  cases hget : table.get? name with
  | none => rfl
  | some p =>
      have hp := Table.all_iff.mp htable name p hget
      have hwrite := @Stage.reserve_eq_write table w.store p hp
      cases houtcome : (p.visit table w.store).outcome with
      | resting =>
          simp only [houtcome, Visit.Outcome.child?] at hwrite
          simp only [houtcome, hwrite, Visit.Outcome.next?, Visit.Outcome.child?, Processes.move,
            Option.toList_none, List.append_nil, Option.isSome_none, Bool.or_false]
      | moved next =>
          simp only [houtcome, Visit.Outcome.child?] at hwrite
          simp only [houtcome, hwrite, Visit.Outcome.next?, Visit.Outcome.child?, Processes.move,
            Option.toList_none, List.append_nil, Option.isSome_some, Bool.or_true]
      | spawned next childName child =>
          have hchild : (p.visit table w.store).outcome.child? = some (childName, child) := by
            rw [houtcome]
            rfl
          rcases Stage.spawn_of_visit hp hchild with
            ⟨r, v, body, _hp, _hspawn, _hcontrol, _hchild, hstored, hfree, _htable⟩
          rw [hchild] at hwrite
          simp only [houtcome, reserve, hstored, hfree, Visit.Outcome.next?,
            Visit.Outcome.child?, Processes.move, Option.toList_some, Option.isSome_some,
            Bool.or_true, ← hwrite]
          rfl
      | broken b =>
          have hvisit := Stage.visit_live htable hstore hp
          exact absurd Screen.strict_live (hvisit.broken b houtcome)

theorem sound_start (world : World) (hworld : world.passes .live) :
    Sound world.processes (start world) := by
  rcases World.passes_iff.mp hworld with ⟨hstore, hprocesses, _hnames⟩
  exact {
    store := hstore
    next := hprocesses
    names := by
      intro name
      rfl
    live := by
      intro c hc
      cases hc
    reserved := by
      intro c hc
      cases hc
    distinct := List.nodup_nil }

theorem Sound.advance (htable : table.all (Stage.passes .live)) (hw : Sound table w)
    {name : Symbol} {p : Stage} (hget : table.get? name = some p) :
    Sound table (w.advance table name p) := by
  have hp := Table.all_iff.mp htable name p hget
  have hchild : ∀ c ∈ (p.visit table w.store).outcome.child?.toList,
      c.1.isProper ∧ c.2.passes .live ∧ w.store.contains c.1 = false ∧
        table.contains c.1 = false ∧ p.written? table w.store = some (c.1, .process c.1) := by
    intro c hc
    exact Stage.child_live htable hw.store hp (Option.mem_toList.mp hc)
  exact {
    store := Stage.write_live htable hw.store hp
    next := by
      show (w.next.move name (p.visit table w.store).outcome.next?).all (Stage.passes .live)
      cases hnext : (p.visit table w.store).outcome.next? with
      | none => exact hw.next
      | some q => exact Table.all_insert name hw.next (Stage.next_live htable hw.store hp hnext)
    names := by
      intro other
      show (w.next.move name (p.visit table w.store).outcome.next?).contains other = _
      cases (p.visit table w.store).outcome.next? with
      | none => exact hw.names other
      | some q =>
          have hcontains : table.contains name := Table.contains_iff.mpr ⟨p, hget⟩
          rw [Processes.move, Table.contains_insert, hw.names]
          by_cases hother : other = name
          · rw [hother, hcontains, Bool.or_true]
          · rw [decide_eq_false hother, Bool.false_or]
    live := by
      intro c hc
      rcases List.mem_append.mp hc with hold | hnew
      · exact hw.live c hold
      · exact ⟨(hchild c hnew).1, (hchild c hnew).2.1⟩
    reserved := by
      intro c hc
      rcases List.mem_append.mp hc with hold | hnew
      · rcases hw.reserved c hold with ⟨hstored, hfree⟩
        exact ⟨Store.contains_write hstored _, hfree⟩
      · rcases hchild c hnew with ⟨_hproper, _hlive, _hstored, hfree, hwritten⟩
        refine ⟨?_, hfree⟩
        show (w.store.write (p.written? table w.store)).contains c.1
        rw [hwritten, Store.write, Table.contains_insert, decide_eq_true rfl, Bool.true_or]
    distinct := by
      show ((w.children ++ (p.visit table w.store).outcome.child?.toList).map Prod.fst).Nodup
      rw [List.map_append, List.nodup_append]
      refine ⟨hw.distinct, ?_, ?_⟩
      · cases (p.visit table w.store).outcome.child? with
        | none => exact List.nodup_nil
        | some c => exact List.nodup_cons.mpr ⟨List.not_mem_nil, List.nodup_nil⟩
      · intro a ha b hb hab
        rcases List.mem_map.mp ha with ⟨c, hc, rfl⟩
        rcases List.mem_map.mp hb with ⟨d, hd, hdb⟩
        have hstored := (hw.reserved c hc).1
        rw [hab, ← hdb, (hchild d hd).2.2.1] at hstored
        cases hstored }

theorem Sound.attend (htable : table.all (Stage.passes .live)) (hw : Sound table w)
    (name : Symbol) : Sound table (w.attend table name) := by
  unfold Sweep.attend
  cases hget : table.get? name with
  | none => exact hw
  | some p => exact hw.advance htable hget

theorem foldlM_visit (htable : table.all (Stage.passes .live)) (hw : Sound table w)
    (order : List Symbol) :
    order.foldlM (visit table) w = .ok (order.foldl (attend table) w) ∧
      Sound table (order.foldl (attend table) w) := by
  induction order generalizing w with
  | nil => exact ⟨rfl, hw⟩
  | cons name rest ih =>
      rcases ih (hw.attend htable name) with ⟨hrest, hsound⟩
      constructor
      · rw [List.foldlM_cons, visit_eq_attend htable hw.store]
        exact hrest
      · exact hsound

theorem next_attend_of_ne {name other : Symbol} (h : other ≠ name) :
    (w.attend table name).next.get? other = w.next.get? other := by
  unfold attend
  cases table.get? name with
  | none => rfl
  | some p =>
      show (w.next.move name (p.visit table w.store).outcome.next?).get? other = _
      cases (p.visit table w.store).outcome.next? with
      | none => rfl
      | some next => exact Table.get?_insert_of_ne w.next h next

theorem next_foldl_of_notMem {name : Symbol} {order : List Symbol} (h : name ∉ order) :
    (order.foldl (attend table) w).next.get? name = w.next.get? name := by
  induction order generalizing w with
  | nil => rfl
  | cons other rest ih =>
      rw [List.mem_cons, not_or] at h
      rw [List.foldl_cons, ih h.2, next_attend_of_ne h.1]

theorem next_attend_self {name : Symbol} {p : Stage} (hget : table.get? name = some p)
    (hnext : w.next.get? name = some p) :
    (w.attend table name).next.get? name =
      some ((p.visit table w.store).outcome.next?.getD p) := by
  simp only [attend, hget]
  show (w.next.move name (p.visit table w.store).outcome.next?).get? name = _
  cases (p.visit table w.store).outcome.next? with
  | none => exact hnext
  | some next => exact Table.get?_insert_self w.next name next

/-!
## The end of a round
-/

def joined (table : Processes) (children : List (Symbol × Stage)) : Processes :=
  children.foldl (fun t c => t.insert c.1 c.2) table

theorem contains_insert_child {c : Symbol × Stage} {rest : List (Symbol × Stage)}
    (hfree : ∀ d ∈ c :: rest, table.contains d.1 = false) (hc : c.1 ∉ rest.map Prod.fst) :
    ∀ d ∈ rest, (table.insert c.1 c.2).contains d.1 = false := by
  intro d hd
  have hne : d.1 ≠ c.1 := by
    intro heq
    exact hc (heq ▸ List.mem_map_of_mem hd)
  rw [Table.contains_insert, decide_eq_false hne, Bool.false_or]
  exact hfree d (List.mem_cons_of_mem c hd)

theorem enroll_eq_joined {children : List (Symbol × Stage)}
    (hfree : ∀ c ∈ children, table.contains c.1 = false)
    (hdistinct : (children.map Prod.fst).Nodup) :
    enroll table children = .ok (joined table children) := by
  induction children generalizing table with
  | nil => rfl
  | cons c rest ih =>
      rw [List.map_cons, List.nodup_cons] at hdistinct
      rw [enroll, hfree c List.mem_cons_self]
      exact ih (contains_insert_child hfree hdistinct.1) hdistinct.2

theorem get?_joined_of_notMem {children : List (Symbol × Stage)} {name : Symbol}
    (h : name ∉ children.map Prod.fst) : (joined table children).get? name = table.get? name :=
  Table.get?_foldl_insert_of_notMem h table

theorem get?_joined_of_mem {children : List (Symbol × Stage)} {name : Symbol} {child : Stage}
    (hdistinct : (children.map Prod.fst).Nodup) (h : (name, child) ∈ children) :
    (joined table children).get? name = some child :=
  Table.get?_foldl_insert_of_mem hdistinct h table

theorem Sound.free (hw : Sound table w) : ∀ c ∈ w.children, w.next.contains c.1 = false := by
  intro c hc
  rw [hw.names]
  exact (hw.reserved c hc).2

theorem Sound.finish (hw : Sound table w) :
    w.finish = ⟨.ok (if w.progressed then .progress else .noProgress),
      ⟨w.store, joined w.next w.children⟩⟩ := by
  rw [Sweep.finish, enroll_eq_joined hw.free hw.distinct]

theorem Sound.get?_joined (hw : Sound table w) {name : Symbol} {p : Stage}
    (h : (joined w.next w.children).get? name = some p) :
    w.next.get? name = some p ∨ (name, p) ∈ w.children := by
  by_cases hname : name ∈ w.children.map Prod.fst
  · rcases List.mem_map.mp hname with ⟨c, hc, rfl⟩
    rw [get?_joined_of_mem hw.distinct hc] at h
    cases h
    exact .inr hc
  · rw [get?_joined_of_notMem hname] at h
    exact .inl h

end Sweep

namespace World

/-!
## Whole rounds and runs
-/

def sweep (world : World) (order : List Symbol) : Sweep :=
  order.foldl (Sweep.attend world.processes) (Sweep.start world)

def progress (world : World) (order : List Symbol) : Progress :=
  if world.processes.isEmpty then .noProcesses
  else if (world.sweep order).progressed then .progress
  else .noProgress

variable {world : World}

theorem sound_sweep (hworld : world.passes .live) (order : List Symbol) :
    Sweep.Sound world.processes (world.sweep order) :=
  (Sweep.foldlM_visit (World.passes_iff.mp hworld).2.1 (Sweep.sound_start world hworld) order).2

theorem foldlM_eq_sweep (hworld : world.passes .live) (order : List Symbol) :
    order.foldlM (Sweep.visit world.processes) (Sweep.start world) = .ok (world.sweep order) :=
  (Sweep.foldlM_visit (World.passes_iff.mp hworld).2.1 (Sweep.sound_start world hworld) order).1

theorem sweep_of_isEmpty (hempty : world.processes.isEmpty) (order : List Symbol) :
    world.sweep order = Sweep.start world := by
  unfold sweep
  induction order with
  | nil => rfl
  | cons name rest ih =>
      have hget : world.processes.get? name = none := by
        unfold Table.get?
        rw [List.isEmpty_iff.mp hempty]
        rfl
      rw [List.foldl_cons, Sweep.attend, hget]
      exact ih

/-- A round of a live world does not break, in whatever order the processes are visited. -/
theorem roundIn_eq (hworld : world.passes .live) (order : List Symbol) :
    world.roundIn order = ⟨.ok (world.progress order),
      ⟨(world.sweep order).store,
        Sweep.joined (world.sweep order).next (world.sweep order).children⟩⟩ := by
  unfold roundIn progress
  by_cases hempty : world.processes.isEmpty
  · rw [if_pos hempty, if_pos hempty, sweep_of_isEmpty hempty]
    rfl
  · rw [if_neg hempty, if_neg hempty, foldlM_eq_sweep hworld]
    exact (sound_sweep hworld order).finish

theorem round_eq (hworld : world.passes .live) :
    world.round = world.roundIn world.processes.keys := by
  have hnames : world.processes.keys.all Symbol.isProper := (World.passes_iff.mp hworld).2.2
  rw [round, if_pos hnames]

theorem passes_roundIn (hworld : world.passes .live) (order : List Symbol) :
    (world.roundIn order).world.passes .live := by
  have hsound := sound_sweep hworld order
  rw [roundIn_eq hworld, World.passes_iff]
  refine ⟨hsound.store, ?_, ?_⟩
  · rw [Table.all_iff]
    intro name p hget
    rcases hsound.get?_joined hget with hnext | hchild
    · exact Table.all_iff.mp hsound.next name p hnext
    · exact (hsound.live (name, p) hchild).2
  · rw [List.all_eq_true]
    intro name hname
    rcases Table.contains_iff.mp (Table.mem_keys_iff.mp hname) with ⟨p, hget⟩
    rcases hsound.get?_joined hget with hnext | hchild
    · have hcontains : world.processes.contains name := by
        rw [← hsound.names]
        exact Table.contains_iff.mpr ⟨p, hnext⟩
      exact List.all_eq_true.mp (World.passes_iff.mp hworld).2.2 name
        (Table.mem_keys_iff.mpr hcontains)
    · exact (hsound.live (name, p) hchild).1

theorem notMem_of_nodup {name : Symbol} {before later : List Symbol}
    (h : (before ++ name :: later).Nodup) : name ∉ before := by
  intro hmem
  exact (List.nodup_append.mp h).2.2 name hmem name List.mem_cons_self rfl

/-- What becomes of a process in a round is decided by the visit to it. -/
theorem get?_roundIn (hworld : world.passes .live) {name : Symbol} {p : Stage}
    {before later : List Symbol} (hget : world.processes.get? name = some p)
    (horder : (before ++ name :: later).Nodup) :
    (world.roundIn (before ++ name :: later)).world.processes.get? name =
      some ((p.visit world.processes (world.sweep before).store).outcome.next?.getD p) := by
  have hunvisited := notMem_of_nodup horder
  rw [List.nodup_append, List.nodup_cons] at horder
  rcases horder with ⟨_hbefore, ⟨hlater, _⟩, _hdisjoint⟩
  have hsound := sound_sweep hworld (before ++ name :: later)
  have hold : name ∉ (world.sweep (before ++ name :: later)).children.map Prod.fst := by
    intro hmem
    rcases List.mem_map.mp hmem with ⟨c, hc, rfl⟩
    have hfree := (hsound.reserved c hc).2
    rw [Table.contains_iff.mpr ⟨p, hget⟩] at hfree
    cases hfree
  rw [roundIn_eq hworld, Sweep.get?_joined_of_notMem hold]
  unfold sweep
  rw [List.foldl_append, List.foldl_cons, Sweep.next_foldl_of_notMem hlater]
  apply Sweep.next_attend_self hget
  rw [Sweep.next_foldl_of_notMem hunvisited]
  exact hget

theorem passes_after (hworld : world.passes .live) (n : Nat) :
    (world.after n).passes .live := by
  induction n with
  | zero => exact hworld
  | succ n ih =>
      show (world.after n).round.world.passes .live
      rw [round_eq ih]
      exact passes_roundIn ih _

theorem passes_initial {S : Screen} {body : Computation} (hbody : body.passes S)
    (hname : S.symbol .anonymous) : (initial body).passes S := by
  rw [World.passes_iff]
  refine ⟨rfl, ?_, ?_⟩
  · exact Table.all_insert Symbol.anonymous rfl hbody
  · show (S.symbol .anonymous && true) = true
    rw [hname]
    rfl

theorem live_initial {body : Computation} (hbody : body.passes .source) :
    (initial body).passes .live :=
  passes_initial (body.passes_mono Screen.source_within_live hbody) rfl

theorem exists_hoisted (settings : Settings) {e : Computation} (he : e.passes .source) :
    ∃ names hoisted bs, e.Hoists True names hoisted bs ∧
      ofComputation settings e = .ok (initial (hoisted.close bs)) ∧
      (initial (hoisted.close bs)).passes .live := by
  rcases exists_ofComputation Screen.normal_source settings he with ⟨body, hworld, hbody⟩
  rcases exists_of_ofComputation hworld with ⟨hoisted, bs, supply, hrun, hinitial⟩
  have hlive := live_initial hbody
  rw [hinitial] at hworld hlive
  have hmixed : True ∨ e.passes .unmixed := .inl trivial
  rcases e.hoist_draws hmixed _ _ _ hrun with ⟨names, _, hhoists⟩
  exact ⟨names, hoisted, bs, hhoists, hworld, hlive⟩

/-- A well-sorted program without holes and return markers can be run, and no round of its run
breaks: no hole comes to a head, no name is reserved or taken twice, and nothing is out of place. -/
theorem rounds_never_break (settings : Settings) (e : Computation) (he : e.passes .source) :
    ∃ world, ofComputation settings e = .ok world ∧
      ∀ n, ∃ p, (world.after n).round.result = .ok p := by
  rcases exists_ofComputation Screen.normal_source settings he with ⟨body, hworld, hbody⟩
  refine ⟨initial body, hworld, ?_⟩
  intro n
  have hlive := passes_after (live_initial hbody) n
  rw [round_eq hlive, roundIn_eq hlive]
  exact ⟨_, rfl⟩

def spawnLinkGet : Computation :=
  .bind (.variable "p")
    (.nest (.symbol (.name "n"))
      (.spawn (.symbol (.name "a")) (.put (.symbol (.name "x")) (.operand (.ret (.number 1))))))
    (.bind (.variable "q") (.link (.variable "p")) (.get (.variable "q")))

theorem spawnLinkGet_never_breaks :
    spawnLinkGet.passes .source ∧ ∃ world, ofComputation {} spawnLinkGet = .ok world ∧
      ∀ n, ∃ p, (world.after n).round.result = .ok p :=
  ⟨rfl, rounds_never_break {} spawnLinkGet rfl⟩

end World

end PushValue
