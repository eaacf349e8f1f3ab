import PushValue.Proofs.Reduction
import PushValue.Proofs.Reference
import PushValue.Proofs.Turn

/-!
# Worlds that jam

A round of a well-sorted world breaks only if a process has come to a hole.  The process is still
there afterwards, so every later round breaks as well, at the hole or before it.  Such a world is
jammed: no process of it changes its stage any more.
-/

namespace PushValue

namespace Screen

theorem strict_sorted : sorted.Strict where
  symbol _ h := h
  pointer _ h := h
  process _ h := h
  foreign := rfl
  stray _ := rfl

theorem sorted_admits (a : Attempt) : sorted.Admits a where
  within := live_within
  pointer _ hs _ := hs
  process _ _ _ _ hname := hname

end Screen

/-!
## Processes at a hole
-/

def Stage.AtHole (p : Stage) : Prop :=
  ∃ r, p = .running r ∧ r.control = .hole

namespace Stage

variable {table : Processes} {store : Store} {p : Stage}

theorem AtHole.visit (h : p.AtHole) (table : Processes) (store : Store) :
    p.visit table store = ⟨.broken .holeAtHead, store, p⟩ := by
  rcases h with ⟨⟨control, env, stack, trace⟩, rfl, hcontrol⟩
  cases hcontrol
  rfl

/-- A visit to a well-sorted process breaks at a hole only. -/
theorem visit_sorted (htable : table.Holds (Stage.passes .sorted ·))
    (hstore : store.Holds (Value.passes .sorted ·)) (hp : p.passes .sorted) (hhole : ¬ p.AtHole) :
    Visit.Passes .sorted (p.visit table store) := by
  apply visit_passes (Table.all_iff.mpr htable) (Table.all_iff.mpr hstore) hp
  · intro r _
    exact Screen.sorted_admits _
  · intro r hr hcontrol
    exact absurd ⟨r, hr, hcontrol⟩ hhole

end Stage

def Growing.sorted : Growing where
  value _ v := v.passes .sorted
  stage _ p := p.passes .sorted
  value_mono _ h := h
  stage_mono _ h := h
  visit := by
    intro world w p v L _ htable hstore hp hvisit _
    rw [← hvisit]
    by_cases hhole : p.AtHole
    · rw [hhole.visit]
      refine ⟨Visit.keeps_broken hstore hp, ?_⟩
      intro next name child h
      cases h
    · have hpasses := Stage.visit_sorted htable hstore hp hhole
      refine ⟨⟨?_, hpasses.left, hpasses.moved, ?_⟩, ?_⟩
      · exact Table.all_iff.mp hpasses.store
      · intro next name child h
        rcases hpasses.spawned next name child h with ⟨hnext, hchild, _⟩
        exact ⟨hnext, hchild⟩
      · intro next name child h
        exact (hpasses.spawned next name child h).2.2

theorem Growing.nameless_sorted : Growing.sorted.Nameless where
  value _ h := h
  stage _ h := h

theorem Turn.eq_halted_of_left {table : Processes} {store : Store} {p : Stage} {v : Visit}
    {w : Value} {ts : List Trace} (hturn : Turn table store p v) (h : v.left = .halted w ts) :
    p = .halted w ts := by
  cases hturn with
  | stayHalted | unfit => exact h
  | _ => cases h

theorem Turn.free_of_spawned {table : Processes} {store : Store} {p next child : Stage} {v : Visit}
    {name : Symbol} (hturn : Turn table store p v) (h : v.outcome = .spawned next name child) :
    v.store = store ∧ store.contains name = false ∧ table.contains name = false := by
  cases hturn with
  | spawn ha houtcome hfree =>
      cases h
      have hrule := Running.reduction_of_step ha (by rw [houtcome]; intro f hf; cases hf)
      cases hrule with
      | spawn _ _ hnew =>
          cases houtcome
          exact ⟨rfl, hnew, hfree⟩
      | _ => cases houtcome
  | _ => cases h

/-!
## Rounds that break
-/

/-- The names of the processes that a round was asked for are proper, reserved and distinct, and no
process had them when the round began. -/
structure Sweep.Books (table : Processes) (w : Sweep) : Prop where
  children : ∀ c ∈ w.children, c.1.isProper ∧ w.store.contains c.1 ∧ table.contains c.1 = false
  distinct : (w.children.map Prod.fst).Nodup

/-- A process has come to a hole, so no round can be completed any more. -/
def Processes.Jammed (table : Processes) : Prop :=
  ∃ name p, table.get? name = some p ∧ p.AtHole

namespace Sweep

variable {world : World} {w : Sweep}

theorem Books.mono {table : Processes} {w' : Sweep} (h : w.Books table)
    (hstore : ∀ key, w.store.contains key -> w'.store.contains key)
    (hchildren : w'.children = w.children) : w'.Books table where
  children := by
    intro c hc
    rw [hchildren] at hc
    rcases h.children c hc with ⟨hproper, hreserved, hfree⟩
    exact ⟨hproper, hstore c.1 hreserved, hfree⟩
  distinct := by
    rw [hchildren]
    exact h.distinct

theorem Books.reserve {table : Processes} {name : Symbol} {child : Stage} (h : w.Books table)
    (hproper : name.isProper) (hnew : w.store.contains name = false)
    (hfree : table.contains name = false) :
    Books table { w with
      store := w.store.insert name (.process name)
      children := w.children ++ [(name, child)] } where
  children := by
    intro c hc
    rcases List.mem_append.mp hc with hold | hlast
    · rcases h.children c hold with ⟨hproper', hreserved, hfree'⟩
      exact ⟨hproper', Table.contains_insert_of_contains _ _ hreserved, hfree'⟩
    · rw [List.mem_singleton.mp hlast]
      refine ⟨hproper, ?_, hfree⟩
      rw [Table.contains_insert, decide_eq_true rfl, Bool.true_or]
  distinct := by
    rw [List.map_append, List.nodup_append]
    refine ⟨h.distinct, List.nodup_cons.mpr ⟨List.not_mem_nil, List.nodup_nil⟩, ?_⟩
    intro a ha b hb hab
    rcases List.mem_map.mp ha with ⟨c, hc, rfl⟩
    have hreserved := (h.children c hc).2.1
    rw [hab, List.mem_singleton.mp hb, hnew] at hreserved
    cases hreserved

theorem books_visit (hworld : world.processes.Holds (Stage.passes .sorted ·))
    (hw : Growing.sorted.HoldsOf world w) (hbooks : w.Books world.processes) (name : Symbol) :
    Meets (fun broken => broken.2.left.Jammed)
      (fun w' => Growing.sorted.HoldsOf world w' ∧ w'.Books world.processes)
      (w.visit world.processes name) := by
  have hkept := Growing.holdsOf_visit hworld hw name
  unfold visit at hkept ⊢
  cases hget : world.processes.get? name with
  | none => exact ⟨hw, hbooks⟩
  | some p =>
      rw [hget] at hkept
      dsimp only at hkept ⊢
      have hp := hworld name p hget
      by_cases hhole : p.AtHole
      · rw [hhole.visit]
        exact ⟨name, p, Table.get?_insert_self _ name p, hhole⟩
      have hpasses := Stage.visit_sorted hworld hw.2.store hp hhole
      have hstore (key : Symbol) (hkey : w.store.contains key) :
          (p.visit world.processes w.store).store.contains key :=
        p.contains_visit hkey world.processes
      cases houtcome : (p.visit world.processes w.store).outcome with
      | resting | moved next =>
          rw [houtcome] at hkept
          exact ⟨hkept, hbooks.mono hstore rfl⟩
      | spawned next childName child =>
          rw [houtcome] at hkept
          have hturn : Turn world.processes w.store p (p.visit world.processes w.store) :=
            .of_visit (Stage.ne_stray_of_passes hp)
          rcases hturn.free_of_spawned houtcome with ⟨hsame, hnew, hfree⟩
          have hproper := (hpasses.spawned next childName child houtcome).2.2
          rw [← hsame] at hnew
          dsimp only [Sweep.reserve] at hkept ⊢
          rw [hnew] at hkept ⊢
          have hmoved : Books world.processes { w with
              store := (p.visit world.processes w.store).store
              next := w.next.insert name next
              left := w.left.insert name (p.visit world.processes w.store).left
              progressed := true } := hbooks.mono hstore rfl
          exact ⟨hkept, hmoved.reserve hproper hnew hfree⟩
      | broken b => exact absurd Screen.strict_sorted (hpasses.broken b houtcome)

theorem books_foldlM (hworld : world.processes.Holds (Stage.passes .sorted ·))
    (hw : Growing.sorted.HoldsOf world w) (hbooks : w.Books world.processes)
    (order : List Symbol) :
    Meets (fun broken => broken.2.left.Jammed)
      (fun w' => Growing.sorted.HoldsOf world w' ∧ w'.Books world.processes)
      (order.foldlM (visit world.processes) w) := by
  induction order generalizing w with
  | nil => exact ⟨hw, hbooks⟩
  | cons name rest ih =>
      rw [List.foldlM_cons]
      apply (books_visit hworld hw hbooks name).bind
      intro w' hw'
      exact ih hw'.1 hw'.2

end Sweep

namespace World

variable {world : World}

def NamesProper (world : World) : Prop :=
  ∀ name, world.processes.contains name -> name.isProper

theorem namesProper_finish {w : Sweep} (hextends : Sweep.Extends world w)
    (hbooks : w.Books world.processes) (hnames : world.NamesProper) :
    (∃ p, w.finish.result = .ok p) ∧ w.finish.world.NamesProper := by
  have hfree (c : Symbol × Stage) (hc : c ∈ w.children) : w.next.contains c.1 = false := by
    rw [hextends.next.names]
    exact (hbooks.children c hc).2.2
  have henroll := Sweep.enroll_eq_joined hfree hbooks.distinct
  rw [Sweep.finish, henroll]
  refine ⟨⟨_, rfl⟩, ?_⟩
  intro name hname
  rw [show Table.contains _ name = _ from (Sweep.enroll_spec henroll).2 name,
    hextends.next.names] at hname
  rcases Bool.or_eq_true_iff.mp hname with hold | hchild
  · exact hnames name hold
  · rcases List.any_eq_true.mp hchild with ⟨c, hc, hcname⟩
    rw [← eq_of_beq hcname]
    exact (hbooks.children c hc).1

theorem round_completes_or_jams (hworld : Growing.sorted.Holds world)
    (hnames : world.NamesProper) :
    (∃ p, world.round.result = .ok p) ∧ world.round.world.NamesProper ∨
      world.round.world.processes.Jammed := by
  have hproper : world.processes.keys.all Symbol.isProper := by
    rw [List.all_eq_true]
    intro name hname
    exact hnames name (Table.mem_keys_iff.mp hname)
  rw [round, if_pos hproper]
  unfold roundIn
  split
  · exact .inl ⟨⟨_, rfl⟩, hnames⟩
  · have hstart : Growing.sorted.HoldsOf world (Sweep.start world) := by
      refine ⟨Sweep.extends_start world, hworld.1, hworld.2, hworld.2, ?_⟩
      intro c hc
      cases hc
    have hbooks : (Sweep.start world).Books world.processes := by
      refine ⟨?_, List.nodup_nil⟩
      intro c hc
      cases hc
    have hsweep := Sweep.books_foldlM hworld.2 hstart hbooks world.processes.keys
    cases hfold : world.processes.keys.foldlM (Sweep.visit world.processes)
        (Sweep.start world) with
    | error broken => exact .inr (hsweep.of_eq_error hfold)
    | ok w =>
        rcases hsweep.of_eq_ok hfold with ⟨hw, hbooks'⟩
        exact .inl (namesProper_finish hw.1 hbooks' hnames)

end World

/-!
## Jammed worlds
-/

/-- What is left of a table with a process at a hole: the process, and no new results. -/
structure Processes.Idles (table left : Processes) : Prop where
  holes : ∀ name p, table.get? name = some p -> p.AtHole -> left.get? name = some p
  halted : ∀ name v ts, left.get? name = some (.halted v ts) ->
    table.get? name = some (.halted v ts)

namespace Processes.Idles

variable {table left later : Processes}

theorem refl (table : Processes) : table.Idles table :=
  ⟨fun _ _ h _ => h, fun _ _ _ h => h⟩

theorem trans (h : table.Idles left) (h' : left.Idles later) : table.Idles later where
  holes name p hget hhole := h'.holes name p (h.holes name p hget hhole) hhole
  halted name v ts hget := h.halted name v ts (h'.halted name v ts hget)

theorem jammed (h : table.Idles left) (hjammed : table.Jammed) : left.Jammed := by
  rcases hjammed with ⟨name, p, hget, hhole⟩
  exact ⟨name, p, h.holes name p hget hhole, hhole⟩

theorem insert (h : table.Idles left) {name : Symbol} {p : Stage} (hget : table.get? name = some p)
    (hp : ∀ o, p ≠ .stray o) (store : Store) :
    table.Idles (left.insert name (p.visit table store).left) where
  holes := by
    intro other q hother hhole
    rw [Table.get?_insert]
    split
    next hsame =>
      rw [hsame, hget] at hother
      cases hother
      rw [hhole.visit]
    next => exact h.holes other q hother hhole
  halted := by
    intro other v ts hother
    rw [Table.get?_insert] at hother
    split at hother
    next hsame =>
      cases hvisit : p.visit table store with
      | mk outcome after last =>
          rw [hvisit] at hother
          cases hother
          have hturn := @Turn.of_visit table store p hp
          rw [hvisit] at hturn
          rw [hsame, hget, hturn.eq_halted_of_left rfl]
    next => exact h.halted other v ts hother

end Processes.Idles

theorem Sweep.idles_visit {table : Processes} {w : Sweep}
    (htable : table.Holds fun p => ∀ o, p ≠ .stray o) (hw : table.Idles w.left) (name : Symbol) :
    Meets (fun broken => table.Idles broken.2.left)
      (fun w' => table.Idles w'.left ∧ ∀ p, table.get? name = some p -> ¬ p.AtHole)
      (w.visit table name) := by
  unfold visit
  cases hget : table.get? name with
  | none =>
      refine ⟨hw, ?_⟩
      intro p hp
      cases hp
  | some p =>
      have hleft := hw.insert hget (htable name p hget) w.store
      have hpast (hgoing : ∀ b, (p.visit table w.store).outcome ≠ .broken b) :
          ∀ q, some p = some q -> ¬ q.AtHole := by
        rintro q hq hhole
        cases hq
        rw [hhole.visit] at hgoing
        exact hgoing _ rfl
      dsimp only
      cases houtcome : (p.visit table w.store).outcome with
      | resting | moved next =>
          refine ⟨hleft, hpast ?_⟩
          intro b hb
          rw [houtcome] at hb
          cases hb
      | spawned next childName child =>
          dsimp only [reserve]
          split
          · exact hleft
          · refine ⟨hleft, hpast ?_⟩
            intro b hb
            rw [houtcome] at hb
            cases hb
      | broken b => exact hleft

theorem Sweep.idles_foldlM {table : Processes} {w : Sweep}
    (htable : table.Holds fun p => ∀ o, p ≠ .stray o) (hw : table.Idles w.left)
    (order : List Symbol) :
    Meets (fun broken => table.Idles broken.2.left)
      (fun w' => table.Idles w'.left ∧
        ∀ name ∈ order, ∀ p, table.get? name = some p -> ¬ p.AtHole)
      (order.foldlM (visit table) w) := by
  induction order generalizing w with
  | nil =>
      refine ⟨hw, ?_⟩
      intro name hname
      cases hname
  | cons name rest ih =>
      rw [List.foldlM_cons]
      apply (idles_visit htable hw name).bind
      intro w' hw'
      apply (ih hw'.1).mono
      intro last hlast
      exact ⟨hlast.1, List.forall_mem_cons.mpr ⟨hw'.2, hlast.2⟩⟩

namespace World

variable {world : World}

theorem idles_round (hworld : world.processes.Holds fun p => ∀ o, p ≠ .stray o)
    (hjammed : world.processes.Jammed) : world.processes.Idles world.round.world.processes := by
  unfold round
  split
  · unfold roundIn
    split
    · exact .refl _
    · have hsweep := @Sweep.idles_foldlM _ (Sweep.start world) hworld (.refl _)
        world.processes.keys
      cases hfold : world.processes.keys.foldlM (Sweep.visit world.processes)
          (Sweep.start world) with
      | error broken => exact hsweep.of_eq_error hfold
      | ok w =>
          -- No round gets past the process at the hole.
          rcases hjammed with ⟨name, p, hget, hhole⟩
          have hkey := Table.mem_keys_iff.mpr (Table.contains_iff.mpr ⟨p, hget⟩)
          exact absurd hhole ((hsweep.of_eq_ok hfold).2 name hkey p hget)
  · exact .refl _

theorem idles_after (hworld : ∀ n, (world.after n).processes.Holds fun p => ∀ o, p ≠ .stray o)
    {m : Nat} (hjammed : (world.after m).processes.Jammed) {n : Nat} (h : m ≤ n) :
    (world.after m).processes.Idles (world.after n).processes := by
  induction h with
  | refl => exact .refl _
  | @step n _ ih => exact ih.trans (idles_round (hworld n) (ih.jammed hjammed))

/-- The rounds of a well-sorted world are completed until it jams, if it does. -/
theorem completes_or_jams (hworld : Growing.sorted.Holds world) (hnames : world.NamesProper)
    (n : Nat) :
    world.Completes n ∧ (world.after n).NamesProper ∨
      ∃ m, m < n ∧ world.Completes m ∧ (world.after (m + 1)).processes.Jammed := by
  induction n with
  | zero =>
      left
      refine ⟨?_, hnames⟩
      intro k hk
      cases hk
  | succ n ih =>
      rcases ih with ⟨hcompletes, hproper⟩ | ⟨m, hm, hcompletes, hjammed⟩
      · have hsorted := Growing.holds_after hworld n (.inl Growing.nameless_sorted)
        rcases round_completes_or_jams hsorted hproper with ⟨hlast, hproper'⟩ | hjammed
        · left
          refine ⟨?_, hproper'⟩
          intro k hk
          rcases Nat.lt_succ_iff_lt_or_eq.mp hk with hearlier | rfl
          · exact hcompletes k hearlier
          · exact hlast
        · exact .inr ⟨n, Nat.lt_succ_self n, hcompletes, hjammed⟩
      · exact .inr ⟨m, Nat.lt_succ_of_lt hm, hcompletes, hjammed⟩

/-- What has halted in a run of a well-sorted program had halted when all rounds so far but the last
one were completed. -/
theorem exists_completes_of_halted {body : Computation} (hbody : body.passes .sorted) {n : Nat}
    {name : Symbol} {v : Value} {ts : List Trace}
    (hget : ((initial body).after (n + 1)).processes.get? name = some (.halted v ts)) :
    ∃ m, m ≤ n ∧ (initial body).Completes m ∧
      ((initial body).after (m + 1)).processes.get? name = some (.halted v ts) := by
  have hinitial : Growing.sorted.Holds (initial body) := Growing.holds_initial hbody
  have hnames : (initial body).NamesProper := by
    intro other hother
    unfold initial at hother
    rw [Table.contains_insert] at hother
    rcases Bool.or_eq_true_iff.mp hother with hsame | hnone
    · rw [of_decide_eq_true hsame]
      rfl
    · cases hnone
  rcases completes_or_jams hinitial hnames n with ⟨hcompletes, _⟩ | ⟨m, hm, hcompletes, hjammed⟩
  · exact ⟨n, Nat.le_refl n, hcompletes, hget⟩
  · have hproper (k : Nat) :
        ((initial body).after k).processes.Holds fun p => ∀ o, p ≠ .stray o := by
      intro other p hp
      have hsorted := Growing.holds_after hinitial k (.inl Growing.nameless_sorted)
      exact Stage.ne_stray_of_passes (hsorted.2 other p hp)
    have hidles := idles_after hproper hjammed (Nat.succ_le_succ (Nat.le_of_lt hm))
    exact ⟨m, Nat.le_of_lt hm, hcompletes, hidles.halted name v ts hget⟩

end World

end PushValue
