import PushValue.Proofs.Growing
import PushValue.Proofs.Screen.Normalize
import PushValue.Proofs.Screen.Visit
import PushValue.Proofs.Turn

/-!
# Replaying histories

A process records what it puts into the store, and what it gets together with the value
that it found.  As long as it is alone, its history tells the whole story of the store: to
make the recorded puts again, in order and from the empty store, gives the store as it is,
and every recorded get found what the puts before it had left.

Frames save traces and hand them back, and a nest makes one entry of many.  None of this
changes the history, so a step adds to it at the end or not at all.
-/

namespace PushValue

/-!
## Stores and histories
-/

namespace Store

/-- Makes an entry of a history again.  Only puts have an effect on the store. -/
def redo (store : Store) : Trace -> Store
  | .put s v => store.insert s v
  | _ => store

def replay (store : Store) (past : List Trace) : Store := past.foldl redo store

/-- A history accounts for a store: it leads to the store, and what it got was there. -/
structure AccountedBy (store : Store) (past : List Trace) : Prop where
  store : store = replay {} past
  gets : ∀ before s v later, past = before ++ .get s v :: later ->
    (replay {} before).get? s = some v

theorem replay_concat (store : Store) (past : List Trace) (entry : Trace) :
    store.replay (past ++ [entry]) = (store.replay past).redo entry := by
  rw [replay, List.foldl_append]
  rfl

theorem accountedBy_nil : AccountedBy {} [] where
  store := rfl
  gets := by
    intro before s v later h
    cases (List.append_eq_nil_iff.mp h.symm).2

variable {store : Store} {past : List Trace}

theorem AccountedBy.concat (h : store.AccountedBy past) (entry : Trace)
    (hentry : ∀ s v, entry = .get s v -> store.get? s = some v) :
    (store.redo entry).AccountedBy (past ++ [entry]) where
  store := by rw [replay_concat, ← h.store]
  gets := by
    intro before s v later hsplit
    -- The get is the new entry, or it was there before.
    rcases List.eq_nil_or_concat later with hlater | ⟨between, last, hlater⟩
    · rw [hlater] at hsplit
      rcases List.append_inj' hsplit rfl with ⟨hbefore, hlast⟩
      rw [← hbefore, ← h.store]
      exact hentry s v (List.head_eq_of_cons_eq hlast)
    · have hearlier : past ++ [entry] = (before ++ .get s v :: between) ++ [last] := by
        rw [hsplit, hlater, List.concat_eq_append, List.append_assoc, List.cons_append]
      exact h.gets before s v between (List.append_inj' hearlier rfl).1

theorem AccountedBy.append_returns (h : store.AccountedBy past) (returns : List Value) :
    store.AccountedBy (past ++ returns.map Trace.ret) := by
  induction returns generalizing past with
  | nil =>
      rw [List.map_nil, List.append_nil]
      exact h
  | cons v rest ih =>
      have hreturn : store.AccountedBy (past ++ [.ret v]) :=
        h.concat (.ret v) (by intro s w hget; cases hget)
      have hrest := ih hreturn
      rw [List.append_assoc] at hrest
      exact hrest

variable {r : Running}

theorem AccountedBy.record_put (hr : store.AccountedBy r.history) (s : Symbol) (v : Value) :
    AccountedBy (store.insert s v) (r.record (.put s v)).history := by
  rw [Running.history_record]
  exact hr.concat (.put s v) (by intro t w hget; cases hget)

theorem AccountedBy.record_get {s : Symbol} {v : Value} (hr : store.AccountedBy r.history)
    (hstored : store.get? s = some v) : store.AccountedBy (r.record (.get s v)).history := by
  rw [Running.history_record]
  exact hr.concat (.get s v) (by intro t w hget; cases hget; exact hstored)

theorem AccountedBy.record_link (hr : store.AccountedBy r.history) (t v : Value) :
    store.AccountedBy (r.record (.link t v)).history := by
  rw [Running.history_record]
  exact hr.concat (.link t v) (by intro s w hget; cases hget)

end Store

/-!
## Steps and turns
-/

namespace Effect

variable {store : Store} {r : Running} {a : Attempt}

/-- A step that does not fail adds to the history what it does to the store. -/
theorem accountedBy (ha : Effect store r a) (hok : ∀ f, a.outcome ≠ .failed f)
    (hr : store.AccountedBy r.history) : a.store.AccountedBy a.running.history := by
  cases ha with
  | quiet hquiet =>
      rcases hquiet.history hok with ⟨returns, hhistory⟩
      rw [hquiet.store, hhistory]
      exact hr.append_returns returns
  | put => exact hr.record_put _ _
  | get hcontrol hv hstored => exact hr.record_get hstored
  | link => exact hr.record_link _ _
  | miss | collide => exact absurd rfl (hok _)
  | awaitEntry | awaitHalt | spawn => exact hr

theorem control_of_spawn {name : Symbol} {env : Environment} {body : Computation}
    (ha : Effect store r a) (h : a.outcome = .signal (.spawn name env body)) :
    ∃ v e, r.control = .spawn v e := by
  cases ha with
  | quiet hquiet =>
      have hinner := hquiet.outcome
      rw [h] at hinner
      cases hinner
  | spawn hcontrol => exact ⟨_, _, hcontrol⟩
  | _ => cases h

end Effect

def Stage.Accounts (store : Store) : Stage -> Prop
  | .failed _ _ => True
  | p => store.AccountedBy p.history

theorem Stage.Accounts.accountedBy {store : Store} {p : Stage} (hp : p.Accounts store)
    (h : ∀ r f, p ≠ .failed r f) : store.AccountedBy p.history := by
  cases p with
  | failed r f => exact absurd rfl (h r f)
  | _ => exact hp

theorem Turn.accounts {table : Processes} {store : Store} {p : Stage} {v : Visit}
    (hturn : Turn table store p v) (hbroken : ∀ b, v.outcome ≠ .broken b)
    (hp : p.Accounts store) : (v.outcome.next?.getD p).Accounts v.store := by
  have hstep {r : Running} {a : Attempt} (hr : store.AccountedBy r.history)
      (ha : r.step store = a) (hok : ∀ f, a.outcome ≠ .failed f) :
      a.store.AccountedBy a.running.history := by
    rw [← ha] at hok ⊢
    exact (r.step_effect store).accountedBy hok hr
  cases hturn with
  | start body => exact hp
  | step ha houtcome | parkForEntry ha houtcome | parkForHalt ha houtcome | spawn ha houtcome =>
      exact hstep hp ha (by rw [houtcome]; intro f h; cases h)
  | @halt r a x ha houtcome =>
      have hhistory := hstep hp ha (by rw [houtcome]; intro f h; cases h)
      have hstack : a.running.stack = [] := by
        rw [← ha] at houtcome ⊢
        exact (r.step_effect store).stack_of_halt houtcome
      rw [Running.history, hstack] at hhistory
      exact hhistory
  | clash | fail | orphan => trivial
  | wake => exact hp
  | handOver => exact Store.AccountedBy.record_link hp _ _
  | waitForEntry | waitForHalt | stayFailed | stayHalted => exact hp
  | breakOff | unfit => exact absurd rfl (hbroken _)

/-!
## Spawnless programs
-/

namespace Screen

def all : Screen where
  symbol _ := true
  pointer _ := true
  process _ := true
  foreign := true
  stray _ := true

def spawnless (S : Screen) : Screen := { S with spawn := false }

theorem strict_sorted_spawnless : sorted.spawnless.Strict where
  symbol _ h := h
  pointer _ h := h
  process _ h := h
  foreign := rfl
  stray _ := rfl

theorem all_spawnless_admits (a : Attempt) : all.spawnless.Admits a where
  within _ _ _ _ := rfl
  pointer _ _ _ := rfl
  process _ _ _ _ _ := rfl

theorem sorted_spawnless_admits (a : Attempt) : sorted.spawnless.Admits a where
  within := live_within
  pointer _ hs _ := hs
  process _ _ _ _ hname := hname

end Screen

theorem Turn.child?_eq_none {S : Screen} {table : Processes} {store : Store} {p : Stage}
    {v : Visit} (hturn : Turn table store p v) (hp : p.passes S.spawnless) :
    v.outcome.child? = none := by
  cases hturn with
  | @spawn r a name env body ha houtcome =>
      rw [← ha] at houtcome
      rcases (r.step_effect store).control_of_spawn houtcome with ⟨x, e, hcontrol⟩
      have hpasses := (Running.passes_iff.mp hp).1
      rw [hcontrol] at hpasses
      cases hpasses
  | _ => rfl

theorem Stage.visit_hole {table : Processes} {store : Store} {r : Running}
    (h : r.control = .hole) :
    (running r).visit table store = ⟨.broken .holeAtHead, store, running r⟩ := by
  rcases r with ⟨control, env, stack, trace⟩
  cases h
  rfl

namespace World

/-!
## Worlds of one process
-/

def solo (store : Store) (p : Stage) : World := ⟨store, Table.empty.insert .anonymous p⟩

variable {store : Store} {p : Stage} {v : Visit}

theorem get?_solo (store : Store) (p : Stage) :
    (solo store p).processes.get? .anonymous = some p :=
  Table.get?_insert_self _ _ _

theorem round_solo_eq (store : Store) (p : Stage) :
    (solo store p).round =
      match Sweep.visit (solo store p).processes (Sweep.start (solo store p)) .anonymous with
      | .error (b, w) => ⟨.error b, w.abandoned⟩
      | .ok w => w.finish := by
  have hnames : (solo store p).processes.keys.all Symbol.isProper := rfl
  have hsome : ¬ (solo store p).processes.isEmpty := Bool.false_ne_true
  have hkeys : (solo store p).processes.keys = [.anonymous] := rfl
  rw [round, if_pos hnames, roundIn, if_neg hsome, hkeys, List.foldlM_cons]
  cases Sweep.visit (solo store p).processes (Sweep.start (solo store p)) .anonymous with
  | error out => rfl
  | ok w => rfl

theorem round_solo_of_broken {b : Breakage}
    (hvisit : p.visit (solo store p).processes store = v) (h : v.outcome = .broken b) :
    (solo store p).round = ⟨.error b, solo v.store v.left⟩ := by
  have hstart : p.visit (solo store p).processes (Sweep.start (solo store p)).store = v := hvisit
  rw [round_solo_eq]
  simp only [Sweep.visit, get?_solo, hstart, h]
  rfl

theorem round_solo (hvisit : p.visit (solo store p).processes store = v)
    (hbroken : ∀ b, v.outcome ≠ .broken b) (hchild : v.outcome.child? = none) :
    (solo store p).round.world = solo v.store (v.outcome.next?.getD p) := by
  have hstart : p.visit (solo store p).processes (Sweep.start (solo store p)).store = v := hvisit
  rw [round_solo_eq]
  cases houtcome : v.outcome with
  | resting =>
      simp only [Sweep.visit, get?_solo, hstart, houtcome]
      rfl
  | moved next =>
      simp only [Sweep.visit, get?_solo, hstart, houtcome]
      rfl
  | spawned next name child =>
      rw [houtcome] at hchild
      cases hchild
  | broken b => exact absurd houtcome (hbroken b)

/-- One process is alone, passes a screen and accounts for the store. -/
structure Recounted (S : Screen) (world : World) (store : Store) (p : Stage) : Prop where
  alone : world = solo store p
  values : store.all (Value.passes S)
  process : p.passes S
  accounts : p.Accounts store

variable {S : Screen} {world : World}

theorem Recounted.visit_passes (hworld : world.Recounted S.spawnless store p)
    (hadmits : ∀ a, S.spawnless.Admits a) (hhole : ∀ r, p = .running r -> r.control ≠ .hole) :
    Visit.Passes S.spawnless (p.visit (solo store p).processes store) := by
  have htable : (solo store p).processes.all (Stage.passes S.spawnless) :=
    Table.all_insert _ rfl hworld.process
  apply Stage.visit_passes htable hworld.values hworld.process fun _ _ => hadmits _
  intro r hr hcontrol
  exact absurd hcontrol (hhole r hr)

theorem Recounted.round_world (hworld : world.Recounted S.spawnless store p)
    (hbroken : ∀ b, (p.visit (solo store p).processes store).outcome ≠ .broken b) :
    world.round.world = solo (p.visit (solo store p).processes store).store
      ((p.visit (solo store p).processes store).outcome.next?.getD p) := by
  have hturn := @Turn.of_visit (solo store p).processes store p
    (Stage.ne_stray_of_passes hworld.process)
  rw [hworld.alone]
  exact round_solo rfl hbroken (hturn.child?_eq_none hworld.process)

/-- A round keeps the process alone, unless it breaks at what is out of place. -/
theorem Recounted.round (hworld : world.Recounted S.spawnless store p)
    (hadmits : ∀ a, S.spawnless.Admits a)
    (hrun : S.spawnless.Strict ∨ ∃ made, world.round.result = .ok made) :
    ∃ store' p', world.round.world.Recounted S.spawnless store' p' := by
  have heq := hworld.alone
  rw [heq] at hrun ⊢
  by_cases hhole : ∃ r, p = .running r ∧ r.control = .hole
  · rcases hhole with ⟨r, rfl, hcontrol⟩
    rw [round_solo_of_broken (Stage.visit_hole hcontrol) rfl]
    exact ⟨store, .running r, rfl, hworld.values, hworld.process, hworld.accounts⟩
  · have hvisit := hworld.visit_passes hadmits fun r hr hcontrol => hhole ⟨r, hr, hcontrol⟩
    have hbroken : ∀ b, (p.visit (solo store p).processes store).outcome ≠ .broken b := by
      intro b hb
      rcases hrun with strict | ⟨made, hcompleted⟩
      · exact hvisit.broken b hb strict
      · rw [round_solo_of_broken rfl hb] at hcompleted
        cases hcompleted
    have hturn := @Turn.of_visit (solo store p).processes store p
      (Stage.ne_stray_of_passes hworld.process)
    rw [← heq, hworld.round_world hbroken]
    refine ⟨_, _, rfl, hvisit.store, ?_, hturn.accounts hbroken hworld.accounts⟩
    cases houtcome : (p.visit (solo store p).processes store).outcome with
    | resting => exact hworld.process
    | moved next => exact hvisit.moved next houtcome
    | spawned next name child => exact (hvisit.spawned next name child houtcome).1
    | broken b => exact absurd houtcome (hbroken b)

theorem recounted_initial {body : Computation} (hbody : body.passes S) :
    (initial body).Recounted S {} (.pending body) where
  alone := rfl
  values := rfl
  process := hbody
  accounts := Store.accountedBy_nil

theorem recounted_after (hworld : world.Recounted S.spawnless store p)
    (hadmits : ∀ a, S.spawnless.Admits a) (n : Nat)
    (hrun : S.spawnless.Strict ∨ world.Completes n) :
    ∃ store' p', (world.after n).Recounted S.spawnless store' p' := by
  induction n with
  | zero => exact ⟨store, p, hworld⟩
  | succ n ih =>
      have hearlier : S.spawnless.Strict ∨ world.Completes n :=
        hrun.imp_right fun hcompletes k hk => hcompletes k (Nat.lt_succ_of_lt hk)
      have hlast : S.spawnless.Strict ∨ ∃ made, (world.after n).round.result = .ok made :=
        hrun.imp_right fun hcompletes => hcompletes n (Nat.lt_succ_self n)
      rcases ih hearlier with ⟨store', p', hafter⟩
      exact hafter.round hadmits hlast

/-- In a run of a program without spawns the store is the replay of the history of the process,
and every get of the history found the value that the replay has at that point, as long as the
process has not failed.  What is well-sorted may even have holes; of other programs the rounds
have to complete. -/
theorem store_replays_history (settings : Settings) (e : Computation) (world : World)
    (hworld : ofComputation settings e = .ok world) (n : Nat)
    (he : e.passes Screen.sorted.spawnless ∨
      e.passes Screen.all.spawnless ∧ world.Completes n) :
    ∃ p, (world.after n).processes.get? .anonymous = some p ∧
      ((∀ r f, p ≠ .failed r f) ->
        (world.after n).store = Store.replay {} p.history ∧
          ∀ before s v later, p.history = before ++ .get s v :: later ->
            (Store.replay {} before).get? s = some v) := by
  have hrecounted : ∃ S store p, (world.after n).Recounted S store p := by
    rcases he with hsorted | ⟨hall, hcompletes⟩
    · rcases passes_of_ofComputation hsorted hworld with ⟨body, rfl, hbody⟩
      exact ⟨_, recounted_after (recounted_initial hbody) Screen.sorted_spawnless_admits n
        (.inl Screen.strict_sorted_spawnless)⟩
    · rcases passes_of_ofComputation hall hworld with ⟨body, rfl, hbody⟩
      exact ⟨_, recounted_after (recounted_initial hbody) Screen.all_spawnless_admits n
        (.inr hcompletes)⟩
  rcases hrecounted with ⟨S, store, p, hafter⟩
  rw [hafter.alone]
  refine ⟨p, get?_solo store p, ?_⟩
  intro hok
  have hstore := hafter.accounts.accountedBy hok
  exact ⟨hstore.store, hstore.gets⟩

def putGetOverwrite : Computation :=
  .bind (.variable "a") (.put (.symbol (.name "a")) (.number 1))
    (.bind (.variable "b")
      (.nest (.symbol (.name "n"))
        (.bind (.variable "c") (.put (.symbol (.name "b")) (.number 2)) (.get (.variable "c"))))
      (.bind .ignore (.put (.symbol (.name "a")) (.variable "b")) (.get (.variable "a"))))

theorem putGetOverwrite_store_replays :
    ∃ world p, ofComputation {} putGetOverwrite = .ok world ∧
      (world.after 20).processes.get? .anonymous = some p ∧
      p.history = [.put (.name "a") (.number 1),
        .put (.within (.name "n") (.name "b")) (.number 2),
        .get (.within (.name "n") (.name "b")) (.number 2),
        .put (.name "a") (.number 2), .get (.name "a") (.number 2)] ∧
      (world.after 20).store = Store.replay {} p.history ∧
      (Store.replay {} (p.history.take 4)).get? (.name "a") = some (.number 2) := by
  rcases store_replays_history {} putGetOverwrite _ rfl 20 (.inl rfl) with ⟨p, hp, hreplay⟩
  cases hp
  have hhalted := hreplay (by intro r f h; cases h)
  exact ⟨_, _, rfl, rfl, rfl, hhalted.1, hhalted.2 _ _ _ [] rfl⟩

end World

end PushValue
