import PushValue.Proofs.Ledger
import PushValue.Proofs.Order
import PushValue.Proofs.Spawn
import PushValue.Proofs.Turn

/-!
# Waiting

A process waits at a link, for an entry or for another process to halt.  If the entry is
there when the turn of the process comes, it runs again and makes the link in its next
turn, when the entry is still there.  If the other process had halted when the round
began, the process is handed the value.  Otherwise it is left as it was.
-/

namespace PushValue

/-- A process that waits is at a link to what it waits for. -/
def Stage.WaitsAtLink : Stage -> Prop
  | .awaitingEntry r s => r.control = .link (.symbol s)
  | .awaitingHalt r s => ∃ u, r.control = .link u ∧ u.resolve r.env = .ok (.process s)
  | _ => True

/-!
## Turns
-/

namespace Turn

variable {table : Processes} {store : Store} {p : Stage} {v : Visit}

theorem waitsAtLink (hturn : Turn table store p v) (hp : p.WaitsAtLink) :
    (v.outcome.next?.getD p).WaitsAtLink := by
  cases hturn with
  | @parkForEntry r a s ha houtcome =>
      rw [← ha] at houtcome ⊢
      exact ((r.step_effect store).link_of_awaitEntry houtcome).1
  | @parkForHalt r a s ha houtcome =>
      rw [← ha] at houtcome ⊢
      exact (r.step_effect store).link_of_awaitHalt houtcome
  | waitForEntry | waitForHalt | unfit => exact hp
  | _ => trivial

theorem ne_awaitingEntry (hturn : Turn table store p v) (hv : ∀ b, v.outcome ≠ .broken b)
    {s : Symbol} (hstored : store.contains s) (r : Running) :
    v.outcome.next?.getD p ≠ .awaitingEntry r s := by
  intro h
  cases hturn with
  | @parkForEntry r' a s' ha houtcome =>
      cases h
      rw [← ha] at houtcome
      rw [((r'.step_effect store).link_of_awaitEntry houtcome).2] at hstored
      cases hstored
  | waitForEntry hmissing =>
      cases h
      rw [hmissing] at hstored
      cases hstored
  | unfit => exact hv _ rfl
  | _ => cases h

end Turn

/-!
## Rounds
-/

theorem Sweep.visit_of_mem_children {table : Processes} {w : Sweep} {order : List Symbol}
    {c : Symbol × Stage} (hc : c ∈ (order.foldl (attend table) w).children) :
    c ∈ w.children ∨ ∃ name p store, table.get? name = some p ∧
      (p.visit table store).outcome.child? = some c := by
  induction order generalizing w with
  | nil => exact .inl hc
  | cons name rest ih =>
      rcases ih hc with hhere | hlater
      · unfold attend at hhere
        cases hget : table.get? name with
        | none =>
            rw [hget] at hhere
            exact .inl hhere
        | some p =>
            rw [hget] at hhere
            rcases List.mem_append.mp hhere with hold | hnew
            · exact .inl hold
            · exact .inr ⟨name, p, w.store, hget, Option.mem_toList.mp hnew⟩
      · exact .inr hlater

namespace World

variable {world : World} {name s : Symbol} {p q : Stage} {r : Running}
  {before later : List Symbol}

theorem exists_keys_eq (hget : world.processes.get? name = some p) :
    ∃ before later, world.processes.keys = before ++ name :: later :=
  List.append_of_mem (Table.mem_keys_iff.mpr (Table.contains_iff.mpr ⟨p, hget⟩))

theorem get?_round (hlive : world.passes .live)
    (hkeys : world.processes.keys = before ++ name :: later)
    (hget : world.processes.get? name = some p) :
    world.round.world.processes.get? name =
      some ((p.visit world.processes (world.sweep before).store).outcome.next?.getD p) := by
  have hdistinct := world.processes.keys_nodup
  rw [hkeys] at hdistinct
  rw [round_eq hlive, hkeys, get?_roundIn hlive hget hdistinct]

theorem spawn_of_get?_round (hlive : world.passes .live)
    (hnew : world.processes.get? name = none)
    (h : world.round.world.processes.get? name = some q) :
    ∃ parent r v body, world.processes.get? parent = some (.running r) ∧
      r.control = .spawn v body ∧ r.spawn? = some name ∧
      q = .running (Running.start body r.env) := by
  have hsound := sound_sweep hlive world.processes.keys
  rw [round_eq hlive, roundIn_eq hlive] at h
  rcases hsound.get?_joined h with hnext | hchild
  · have hold : world.processes.contains name := by
      rw [← hsound.names]
      exact Table.contains_iff.mpr ⟨q, hnext⟩
    rcases Table.contains_iff.mp hold with ⟨p, hfound⟩
    rw [hnew] at hfound
    cases hfound
  · rcases Sweep.visit_of_mem_children hchild with hnone | ⟨parent, p, store, hparent, hasked⟩
    · cases hnone
    · rcases Stage.spawn_of_visit (World.passes_get? hlive hparent) hasked with
        ⟨r, v, body, rfl, hspawn, hcontrol, hq, _⟩
      exact ⟨parent, r, v, body, hparent, hcontrol, hspawn, hq⟩

theorem turn_of_get?_round (hlive : world.passes .live)
    (h : world.round.world.processes.get? name = some q) :
    (∃ p v store, world.processes.get? name = some p ∧ Turn world.processes store p v ∧
      (∀ key, world.store.contains key -> store.contains key) ∧ (∀ b, v.outcome ≠ .broken b) ∧
      q = v.outcome.next?.getD p) ∨ ∃ r, q = .running r := by
  have htable := (World.passes_iff.mp hlive).2.1
  cases hget : world.processes.get? name with
  | some p =>
      have hp := World.passes_get? hlive hget
      rcases exists_keys_eq hget with ⟨before, later, hkeys⟩
      rw [get?_round hlive hkeys hget] at h
      refine .inl ⟨p, _, (world.sweep before).store, rfl,
        Turn.of_visit (Stage.ne_stray_of_passes hp), ?_, ?_, (Option.some.inj h).symm⟩
      · intro key hkey
        exact Sweep.contains_foldl hkey before
      · intro b hbroken
        have hvisit := Stage.visit_live htable (sound_sweep hlive before).store hp
        exact hvisit.broken b hbroken Screen.strict_live
  | none =>
      rcases spawn_of_get?_round hlive hget h with ⟨_parent, r, _v, body, _hparent, _, _, hq⟩
      exact .inr ⟨_, hq⟩

theorem waitsAtLink_after (hlive : world.passes .live)
    (hfirst : world.processes.Holds Stage.WaitsAtLink) (n : Nat) :
    (world.after n).processes.Holds Stage.WaitsAtLink := by
  induction n with
  | zero => exact hfirst
  | succ n ih =>
      intro name q hget
      rcases turn_of_get?_round (passes_after hlive n) hget with
        ⟨p, v, store, hbefore, hturn, _hstore, _hv, rfl⟩ | ⟨r, rfl⟩
      · exact hturn.waitsAtLink (ih name p hbefore)
      · trivial

/-- Once an entry is there no process is found waiting for it after the next round. -/
theorem ne_awaitingEntry_round (hlive : world.passes .live) (hstored : world.store.contains s)
    (name : Symbol) (r : Running) :
    world.round.world.processes.get? name ≠ some (.awaitingEntry r s) := by
  intro hget
  rcases turn_of_get?_round hlive hget with
    ⟨p, v, store, _hbefore, hturn, hstore, hv, hq⟩ | ⟨r', hq⟩
  · exact hturn.ne_awaitingEntry hv (hstore s hstored) r hq.symm
  · cases hq

/-!
## Waiting for an entry
-/

structure EntryWaitSettled (world : World) (name : Symbol) (r : Running) (s : Symbol) : Prop where
  atLink : r.control = .link (.symbol s)
  /-- It runs again if the entry is there when its turn comes, and is else left as it was. -/
  turn : ∀ before later, world.processes.keys = before ++ name :: later ->
    ∃ w, before.foldlM (Sweep.visit world.processes) (Sweep.start world) = .ok w ∧
      world.round.world.processes.get? name =
        some (if w.store.contains s then .running r else .awaitingEntry r s)
  woken : world.store.contains s ->
    world.round.world.processes.get? name = some (.running r)
  kept : world.round.world.store.contains s = false ->
    world.round.world.processes.get? name = some (.awaitingEntry r s)
  /-- Its next step makes the link, once. -/
  linked : world.round.world.processes.get? name = some (.running r) ->
    world.round.world.round.world.processes.get? name = some (.running { r with
      control := .returned (.pointer s)
      trace := r.trace ++ [.link (.symbol s) (.pointer s)] })

theorem contains_round_of_sweep (hlive : world.passes .live)
    (hkeys : world.processes.keys = before ++ later)
    (hstored : (world.sweep before).store.contains s) : world.round.world.store.contains s := by
  rw [round_eq hlive, roundIn_eq hlive, hkeys]
  unfold sweep
  rw [List.foldl_append]
  exact Sweep.contains_foldl hstored later

theorem get?_round_awaitingEntry (hlive : world.passes .live)
    (hkeys : world.processes.keys = before ++ name :: later)
    (hget : world.processes.get? name = some (.awaitingEntry r s)) :
    world.round.world.processes.get? name =
      some (if (world.sweep before).store.contains s then .running r else .awaitingEntry r s) := by
  have hp := World.passes_get? hlive hget
  simp only [Stage.passes, Bool.and_eq_true] at hp
  rw [get?_round hlive hkeys hget, Stage.visit_awaitingEntry hp.2]
  split
  · rfl
  · rfl

theorem get?_round_link (hlive : world.passes .live)
    (hget : world.processes.get? name = some (.running r))
    (hcontrol : r.control = .link (.symbol s)) (hstored : world.store.contains s) :
    world.round.world.processes.get? name =
      some (.running ((r.record (.link (.symbol s) (.pointer s))).returning (.pointer s))) := by
  rcases exists_keys_eq hget with ⟨before, later, hkeys⟩
  have hr : r.passes .live := World.passes_get? hlive hget
  have hfound : (world.sweep before).store.contains s := Sweep.contains_foldl hstored before
  rw [get?_round hlive hkeys hget, Stage.visit, Running.step_link hr hcontrol rfl, if_pos hfound]
  rfl

theorem entryWaitSettled (hlive : world.passes .live)
    (hget : world.processes.get? name = some (.awaitingEntry r s))
    (hcontrol : r.control = .link (.symbol s)) : world.EntryWaitSettled name r s := by
  rcases exists_keys_eq hget with ⟨before, later, hkeys⟩
  have hround := get?_round_awaitingEntry hlive hkeys hget
  refine ⟨hcontrol, ?_, ?_, ?_, ?_⟩
  · intro before' later' hkeys'
    exact ⟨_, foldlM_eq_sweep hlive before', get?_round_awaitingEntry hlive hkeys' hget⟩
  · intro hstored
    have hfound : (world.sweep before).store.contains s := Sweep.contains_foldl hstored before
    rw [hround, if_pos hfound]
  · intro hmissing
    have habsent : ¬ (world.sweep before).store.contains s := by
      intro hfound
      rw [contains_round_of_sweep hlive hkeys hfound] at hmissing
      cases hmissing
    rw [hround, if_neg habsent]
  · intro hwoken
    -- It was woken by an entry that its turn found, and no entry goes away before the next one.
    have hstored : world.round.world.store.contains s := by
      by_cases hfound : (world.sweep before).store.contains s
      · exact contains_round_of_sweep hlive hkeys hfound
      · rw [hround, if_neg hfound] at hwoken
        cases hwoken
    exact get?_round_link (passes_after hlive 1) hwoken hcontrol hstored

/-!
## Waiting for a process
-/

structure HaltWaitSettled (world : World) (name : Symbol) (r : Running) (s : Symbol) : Prop where
  atLink : ∃ u, r.control = .link u ∧ u.resolve r.env = .ok (.process s)
  /-- It is handed the value if the other process has halted, and makes the link, once. -/
  handed : ∀ v ts, world.processes.get? s = some (.halted v ts) ->
    world.round.world.processes.get? name = some (.running { r with
      control := .returned v
      trace := r.trace ++ [.link (.process s) v] })
  kept : ∀ q, world.processes.get? s = some q -> q.isHalted = false ->
    world.round.world.processes.get? name = some (.awaitingHalt r s)

theorem haltWaitSettled (hlive : world.passes .live)
    (hget : world.processes.get? name = some (.awaitingHalt r s))
    (hlink : ∃ u, r.control = .link u ∧ u.resolve r.env = .ok (.process s)) :
    world.HaltWaitSettled name r s := by
  have hround {q : Stage} (htarget : world.processes.get? s = some q) :=
    get?_roundIn_awaitingHalt hlive (List.Perm.refl _) hget htarget
  rw [← round_eq hlive] at hround
  refine ⟨hlink, ?_, ?_⟩
  · intro v ts htarget
    exact hround htarget
  · intro q htarget hgoing
    rw [hround htarget]
    cases q with
    | halted v ts => cases hgoing
    | _ => rfl

/-!
## Runs
-/

/-- In every run of a well-sorted program without holes and return markers no wake-up is lost, made
twice or made in vain.  A process waits at a link.  It goes on when the entry is there, or when
the other process has halted, and makes its link exactly once; as long as that is not so, it is
left as it was.  After a round that began with an entry no process ever waits for it. -/
theorem wake_ups_exact (settings : Settings) (e : Computation) (he : e.passes .source) :
    ∃ world, ofComputation settings e = .ok world ∧
      (∀ n name r s, (world.after n).processes.get? name = some (.awaitingEntry r s) ->
        (world.after n).EntryWaitSettled name r s) ∧
      (∀ n name r s, (world.after n).processes.get? name = some (.awaitingHalt r s) ->
        (world.after n).HaltWaitSettled name r s) ∧
      ∀ n m name r s, n < m -> (world.after n).store.contains s ->
        (world.after m).processes.get? name ≠ some (.awaitingEntry r s) := by
  rcases exists_ofComputation Screen.normal_source settings he with ⟨body, hworld, hbody⟩
  have hlive := passes_after (live_initial hbody)
  have hfirst : (initial body).processes.Holds Stage.WaitsAtLink := by
    apply Processes.Holds.insert
    · intro name p hget
      cases hget
    · trivial
  have hwaits := waitsAtLink_after (live_initial hbody) hfirst
  refine ⟨initial body, hworld, ?_, ?_, ?_⟩
  · intro n name r s hget
    exact entryWaitSettled (hlive n) hget (hwaits n name _ hget)
  · intro n name r s hget
    exact haltWaitSettled (hlive n) hget (hwaits n name _ hget)
  · intro n m name r s hnm hstored
    cases m with
    | zero => cases hnm
    | succ k =>
        have hkept := (ledger_within_after (initial body) (Nat.le_of_lt_succ hnm)).entries s hstored
        exact ne_awaitingEntry_round (hlive k) hkept name r

def linkEntryThenProcess : Computation :=
  .bind (.variable "p")
    (.spawn (.symbol (.name "a"))
      (.bind .ignore (.ret (.number 1))
        (.bind .ignore (.put (.symbol (.name "x")) (.number 2))
          (.bind .ignore (.ret (.number 3)) (.bind .ignore (.ret (.number 4)) (.ret (.number 5)))))))
    (.bind .ignore (.link (.symbol (.name "x"))) (.link (.variable "p")))

theorem linkEntryThenProcess_wake_ups :
    linkEntryThenProcess.passes .source ∧ ∃ world,
      ofComputation {} linkEntryThenProcess = .ok world ∧ ∃ r r',
      (world.after 7).processes.get? .anonymous = some (.awaitingEntry r (.name "x")) ∧
      (world.after 7).store.contains (.name "x") ∧
      (world.after 8).processes.get? .anonymous = some (.running r) ∧
      (world.after 9).processes.get? .anonymous = some (.running { r with
        control := .returned (.pointer (.name "x"))
        trace := r.trace ++ [.link (.symbol (.name "x")) (.pointer (.name "x"))] }) ∧
      (world.after 12).processes.get? .anonymous = some (.awaitingHalt r' (.name "a")) ∧
      (world.after 14).processes.get? .anonymous = some (.running { r' with
        control := .returned (.number 5)
        trace := r'.trace ++ [.link (.process (.name "a")) (.number 5)] }) := by
  rcases wake_ups_exact {} linkEntryThenProcess rfl with ⟨world, hworld, hentry, hhalt, _⟩
  cases hworld
  have hwaiting := hentry 7 .anonymous _ (.name "x") rfl
  have hwoken := hwaiting.woken rfl
  have hhanded := (hhalt 13 .anonymous _ (.name "a") rfl).handed (.number 5) _ rfl
  exact ⟨rfl, _, rfl, _, _, rfl, rfl, hwoken, hwaiting.linked hwoken, rfl, hhanded⟩

end World

end PushValue
