import PushValue.Proofs.Screen.Visit

/-!
# Footprints

A step touches the store in few ways.  It writes at most one entry, that of a `put`;
the name of a spawned process is reserved afterwards, when the parent has stepped.  It
consults at most one key: that of a `get`, of a `link` to a symbol, or the name of a
process that is to be spawned.  Every other step does the same over every store and
leaves the store as it was.
-/

namespace PushValue

def Store.write (store : Store) : Option (Symbol × Value) -> Store
  | none => store
  | some (key, v) => store.insert key v

theorem Store.contains_write {store : Store} {key : Symbol} (h : store.contains key)
    (entry : Option (Symbol × Value)) : (store.write entry).contains key := by
  cases entry with
  | none => exact h
  | some e => exact Table.contains_insert_of_contains e.1 e.2 h

namespace Running

def put? (r : Running) : Option (Symbol × Value) :=
  match r.control with
  | .put n v =>
      match n.resolveSymbol r.env, v.resolve r.env with
      | .ok s, .ok w => some (r.stack.qualify s, w)
      | _, _ => none
  | _ => none

def spawn? (r : Running) : Option Symbol :=
  match r.control with
  | .spawn v _ =>
      match v.resolveSymbol r.env with
      | .ok s => some (r.stack.qualify s)
      | .error _ => none
  | _ => none

/-- The key that a step consults. -/
def consulted? (r : Running) : Option Symbol :=
  match r.control with
  | .get v =>
      match v.resolvePointer r.env with
      | .ok s => some s
      | .error _ => none
  | .link v =>
      match v.resolve r.env with
      | .ok (.symbol s) => some s
      | _ => none
  | .spawn _ _ => r.spawn?
  | _ => none

end Running

def Computation.isPlain : Computation -> Bool
  | .put _ _ | .get _ | .link _ | .spawn _ _ => false
  | _ => true

def Outcome.isQuiet : Outcome -> Bool
  | .moved | .failed _ | .signal (.halt _) | .signal (.awaitHalt _) => true
  | .signal (.awaitEntry _) | .signal (.spawn _ _ _) => false

/-!
## Plain steps
-/

/-- A step that does the same over every store and leaves it as it was. -/
def Plain (attempt : Store -> Attempt) : Prop :=
  ∃ outcome running, outcome.isQuiet ∧ ∀ store, attempt store = ⟨outcome, store, running⟩

namespace Plain

variable {r : Running}

theorem moved : Plain fun store => .moved store r :=
  ⟨.moved, r, rfl, fun _ => rfl⟩

theorem failed {f : Failure} : Plain fun store => ⟨.failed f, store, r⟩ :=
  ⟨.failed f, r, rfl, fun _ => rfl⟩

theorem fault {f : Fault} : Plain fun store => .fault store r f :=
  failed

theorem proceed {α : Type} {result : Except Failure α} {next : Store -> α -> Attempt}
    (hnext : ∀ a, Plain fun store => next store a) :
    Plain fun store => Attempt.proceed store r result (next store) := by
  cases result with
  | ok a => exact hnext a
  | error f => exact failed

theorem deliver {v : Value} : Plain fun store => r.deliver store v := by
  unfold Running.deliver
  cases r.stack with
  | nil => exact ⟨.signal (.halt v), r, rfl, fun _ => rfl⟩
  | cons frame rest =>
      apply proceed
      intro context
      cases context with
      | nest s => exact moved
      | bind env p body => exact proceed fun env' => moved
      | bindBox env p body =>
          dsimp only
          split
          · exact proceed fun env' => moved
          · exact moved
          · exact fault
      | argument w | label w => exact fault
      | stray o => exact failed

theorem enter {p : Pattern} {body : Computation} : Plain fun store => r.enter store p body := by
  unfold Running.enter
  cases r.stack with
  | nil => exact fault
  | cons frame rest =>
      apply proceed
      intro context
      cases context with
      | argument v => exact proceed fun env => moved
      | _ => exact fault

theorem choose {bs : Branches} : Plain fun store => r.choose store bs := by
  unfold Running.choose
  cases r.stack with
  | nil => exact fault
  | cons frame rest =>
      apply proceed
      intro context
      cases context with
      | label v => exact proceed fun s => proceed fun part => proceed fun body => moved
      | _ => exact fault

theorem extract {v : Value} : Plain fun store => r.reduce store (.extract v) := by
  cases v with
  | «variable» x =>
      apply proceed
      intro boxes
      cases hget : boxes.get? x with
      | none => exact fault
      | some b => exact proceed fun unpacked => moved
  | _ => exact fault

theorem switch {v : Value} {cs : Cases} : Plain fun store => r.reduce store (.switch v cs) := by
  apply proceed
  intro w
  cases w with
  | variant l payload =>
      exact proceed fun s => proceed fun part => proceed fun env => proceed fun body => moved
  | _ => exact fault

theorem assert {a b : Value} {equal : Bool} :
    Plain fun store => r.reduce store (.assert a equal b) := by
  apply proceed
  intro a'
  apply proceed
  intro b'
  by_cases hequal : (a' == b') = equal
  · simp only [if_pos hequal]
    exact proceed fun _ => moved
  · simp only [if_neg hequal]
    exact fault

theorem reduce {e : Computation} (he : e.isPlain) : Plain fun store => r.reduce store e := by
  cases e with
  | ret v => exact proceed fun w => proceed fun _ => deliver
  | returned v => exact deliver
  | nest v body => exact proceed fun s => moved
  | bind p e₁ e₂ => exact moved
  | bindBox p e₁ e₂ =>
      cases p with
      | «variable» x | ignore => exact moved
      | _ => exact fault
  | extract v => exact extract
  | lambda p body => exact enter
  | branches bs => exact choose
  | apply e v | project e v => exact proceed fun w => moved
  | switch v cs => exact switch
  | assert a equal b => exact assert
  | hole | stray o => exact failed
  | put n v | get v | link v | spawn v body => cases he

theorem step (h : r.control.isPlain) : Plain fun store => r.step store :=
  proceed fun _ => reduce h

end Plain

/-!
## Steps that meet the store

The clauses for the four forms that are not plain, for a process in which nothing is
out of place.
-/

namespace Running

variable {r : Running} {store : Store}

theorem qualify_isProper (hr : r.passes .live) {s : Symbol} (hs : s.isProper) :
    (r.stack.qualify s).isProper := by
  rw [Running.passes_iff] at hr
  rcases hr with ⟨_hcontrol, _henv, hstack, _htrace⟩
  exact Stack.qualify_passes Screen.live_within r.stack hstack s hs

theorem check_eq_ok (hr : r.passes .live) : r.stack.check = .ok () := by
  rw [Running.passes_iff] at hr
  rcases hr with ⟨hcontrol, henv, hstack, htrace⟩
  have hpoised : r.Poised .live :=
    ⟨Computation.passesControl_mono Screen.live.within_holed hcontrol, henv, hstack, htrace⟩
  exact hpoised.check_eq_ok

theorem resolveSymbol_isProper (hr : r.passes .live) {v : Value} (hv : v.passes .live)
    {s : Symbol} (hs : v.resolveSymbol r.env = .ok s) : s.isProper := by
  rw [Running.passes_iff] at hr
  rcases hr with ⟨_hcontrol, henv, _hstack, _htrace⟩
  exact (Value.resolveSymbol_meets henv hv).of_eq_ok hs

theorem step_of_head {head : Computation} (hhead : r.control.head = .ok head) :
    r.step store = Running.reduce store { r with control := head } r.control := by
  rw [step, hhead, Attempt.proceed_ok]

theorem step_put (hr : r.passes .live) {n v w : Value} {s : Symbol}
    (hcontrol : r.control = .put n v) (hn : n.resolveSymbol r.env = .ok s)
    (hv : v.resolve r.env = .ok w) :
    r.step store = .moved (store.insert (r.stack.qualify s) w)
      ((r.record (.put (r.stack.qualify s) w)).returning (.pointer (r.stack.qualify s))) := by
  have hparts := (Running.passes_iff.mp hr).1
  rw [hcontrol] at hparts
  simp only [Computation.passesControl, Computation.passes, Bool.and_eq_true] at hparts
  have hname := qualify_isProper hr (resolveSymbol_isProper hr hparts.1 hn)
  have hhead : r.control.head = .ok (.put n v) := by
    rw [hcontrol]
    rfl
  rw [step_of_head hhead, hcontrol, reduce]
  simp only [hn, hv, check_eq_ok hr, Attempt.proceed_ok, Attempt.ask_ok,
    Attempt.seek_of_isProper _ _ hname]
  rfl

theorem step_get (hr : r.passes .live) {v : Value} {s : Symbol}
    (hcontrol : r.control = .get v) (hv : v.resolvePointer r.env = .ok s) :
    r.step store = match store.get? s with
      | some stored => .moved store ((r.record (.get s stored)).returning stored)
      | none => .fault store r (.undefinedEntry s) := by
  have hparts := Running.passes_iff.mp hr
  rw [hcontrol] at hparts
  have hs : s.isProper := (Value.resolvePointer_meets hparts.2.1 hparts.1).of_eq_ok hv
  have hhead : r.control.head = .ok (.get v) := by
    rw [hcontrol]
    rfl
  have hself : { r with control := .get v } = r := by
    rw [← hcontrol]
  cases hget : store.get? s with
  | none =>
      simp only [step_of_head hhead, hcontrol, hself, reduce, hv, Attempt.proceed_ok,
        Attempt.seek_of_isProper _ _ hs, hget]
  | some stored =>
      simp only [step_of_head hhead, hcontrol, hself, reduce, hv, Attempt.proceed_ok,
        Attempt.seek_of_isProper _ _ hs, hget]

theorem step_link (hr : r.passes .live) {v : Value} {s : Symbol}
    (hcontrol : r.control = .link v) (hv : v.resolve r.env = .ok (.symbol s)) :
    r.step store =
      if store.contains s then
        .moved store ((r.record (.link (.symbol s) (.pointer s))).returning (.pointer s))
      else ⟨.signal (.awaitEntry s), store, { r with control := .link (.symbol s) }⟩ := by
  have hparts := Running.passes_iff.mp hr
  rw [hcontrol] at hparts
  have hs : s.isProper := (Value.resolve_meets hparts.2.1 v hparts.1).of_eq_ok hv
  have hhead : r.control.head = .ok r.control := by
    rw [hcontrol]
    rfl
  rw [step_of_head hhead, hcontrol, reduce]
  simp only [hv, Attempt.proceed_ok, Attempt.seek_of_isProper _ _ hs]
  rfl

theorem step_spawn (hr : r.passes .live) {v : Value} {body : Computation} {s : Symbol}
    (hcontrol : r.control = .spawn v body) (hv : v.resolveSymbol r.env = .ok s) :
    r.step store =
      if store.contains (r.stack.qualify s) then
        .fault store { r with control := .spawn v .hole } (.duplicateName (r.stack.qualify s))
      else
        ⟨.signal (.spawn (r.stack.qualify s) r.env body), store,
          r.returning (.process (r.stack.qualify s))⟩ := by
  have hparts := (Running.passes_iff.mp hr).1
  rw [hcontrol] at hparts
  simp only [Computation.passesControl, Computation.passes, Bool.and_eq_true] at hparts
  have hname := qualify_isProper hr (resolveSymbol_isProper hr hparts.1.2 hv)
  have hhead : r.control.head = .ok (.spawn v .hole) := by
    rw [hcontrol]
    rfl
  rw [step_of_head hhead, hcontrol, reduce]
  simp only [hv, check_eq_ok hr, Attempt.proceed_ok, Attempt.ask_ok,
    Attempt.seek_of_isProper _ _ hname]
  rfl

/-!
## What a step depends on and what it changes
-/

theorem exists_of_put? {key : Symbol} {w : Value} (h : r.put? = some (key, w)) :
    ∃ n v s, r.control = .put n v ∧ n.resolveSymbol r.env = .ok s ∧
      v.resolve r.env = .ok w ∧ key = r.stack.qualify s := by
  unfold put? at h
  cases hcontrol : r.control with
  | put n v =>
      simp only [hcontrol] at h
      cases hn : n.resolveSymbol r.env with
      | error f => simp [hn] at h
      | ok s =>
          cases hv : v.resolve r.env with
          | error f => simp [hn, hv] at h
          | ok w' =>
              simp only [hn, hv, Option.some.injEq, Prod.mk.injEq] at h
              rw [← h.2]
              exact ⟨n, v, s, rfl, hn, hv, h.1.symm⟩
  | _ => simp [hcontrol] at h

theorem exists_of_spawn? {name : Symbol} (h : r.spawn? = some name) :
    ∃ v body s, r.control = .spawn v body ∧ v.resolveSymbol r.env = .ok s ∧
      name = r.stack.qualify s := by
  unfold spawn? at h
  cases hcontrol : r.control with
  | spawn v body =>
      simp only [hcontrol] at h
      cases hv : v.resolveSymbol r.env with
      | error f => simp [hv] at h
      | ok s =>
          simp only [hv, Option.some.injEq] at h
          exact ⟨v, body, s, rfl, hv, h.symm⟩
  | _ => simp [hcontrol] at h

theorem cases_of_consulted? {key : Symbol} (h : r.consulted? = some key) :
    (∃ v, r.control = .get v ∧ v.resolvePointer r.env = .ok key) ∨
      (∃ v, r.control = .link v ∧ v.resolve r.env = .ok (.symbol key)) ∨
      r.spawn? = some key := by
  unfold consulted? at h
  cases hcontrol : r.control with
  | get v =>
      simp only [hcontrol] at h
      cases hv : v.resolvePointer r.env with
      | error f => simp [hv] at h
      | ok s =>
          simp only [hv, Option.some.injEq] at h
          exact .inl ⟨v, rfl, by rw [hv, h]⟩
  | link v =>
      simp only [hcontrol] at h
      cases hv : v.resolve r.env with
      | error f => simp [hv] at h
      | ok w =>
          cases w with
          | symbol s =>
              simp only [hv, Option.some.injEq] at h
              exact .inr (.inl ⟨v, rfl, by rw [hv, h]⟩)
          | _ => simp [hv] at h
  | spawn v body =>
      simp only [hcontrol] at h
      exact .inr (.inr h)
  | _ => simp [hcontrol] at h

theorem plain_step (hput : r.put? = none) (hconsulted : r.consulted? = none) :
    ∃ outcome running, outcome.isQuiet ∧ ∀ store, r.step store = ⟨outcome, store, running⟩ := by
  show Plain fun store => r.step store
  cases hcontrol : r.control with
  | put n v =>
      simp only [put?, hcontrol] at hput
      simp only [step, hcontrol, Computation.head, Attempt.proceed_ok, reduce]
      cases hn : n.resolveSymbol r.env with
      | error f => exact Plain.failed
      | ok s =>
          cases hv : v.resolve r.env with
          | error f => exact Plain.failed
          | ok w => simp [hn, hv] at hput
  | get v =>
      simp only [consulted?, hcontrol] at hconsulted
      simp only [step, hcontrol, Computation.head, Attempt.proceed_ok, reduce]
      cases hv : v.resolvePointer r.env with
      | error f => exact Plain.failed
      | ok s => simp [hv] at hconsulted
  | link v =>
      simp only [consulted?, hcontrol] at hconsulted
      simp only [step, hcontrol, Computation.head, Attempt.proceed_ok, reduce]
      cases hv : v.resolve r.env with
      | error f => exact Plain.failed
      | ok w =>
          cases w with
          | symbol s => simp [hv] at hconsulted
          | process s => exact ⟨.signal (.awaitHalt s), _, rfl, fun _ => rfl⟩
          | _ => exact Plain.fault
  | spawn v body =>
      simp only [consulted?, spawn?, hcontrol] at hconsulted
      simp only [step, hcontrol, Computation.head, Attempt.proceed_ok, reduce]
      cases hv : v.resolveSymbol r.env with
      | error f => exact Plain.failed
      | ok s => simp [hv] at hconsulted
  | _ => exact Plain.step (by rw [hcontrol]; rfl)

/-- A step leaves the store as it was but for the entry that it puts. -/
theorem step_store (hr : r.passes .live) (store : Store) :
    (r.step store).store = store.write r.put? := by
  cases hput : r.put? with
  | some entry =>
      rcases exists_of_put? hput with ⟨n, v, s, hcontrol, hn, hv, hkey⟩
      rw [step_put hr hcontrol hn hv, ← hkey]
      rfl
  | none =>
      cases hconsulted : r.consulted? with
      | none =>
          rcases plain_step hput hconsulted with ⟨outcome, running, _hquiet, heq⟩
          rw [heq]
          rfl
      | some key =>
          rcases cases_of_consulted? hconsulted with
            ⟨v, hcontrol, hv⟩ | ⟨v, hcontrol, hv⟩ | hspawn
          · rw [step_get hr hcontrol hv]
            split <;> rfl
          · rw [step_link hr hcontrol hv]
            split <;> rfl
          · rcases exists_of_spawn? hspawn with ⟨v, body, s, hcontrol, hv, _hname⟩
            rw [step_spawn hr hcontrol hv]
            split <;> rfl

/-- A step depends on the store only through the key that it consults. -/
theorem step_agree (hr : r.passes .live) {store store' : Store}
    (hagree : ∀ key, r.consulted? = some key -> store.get? key = store'.get? key) :
    (r.step store).outcome = (r.step store').outcome ∧
      (r.step store).running = (r.step store').running := by
  cases hput : r.put? with
  | some entry =>
      rcases exists_of_put? hput with ⟨n, v, s, hcontrol, hn, hv, _hkey⟩
      rw [step_put hr hcontrol hn hv, step_put hr hcontrol hn hv]
      exact ⟨rfl, rfl⟩
  | none =>
      cases hconsulted : r.consulted? with
      | none =>
          rcases plain_step hput hconsulted with ⟨outcome, running, _hquiet, heq⟩
          rw [heq, heq]
          exact ⟨rfl, rfl⟩
      | some key =>
          have hget := hagree key hconsulted
          have hcontains := Table.contains_congr hget
          rcases cases_of_consulted? hconsulted with
            ⟨v, hcontrol, hv⟩ | ⟨v, hcontrol, hv⟩ | hspawn
          · rw [step_get hr hcontrol hv, step_get hr hcontrol hv, hget]
            cases store'.get? key with
            | none => exact ⟨rfl, rfl⟩
            | some stored => exact ⟨rfl, rfl⟩
          · rw [step_link hr hcontrol hv, step_link hr hcontrol hv, hcontains]
            cases store'.contains key with
            | true => exact ⟨rfl, rfl⟩
            | false => exact ⟨rfl, rfl⟩
          · rcases exists_of_spawn? hspawn with ⟨v, body, s, hcontrol, hv, hname⟩
            rw [step_spawn hr hcontrol hv, step_spawn hr hcontrol hv, ← hname, hcontains]
            cases store'.contains key with
            | true => exact ⟨rfl, rfl⟩
            | false => exact ⟨rfl, rfl⟩

theorem spawn_of_step (hr : r.passes .live) {store : Store} {name : Symbol} {env : Environment}
    {body : Computation} (h : (r.step store).outcome = .signal (.spawn name env body)) :
    r.spawn? = some name ∧ store.contains name = false ∧
      ∃ v, r.control = .spawn v body ∧ env = r.env := by
  cases hput : r.put? with
  | some entry =>
      rcases exists_of_put? hput with ⟨n, v, s, hcontrol, hn, hv, _hkey⟩
      rw [step_put hr hcontrol hn hv] at h
      cases h
  | none =>
      cases hconsulted : r.consulted? with
      | none =>
          rcases plain_step hput hconsulted with ⟨outcome, running, hquiet, heq⟩
          rw [heq] at h
          rw [show outcome = .signal (.spawn name env body) from h] at hquiet
          cases hquiet
      | some key =>
          rcases cases_of_consulted? hconsulted with
            ⟨v, hcontrol, hv⟩ | ⟨v, hcontrol, hv⟩ | hspawn
          · rw [step_get hr hcontrol hv] at h
            split at h <;> cases h
          · rw [step_link hr hcontrol hv] at h
            split at h <;> cases h
          · rcases exists_of_spawn? hspawn with ⟨v, body', s, hcontrol, hv, hname⟩
            rw [step_spawn hr hcontrol hv, ← hname] at h
            split at h
            · cases h
            next hfree =>
              cases h
              exact ⟨hspawn, Bool.eq_false_iff.mpr hfree, v, hcontrol, rfl⟩

theorem put?_of_spawn? {name : Symbol} (h : r.spawn? = some name) : r.put? = none := by
  rcases exists_of_spawn? h with ⟨v, body, s, hcontrol, _hv, _hname⟩
  unfold put?
  rw [hcontrol]

end Running

/-!
## Footprints of visits

A process that waits for an entry consults its key.  The name of a spawned process is
written when neither the store nor the table of the round has it.
-/

def Visit.Outcome.next? : Visit.Outcome -> Option Stage
  | .moved next | .spawned next _ _ => some next
  | .resting | .broken _ => none

def Visit.Outcome.child? : Visit.Outcome -> Option (Symbol × Stage)
  | .spawned _ name child => some (name, child)
  | .resting | .moved _ | .broken _ => none

namespace Stage

def consulted? : Stage -> Option Symbol
  | running r => r.consulted?
  | awaitingEntry _ s => some s
  | _ => none

/-- The entry that a visit writes, the reservation of a spawned name included. -/
def written? (table : Processes) (store : Store) : Stage -> Option (Symbol × Value)
  | running r =>
      match r.spawn? with
      | some name =>
          if store.contains name || table.contains name then none else some (name, .process name)
      | none => r.put?
  | _ => none

variable {table : Processes} {store : Store}

theorem visit_awaitingEntry {r : Running} {s : Symbol} (hs : s.isProper) :
    (awaitingEntry r s).visit table store =
      if store.contains s then ⟨.moved (running r), store, awaitingEntry r s⟩
      else ⟨.resting, store, awaitingEntry r s⟩ :=
  seek_of_isProper store _ hs _

theorem visit_awaitingHalt {r : Running} {s : Symbol} (hs : s.isProper) :
    (awaitingHalt r s).visit table store =
      match table.get? s with
      | none => ⟨.moved (failed r (.noSuchProcess s)), store, awaitingHalt r s⟩
      | some (halted v _) =>
          let r := (r.record (.link (.process s) v)).returning v
          ⟨.moved (running r), store, awaitingHalt r s⟩
      | some _ => ⟨.resting, store, awaitingHalt r s⟩ :=
  seek_of_isProper store _ hs _

/-- A visit to a process that is about to spawn: it fails where the name is taken, be it in the
store or among the processes of the round. -/
theorem visit_spawn {r : Running} (hr : r.passes .live) {v : Value} {body : Computation}
    {name : Symbol} (hcontrol : r.control = .spawn v body) (hname : r.spawn? = some name) :
    (running r).visit table store =
      if store.contains name then
        ⟨.moved (failed { r with control := .spawn v .hole } (.duplicateName name)), store,
          running { r with control := .spawn v .hole }⟩
      else if table.contains name then
        ⟨.moved (failed (r.returning (.process name)) (.duplicateName name)), store,
          running (r.returning (.process name))⟩
      else
        ⟨.spawned (running (r.returning (.process name))) name
            (running (Running.start body r.env)), store,
          running (r.returning (.process name))⟩ := by
  rcases Running.exists_of_spawn? hname with ⟨v', body', s, hcontrol', hv, rfl⟩
  cases hcontrol.symm.trans hcontrol'
  rw [visit, Running.step_spawn hr hcontrol hv]
  by_cases hstored : store.contains (r.stack.qualify s)
  · rw [if_pos hstored, if_pos hstored]
    rfl
  · rw [if_neg hstored, if_neg hstored]
    by_cases htaken : table.contains (r.stack.qualify s)
    · rw [if_pos htaken]
      simp only [advance, if_pos htaken]
    · rw [if_neg htaken]
      simp only [advance, if_neg htaken]

/-- A visit depends on the store only through the key that it consults. -/
theorem visit_agree {p : Stage} (hp : p.passes .live) {store store' : Store}
    (hagree : ∀ key, p.consulted? = some key -> store.get? key = store'.get? key) :
    (p.visit table store).outcome = (p.visit table store').outcome := by
  cases p with
  | running r =>
      rcases Running.step_agree hp hagree with ⟨houtcome, hrunning⟩
      show advance table (r.step store) = advance table (r.step store')
      unfold advance
      rw [houtcome, hrunning]
  | awaitingEntry r s =>
      simp only [Stage.passes, Bool.and_eq_true] at hp
      have hcontains := Table.contains_congr (hagree s rfl)
      rw [visit_awaitingEntry hp.2, visit_awaitingEntry hp.2, hcontains]
      cases store'.contains s with
      | true => rfl
      | false => rfl
  | awaitingHalt r s =>
      simp only [Stage.passes, Bool.and_eq_true] at hp
      rw [visit_awaitingHalt hp.2, visit_awaitingHalt hp.2]
      cases table.get? s with
      | none => rfl
      | some q =>
          cases q with
          | halted v ts => rfl
          | _ => rfl
  | pending body | failed r f | halted v ts => rfl
  | stray o => cases hp

theorem written?_agree {p : Stage} {store store' : Store}
    (hagree : ∀ key, p.consulted? = some key -> store.get? key = store'.get? key) :
    p.written? table store = p.written? table store' := by
  cases p with
  | running r =>
      cases hspawn : r.spawn? with
      | none => simp only [written?, hspawn]
      | some name =>
          rcases Running.exists_of_spawn? hspawn with ⟨v, body, s, hcontrol, _hv, _hname⟩
          have hconsulted : (running r).consulted? = some name := by
            show r.consulted? = some name
            rw [Running.consulted?, hcontrol]
            exact hspawn
          have hcontains := Table.contains_congr (hagree name hconsulted)
          simp only [written?, hspawn, hcontains]
  | _ => rfl

theorem child?_advance {a : Attempt} {name : Symbol} {child : Stage}
    (h : (advance table a).child? = some (name, child)) :
    ∃ env body, a.outcome = .signal (.spawn name env body) ∧ table.contains name = false ∧
      child = .running (Running.start body env) := by
  unfold advance at h
  cases houtcome : a.outcome with
  | moved => simp [houtcome, Visit.Outcome.child?] at h
  | failed f => cases f <;> simp [houtcome, Visit.Outcome.child?] at h
  | signal s =>
      cases s with
      | spawn n env body =>
          simp only [houtcome] at h
          split at h
          · cases h
          next hfree =>
            cases h
            exact ⟨env, body, rfl, Bool.eq_false_iff.mpr hfree, rfl⟩
      | _ => simp [houtcome, Visit.Outcome.child?] at h

theorem spawn_of_visit {p : Stage} (hp : p.passes .live) {name : Symbol} {child : Stage}
    (h : (p.visit table store).outcome.child? = some (name, child)) :
    ∃ r v body, p = .running r ∧ r.spawn? = some name ∧ r.control = .spawn v body ∧
      child = .running (Running.start body r.env) ∧ (p.visit table store).store = store ∧
      store.contains name = false ∧ table.contains name = false := by
  cases p with
  | running r =>
      rcases child?_advance h with ⟨env, body, houtcome, htable, hchild⟩
      rcases Running.spawn_of_step hp houtcome with ⟨hspawn, hstore, v, hcontrol, henv⟩
      rw [henv] at hchild
      have hstored : ((running r).visit table store).store = store := by
        show (r.step store).store = store
        rw [Running.step_store hp, Running.put?_of_spawn? hspawn]
        rfl
      exact ⟨r, v, body, rfl, hspawn, hcontrol, hchild, hstored, hstore, htable⟩
  | awaitingEntry r s =>
      simp only [Stage.passes, Bool.and_eq_true] at hp
      rw [visit_awaitingEntry hp.2] at h
      split at h <;> cases h
  | awaitingHalt r s =>
      simp only [Stage.passes, Bool.and_eq_true] at hp
      rw [visit_awaitingHalt hp.2] at h
      split at h <;> cases h
  | pending body | failed r f | halted v ts => cases h
  | stray o => cases hp

theorem reserve_eq_write {p : Stage} (hp : p.passes .live) :
    (match (p.visit table store).outcome.child? with
      | none => (p.visit table store).store
      | some (name, _) => (p.visit table store).store.insert name (.process name)) =
      store.write (p.written? table store) := by
  cases p with
  | running r =>
      cases hspawn : r.spawn? with
      | none =>
          have hchild : ((running r).visit table store).outcome.child? = none := by
            cases h : ((running r).visit table store).outcome.child? with
            | none => rfl
            | some child =>
                rcases spawn_of_visit hp h with ⟨r', v, body, heq, hspawn', _⟩
                cases heq
                rw [hspawn] at hspawn'
                cases hspawn'
          simp only [hchild, written?, hspawn]
          exact Running.step_store hp store
      | some name =>
          rcases Running.exists_of_spawn? hspawn with ⟨v, body, s, hcontrol, _hv, _hname⟩
          rw [visit_spawn hp hcontrol hspawn]
          simp only [written?, hspawn]
          cases store.contains name with
          | true => rfl
          | false =>
              cases table.contains name with
              | true => rfl
              | false => rfl
  | awaitingEntry r s =>
      simp only [Stage.passes, Bool.and_eq_true] at hp
      rw [visit_awaitingEntry hp.2]
      cases store.contains s with
      | true => rfl
      | false => rfl
  | awaitingHalt r s =>
      simp only [Stage.passes, Bool.and_eq_true] at hp
      rw [visit_awaitingHalt hp.2]
      cases table.get? s with
      | none => rfl
      | some q =>
          cases q with
          | halted v ts => rfl
          | _ => rfl
  | pending body | failed r f | halted v ts => rfl
  | stray o => cases hp

end Stage

end PushValue
