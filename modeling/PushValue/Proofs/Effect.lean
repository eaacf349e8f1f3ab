import PushValue.Proofs.Contract
import PushValue.Proofs.History
import PushValue.Proofs.Tables

/-!
# Effects of a step

Most steps concern one process alone.  Such a quiet step leaves the store as it was and
adds nothing to the history but returns; it may halt the process, and if it fails, then for
a reason that lies in the process.  Every other step puts an entry, gets one or misses it, links
to an entry or waits for it, waits for a process to halt, or asks for a process.  What a
step can do to the world is told here once, for all processes.
-/

namespace PushValue

/-!
## Failures of a process alone
-/

/-- The failures that have nothing to do with the store or with other processes. -/
def Failure.isInner : Failure -> Bool
  | .fault (.undefinedEntry _) | .fault (.duplicateName _) | .fault (.noSuchProcess _) => false
  | _ => true

def Inner {α : Type} (result : Except Failure α) : Prop :=
  Meets (fun f => f.isInner) (fun _ => True) result

namespace Inner

variable {α β : Type}

theorem bind {result : Except Failure α} {next : α -> Except Failure β} (hresult : Inner result)
    (hnext : ∀ a, Inner (next a)) : Inner (result >>= next) :=
  Meets.bind hresult fun a _ => hnext a

theorem ofLack (part : Except Lack α) : Inner (Failure.ofLack part) := by
  cases part with
  | ok a => trivial
  | error l => rfl

theorem ofBreakage (result : Except Breakage α) : Inner (Failure.ofBreakage result) := by
  cases result with
  | ok a => trivial
  | error b => rfl

end Inner

mutual

theorem Value.resolve_inner (env : Environment) : (v : Value) -> Inner (v.resolve env)
  | .number _ | .symbol _ | .pointer _ | .process _ => trivial
  | .variable x => by
      rw [Value.resolve]
      apply Inner.bind (Inner.ofLack _)
      intro vs
      cases vs.get? x with
      | none => rfl
      | some v => trivial
  | .variant l p => by
      rw [Value.resolve]
      apply Inner.bind (l.resolve_inner env)
      intro l'
      exact Inner.bind (p.resolve_inner env) fun _ => trivial
  | .record fs => by
      rw [Value.resolve]
      exact Inner.bind (fs.resolve_inner env) fun _ => trivial
  | .extend b l v => by
      rw [Value.resolve]
      apply Inner.bind (b.resolve_inner env)
      intro b'
      apply Inner.bind (l.resolve_inner env)
      intro l'
      exact Inner.bind (v.resolve_inner env) fun _ => trivial
  | .extendBy b p => by
      rw [Value.resolve]
      apply Inner.bind (b.resolve_inner env)
      intro b'
      exact Inner.bind (p.resolveLabel_inner env) fun _ => rfl
  | .box (.mk code self captured) => by
      rw [Value.resolve]
      exact Inner.bind (Inner.ofLack _) fun _ => trivial
  | .box (.stray o) => by
      rw [Value.resolve]
      apply Inner.bind (Inner.ofLack _)
      intro boxes
      cases boxes with
      | nil => trivial
      | cons x b rest => rfl
  | .operand _ => rfl
  | .stray _ => rfl

theorem Fields.resolve_inner (env : Environment) : (fs : Fields) -> Inner (fs.resolve env)
  | .nil => trivial
  | .cons l v rest => by
      rw [Fields.resolve]
      apply Inner.bind (l.resolve_inner env)
      intro l'
      apply Inner.bind (v.resolve_inner env)
      intro v'
      exact Inner.bind (rest.resolve_inner env) fun _ => trivial
  | .foreign p _ => by
      rw [Fields.resolve]
      exact Inner.bind (p.resolveLabel_inner env) fun _ => rfl

theorem Part.resolveLabel_inner (env : Environment) : (p : Part) -> Inner (p.resolveLabel env)
  | .field l _ | .fieldPattern l _ | .case l _ _ | .branch l _ | .labelled l _ =>
      l.resolve_inner env
  | .stray _ => rfl

end

theorem Value.toSymbol_inner (v : Value) : Inner v.toSymbol := by
  cases v with
  | symbol s => trivial
  | _ => rfl

theorem Value.resolveSymbol_inner (env : Environment) (v : Value) :
    Inner (v.resolveSymbol env) :=
  Inner.bind (v.resolve_inner env) Value.toSymbol_inner

theorem Value.resolvePointer_inner (env : Environment) (v : Value) :
    Inner (v.resolvePointer env) := by
  apply Inner.bind (v.resolve_inner env)
  intro w
  cases w with
  | pointer s => trivial
  | _ => rfl

theorem Part.field_inner (p : Part) (label : Value) {rest : Except Failure Value}
    (hrest : Inner rest) :
    Inner (do if (<- Failure.ofLack p.label) = label then Failure.ofLack p.value else rest) := by
  apply Inner.bind (Inner.ofLack _)
  intro l
  split
  · exact Inner.ofLack _
  · exact hrest

theorem Fields.find_inner (label : Value) : (fs : Fields) -> Inner (fs.find label)
  | .nil => rfl
  | .cons l v rest => by
      rw [Fields.find]
      split
      · trivial
      · exact rest.find_inner label
  | .foreign p rest => by
      rw [Fields.find]
      exact p.field_inner label (rest.find_inner label)

theorem Value.field_inner : (v : Value) -> (label : Value) -> Inner (v.field label)
  | .record fs, label => fs.find_inner label
  | .extend base l v, label => by
      rw [Value.field]
      split
      · trivial
      · exact base.field_inner label
  | .extendBy base p, label => by
      rw [Value.field]
      exact p.field_inner label (base.field_inner label)
  | .number _, _ | .symbol _, _ | .pointer _, _ | .process _, _ | .variable _, _
  | .variant _ _, _ | .box _, _ | .operand _, _ | .stray _, _ => rfl

mutual

theorem Pattern.bind_inner :
    (p : Pattern) -> (v : Value) -> (env : Environment) -> Inner (p.bind v env)
  | .ignore, _, _ => trivial
  | .variable x, v, env => by
      rw [Pattern.bind]
      exact Inner.ofLack _
  | .fields ps, v, env => by
      rw [Pattern.bind]
      split
      · exact ps.bind_inner v env
      · rfl
  | .variant l p, v, env => by
      cases v with
      | variant found payload =>
          rw [Pattern.bind]
          apply Inner.bind (l.resolve_inner env)
          intro expected
          split
          · exact p.bind_inner payload env
          · rfl
      | _ => rfl
  | .variantBy part, v, env => by
      cases v with
      | variant found payload =>
          rw [Pattern.bind]
          apply Inner.bind (part.resolveLabel_inner env)
          intro expected
          split
          · exact part.bind_inner payload env
          · rfl
      | _ => rfl
  | .stray _, _, _ => rfl

theorem FieldPatterns.bind_inner :
    (ps : FieldPatterns) -> (v : Value) -> (env : Environment) -> Inner (ps.bind v env)
  | .nil, _, _ => trivial
  | .cons l p rest, v, env => by
      rw [FieldPatterns.bind]
      apply Inner.bind (l.resolve_inner env)
      intro label
      apply Inner.bind (v.field_inner label)
      intro part
      apply Inner.bind (p.bind_inner part env)
      intro env'
      exact rest.bind_inner v env'
  | .foreign p rest, v, env => by
      rw [FieldPatterns.bind]
      apply Inner.bind (p.resolveLabel_inner env)
      intro label
      apply Inner.bind (Inner.ofLack _)
      intro _
      apply Inner.bind (v.field_inner label)
      intro part
      apply Inner.bind (p.bind_inner part env)
      intro env'
      exact rest.bind_inner v env'

theorem Part.bind_inner :
    (p : Part) -> (v : Value) -> (env : Environment) -> Inner (p.bind v env)
  | .fieldPattern _ q, v, env | .case _ q _, v, env => q.bind_inner v env
  | .field _ _, _, _ | .branch _ _, _, _ | .labelled _ _, _, _ | .stray _, _, _ => rfl

end

theorem Cases.select_inner (env : Environment) (s : Symbol) (cs : Cases) :
    Inner (cs.select env s) := by
  cases cs with
  | nil => rfl
  | cons l p e rest =>
      rw [Cases.select]
      apply Inner.bind (l.resolveSymbol_inner env)
      intro label
      split
      · trivial
      · exact rest.select_inner env s
  | foreign p rest =>
      rw [Cases.select]
      apply Inner.bind (p.resolveLabel_inner env)
      intro v
      apply Inner.bind v.toSymbol_inner
      intro label
      split
      · trivial
      · exact rest.select_inner env s

theorem Branches.select_inner (env : Environment) (s : Symbol) (bs : Branches) :
    Inner (bs.select env s) := by
  cases bs with
  | nil => rfl
  | cons l e rest =>
      rw [Branches.select]
      apply Inner.bind (l.resolveSymbol_inner env)
      intro label
      split
      · trivial
      · exact rest.select_inner env s
  | foreign p rest =>
      rw [Branches.select]
      apply Inner.bind (p.resolveLabel_inner env)
      intro v
      apply Inner.bind v.toSymbol_inner
      intro label
      split
      · trivial
      · exact rest.select_inner env s

theorem Computation.head_inner (e : Computation) : Inner e.head := by
  cases e with
  | switch v cs => exact Inner.bind (Inner.ofLack _) fun _ => trivial
  | branches bs => exact Inner.bind (Inner.ofLack _) fun _ => trivial
  | stray o => rfl
  | _ => trivial

/-!
## Quiet steps
-/

def Outcome.isInner : Outcome -> Bool
  | .moved | .signal (.halt _) => true
  | .failed f => f.isInner
  | .signal _ => false

/-- A process remembers no link beyond those of a given history. -/
def Running.Recalls (r : Running) (past : List Trace) : Prop :=
  ∀ t v, .link t v ∈ r.history -> .link t v ∈ past

/-- A process remembers a given history, and nothing after it but returns. -/
def Running.Follows (r : Running) (past : List Trace) : Prop :=
  ∃ returns : List Value, r.history = past ++ returns.map Trace.ret

structure Quiet (store : Store) (past : List Trace) (a : Attempt) : Prop where
  store : a.store = store
  outcome : a.outcome.isInner
  links : a.running.Recalls past
  /-- A step that fails in a frame forgets what the frame had saved; no other step does. -/
  history : (∀ f, a.outcome ≠ .failed f) -> a.running.Follows past
  stack : ∀ v, a.outcome = .signal (.halt v) -> a.running.stack = []

namespace Running

variable {r : Running} {past : List Trace} {frame : Frame} {rest : Stack}

theorem follows_self (r : Running) : r.Follows r.history :=
  ⟨[], (List.append_nil _).symm⟩

theorem Follows.of_history_eq {r' : Running} (hr : r.Follows past)
    (h : r'.history = r.history) : r'.Follows past := by
  rcases hr with ⟨returns, hr⟩
  exact ⟨returns, h.trans hr⟩

theorem Follows.recordReturn (hr : r.Follows past) (v : Value) :
    (r.recordReturn v).Follows past := by
  unfold Running.recordReturn
  split
  · rcases hr with ⟨returns, hr⟩
    refine ⟨returns ++ [v], ?_⟩
    rw [history_record, hr, List.map_append, List.append_assoc]
    rfl
  · exact hr

theorem Follows.recalls (hr : r.Follows past) : r.Recalls past := by
  intro t v hlink
  rcases hr with ⟨returns, hr⟩
  rw [hr] at hlink
  rcases List.mem_append.mp hlink with hold | hnew
  · exact hold
  · rcases List.mem_map.mp hnew with ⟨w, _hw, hret⟩
    cases hret

theorem Recalls.pop (hr : r.Recalls past) (hstack : r.stack = frame :: rest) :
    Running.Recalls { r with stack := rest } past := by
  intro t v hlink
  exact hr t v (mem_history_of_pop hstack hlink)

theorem Recalls.record {entry : Trace} (hr : r.Recalls past)
    (hentry : ∀ t v, .link t v ∉ entry.flat) : (r.record entry).Recalls past := by
  intro t v hlink
  rw [history_record] at hlink
  rcases List.mem_append.mp hlink with hold | hnew
  · exact hr t v hold
  · exact absurd hnew (hentry t v)

end Running

namespace Quiet

variable {store : Store} {past : List Trace} {r : Running}

theorem moved (hr : r.Follows past) : Quiet store past (.moved store r) where
  store := rfl
  outcome := rfl
  links := hr.recalls
  history _ := hr
  stack := by
    intro v h
    cases h

theorem failed {f : Failure} (hr : r.Recalls past) (hf : f.isInner) :
    Quiet store past ⟨.failed f, store, r⟩ where
  store := rfl
  outcome := hf
  links := hr
  history h := absurd rfl (h f)
  stack := by
    intro v h
    cases h

theorem proceed {α : Type} {result : Except Failure α} {next : α -> Attempt}
    (hr : r.Recalls past) (hresult : Inner result) (hnext : ∀ a, Quiet store past (next a)) :
    Quiet store past (Attempt.proceed store r result next) :=
  Attempt.proceed_of_meets hresult (fun _ hf => failed hr hf) fun a _ => hnext a

theorem ask {α : Type} {part : Except Lack α} {next : α -> Attempt} (hr : r.Recalls past)
    (hnext : ∀ a, Quiet store past (next a)) :
    Quiet store past (Attempt.ask store r part next) :=
  proceed hr (Inner.ofLack part) hnext

theorem deliver (hr : r.Follows past) (v : Value) : Quiet store past (r.deliver store v) := by
  unfold Running.deliver
  split
  next hstack => exact ⟨rfl, rfl, hr.recalls, fun _ => hr, fun _ _ => hstack⟩
  next frame rest hstack =>
    have hpop := hr.recalls.pop hstack
    have hjoined := hr.of_history_eq (Running.history_rejoin hstack)
    apply ask hpop
    intro context
    cases context with
    | nest s => exact moved (hr.of_history_eq (Running.history_leave hstack s))
    | bind env p body => exact proceed hpop (p.bind_inner v env) fun _ => moved hjoined
    | bindBox env p body =>
        dsimp only
        split
        · exact ask hpop fun _ => moved hjoined
        · exact moved hjoined
        · exact failed hpop rfl
    | argument w | label w => exact failed hpop rfl
    | stray o => exact failed hpop rfl

theorem enter (hr : r.Follows past) (p : Pattern) (body : Computation) :
    Quiet store past (r.enter store p body) := by
  unfold Running.enter
  split
  next hstack => exact failed hr.recalls rfl
  next frame rest hstack =>
    have hpop := hr.recalls.pop hstack
    have hjoined := hr.of_history_eq (Running.history_rejoin hstack)
    apply ask hpop
    intro context
    cases context with
    | argument v => exact proceed hpop (p.bind_inner v r.env) fun _ => moved hjoined
    | _ => exact failed hpop rfl

theorem choose (hr : r.Follows past) (bs : Branches) :
    Quiet store past (r.choose store bs) := by
  unfold Running.choose
  split
  next hstack => exact failed hr.recalls rfl
  next frame rest hstack =>
    have hpop := hr.recalls.pop hstack
    have hjoined := hr.of_history_eq (Running.history_rejoin hstack)
    apply ask hpop
    intro context
    cases context with
    | label v =>
        apply proceed hpop v.toSymbol_inner
        intro s
        apply proceed hpop (bs.select_inner r.env s)
        intro part
        exact ask hjoined.recalls fun _ => moved hjoined
    | _ => exact failed hpop rfl

theorem extract (hr : r.Follows past) (v : Value) :
    Quiet store past (r.reduce store (.extract v)) := by
  cases v with
  | «variable» x =>
      apply ask hr.recalls
      intro boxes
      cases boxes.get? x with
      | none => exact failed hr.recalls rfl
      | some b => exact ask hr.recalls fun _ => moved hr
  | _ => exact failed hr.recalls rfl

theorem switch (hr : r.Follows past) (v : Value) (cs : Cases) :
    Quiet store past (r.reduce store (.switch v cs)) := by
  apply proceed hr.recalls (v.resolve_inner r.env)
  intro w
  cases w with
  | variant l payload =>
      apply proceed hr.recalls l.toSymbol_inner
      intro s
      apply proceed hr.recalls (cs.select_inner r.env s)
      intro part
      apply proceed hr.recalls (part.bind_inner payload r.env)
      intro env
      exact ask hr.recalls fun _ => moved hr
  | _ => exact failed hr.recalls rfl

theorem assert (hr : r.Follows past) (a b : Value) (equal : Bool) :
    Quiet store past (r.reduce store (.assert a equal b)) := by
  apply proceed hr.recalls (a.resolve_inner r.env)
  intro a'
  apply proceed hr.recalls (b.resolve_inner r.env)
  intro b'
  split
  · exact ask hr.recalls fun _ => moved (hr.recordReturn .unit)
  · exact failed hr.recalls rfl

theorem ret (hr : r.Follows past) (v : Value) :
    Quiet store past (r.reduce store (.ret v)) := by
  apply proceed hr.recalls (v.resolve_inner r.env)
  intro w
  apply ask hr.recalls
  intro _
  have hmarked : ((r.recordReturn w).returning w).Follows past := hr.recordReturn w
  exact deliver hmarked w

end Quiet

/-!
## All steps
-/

inductive Effect (store : Store) (r : Running) : Attempt -> Prop where
  | quiet {a : Attempt} (h : Quiet store r.history a) : Effect store r a
  | put {n v w : Value} {s : Symbol} (hcontrol : r.control = .put n v)
      (hn : n.resolveSymbol r.env = .ok s) (hv : v.resolve r.env = .ok w) :
      Effect store r (.moved (store.insert (r.stack.qualify s) w)
        ((r.record (.put (r.stack.qualify s) w)).returning (.pointer (r.stack.qualify s))))
  | get {v stored : Value} {s : Symbol} (hcontrol : r.control = .get v)
      (hv : v.resolvePointer r.env = .ok s) (hstored : store.get? s = some stored) :
      Effect store r (.moved store ((r.record (.get s stored)).returning stored))
  | miss {v : Value} {s : Symbol} (hcontrol : r.control = .get v)
      (hv : v.resolvePointer r.env = .ok s) (hmissing : store.get? s = none) :
      Effect store r (.fault store r (.undefinedEntry s))
  | link {v : Value} {s : Symbol} (hcontrol : r.control = .link v)
      (hv : v.resolve r.env = .ok (.symbol s)) (hstored : store.contains s) :
      Effect store r
        (.moved store ((r.record (.link (.symbol s) (.pointer s))).returning (.pointer s)))
  | awaitEntry {v : Value} {s : Symbol} (hcontrol : r.control = .link v)
      (hv : v.resolve r.env = .ok (.symbol s)) (hmissing : store.contains s = false) :
      Effect store r ⟨.signal (.awaitEntry s), store, { r with control := .link (.symbol s) }⟩
  | awaitHalt {v : Value} {s : Symbol} (hcontrol : r.control = .link v)
      (hv : v.resolve r.env = .ok (.process s)) :
      Effect store r ⟨.signal (.awaitHalt s), store, r⟩
  | collide {v : Value} {body : Computation} {s : Symbol} (hcontrol : r.control = .spawn v body)
      (hv : v.resolveSymbol r.env = .ok s) (hstored : store.contains (r.stack.qualify s)) :
      Effect store r (.fault store { r with control := .spawn v .hole }
        (.duplicateName (r.stack.qualify s)))
  | spawn {v : Value} {body : Computation} {s : Symbol} (hcontrol : r.control = .spawn v body)
      (hv : v.resolveSymbol r.env = .ok s)
      (hfree : store.contains (r.stack.qualify s) = false) :
      Effect store r ⟨.signal (.spawn (r.stack.qualify s) r.env body), store,
        r.returning (.process (r.stack.qualify s))⟩

theorem Symbol.eq_of_asKey {s key : Symbol} (h : s.asKey = .ok key) : key = s := by
  unfold Symbol.asKey at h
  split at h
  · cases h
    rfl
  · cases h

namespace Effect

variable {store : Store} {r r' : Running}

theorem proceed {α : Type} {result : Except Failure α} {next : α -> Attempt}
    (hr : r'.Recalls r.history) (hresult : Inner result)
    (hnext : ∀ a, result = .ok a -> Effect store r (next a)) :
    Effect store r (Attempt.proceed store r' result next) := by
  cases result with
  | ok a => exact hnext a rfl
  | error f => exact .quiet (Quiet.failed hr hresult)

theorem seek {s : Symbol} {next : Symbol -> Attempt} (hr : r'.Recalls r.history)
    (hnext : Effect store r (next s)) : Effect store r (Attempt.seek store r' s next) := by
  apply proceed hr (Inner.ofBreakage s.asKey)
  intro key hkey
  cases hasKey : s.asKey with
  | error b =>
      rw [hasKey] at hkey
      cases hkey
  | ok key' =>
      rw [hasKey] at hkey
      cases hkey
      rw [Symbol.eq_of_asKey hasKey]
      exact hnext

theorem reduce_put {n v : Value} (hcontrol : r.control = .put n v) :
    Effect store r (r.reduce store (.put n v)) := by
  have hr : r.Recalls r.history := fun _ _ h => h
  apply proceed hr (n.resolveSymbol_inner r.env)
  intro s hs
  apply proceed hr (v.resolve_inner r.env)
  intro w hw
  apply proceed hr (Inner.ofLack _)
  intro _ _
  have hrecord : (r.record (.put (r.stack.qualify s) w)).Recalls r.history := by
    apply hr.record
    intro t u hlink
    simp [Trace.flat] at hlink
  exact seek hrecord (.put hcontrol hs hw)

theorem reduce_get {v : Value} (hcontrol : r.control = .get v) :
    Effect store r (r.reduce store (.get v)) := by
  have hr : r.Recalls r.history := fun _ _ h => h
  apply proceed hr (v.resolvePointer_inner r.env)
  intro s hs
  apply seek hr
  cases hget : store.get? s with
  | none => exact .miss hcontrol hs hget
  | some stored => exact .get hcontrol hs hget

theorem reduce_link {v : Value} (hcontrol : r.control = .link v) :
    Effect store r (r.reduce store (.link v)) := by
  have hr : r.Recalls r.history := fun _ _ h => h
  apply proceed hr (v.resolve_inner r.env)
  intro w hw
  cases w with
  | symbol s =>
      apply seek hr
      split
      next hstored => exact .link hcontrol hw hstored
      next hmissing => exact .awaitEntry hcontrol hw (Bool.eq_false_iff.mpr hmissing)
  | process s => exact .awaitHalt hcontrol hw
  | _ => exact .quiet (Quiet.failed hr rfl)

theorem reduce_spawn {v : Value} {body : Computation} (hcontrol : r.control = .spawn v body) :
    Effect store r (Running.reduce store { r with control := .spawn v .hole }
      (.spawn v body)) := by
  have hr : Running.Recalls { r with control := .spawn v .hole } r.history := fun _ _ h => h
  apply proceed hr (v.resolveSymbol_inner r.env)
  intro s hs
  apply proceed hr (Inner.ofLack _)
  intro _ _
  apply seek hr
  split
  next hstored => exact .collide hcontrol hs hstored
  next hfree => exact .spawn hcontrol hs (Bool.eq_false_iff.mpr hfree)

end Effect

/-- Every step has an effect of the list. -/
theorem Running.step_effect (store : Store) (r : Running) : Effect store r (r.step store) := by
  apply Effect.proceed r.follows_self.recalls r.control.head_inner
  intro head hhead
  have hposed : Running.Follows { r with control := head } r.history := r.follows_self
  -- A put, a get and a link are their own heads, so the process is the one that steps.
  have hself (h : r.control.head = .ok r.control) : { r with control := head } = r := by
    rw [h] at hhead
    rw [← Except.ok.inj hhead]
  cases hcontrol : r.control with
  | put n v =>
      rw [hself (by rw [hcontrol]; rfl)]
      exact Effect.reduce_put hcontrol
  | get v =>
      rw [hself (by rw [hcontrol]; rfl)]
      exact Effect.reduce_get hcontrol
  | link v =>
      rw [hself (by rw [hcontrol]; rfl)]
      exact Effect.reduce_link hcontrol
  | spawn v body =>
      rw [hcontrol] at hhead
      cases hhead
      exact Effect.reduce_spawn hcontrol
  | ret v => exact .quiet (Quiet.ret hposed v)
  | returned v => exact .quiet (Quiet.deliver hposed v)
  | nest v body =>
      have hpush (s : Symbol) := hposed.of_history_eq (history_push _ (.nest s) body)
      exact .quiet (Quiet.proceed hposed.recalls (v.resolveSymbol_inner _)
        fun s => Quiet.moved (hpush s))
  | bind p e₁ e₂ =>
      exact .quiet (Quiet.moved (hposed.of_history_eq (history_push _ _ e₁)))
  | bindBox p e₁ e₂ =>
      have hpush := hposed.of_history_eq (history_push _ (.bindBox r.env p e₂) e₁)
      cases p with
      | «variable» x | ignore => exact .quiet (Quiet.moved hpush)
      | _ => exact .quiet (Quiet.failed hposed.recalls rfl)
  | apply e v =>
      have hpush (w : Value) := hposed.of_history_eq (history_push _ (.argument w) e)
      exact .quiet (Quiet.proceed hposed.recalls (v.resolve_inner _) fun w => Quiet.moved (hpush w))
  | project e v =>
      have hpush (w : Value) := hposed.of_history_eq (history_push _ (.label w) e)
      exact .quiet (Quiet.proceed hposed.recalls (v.resolve_inner _) fun w => Quiet.moved (hpush w))
  | extract v => exact .quiet (Quiet.extract hposed v)
  | lambda p body => exact .quiet (Quiet.enter hposed p body)
  | branches bs => exact .quiet (Quiet.choose hposed bs)
  | switch v cs => exact .quiet (Quiet.switch hposed v cs)
  | assert a equal b => exact .quiet (Quiet.assert hposed a b equal)
  | hole => exact .quiet (Quiet.failed hposed.recalls rfl)
  | stray o => exact .quiet (Quiet.failed hposed.recalls rfl)

/-!
## What an effect says
-/

namespace Effect

variable {store : Store} {r : Running} {a : Attempt}

theorem contains_store {key : Symbol} (ha : Effect store r a) (h : store.contains key) :
    a.store.contains key := by
  cases ha with
  | quiet hquiet =>
      rw [hquiet.store]
      exact h
  | put => exact Table.contains_insert_of_contains _ _ h
  | _ => exact h

/-- A step fails for a reason outside of its process only at a `get` whose entry is missing and at
a spawn whose name the store has. -/
theorem cases_of_fault {f : Fault} (ha : Effect store r a) (h : a.outcome = .failed (.fault f)) :
    (Failure.fault f).isInner ∨
      (∃ v s, r.control = .get v ∧ v.resolvePointer r.env = .ok s ∧ store.get? s = none ∧
        f = .undefinedEntry s) ∨
      ∃ s, f = .duplicateName s := by
  cases ha with
  | quiet hquiet =>
      have hinner := hquiet.outcome
      rw [h] at hinner
      exact .inl hinner
  | miss hcontrol hv hmissing =>
      cases h
      exact .inr (.inl ⟨_, _, hcontrol, hv, hmissing, rfl⟩)
  | collide =>
      cases h
      exact .inr (.inr ⟨_, rfl⟩)
  | _ => cases h

theorem stack_of_halt {v : Value} (ha : Effect store r a) (h : a.outcome = .signal (.halt v)) :
    a.running.stack = [] := by
  cases ha with
  | quiet hquiet => exact hquiet.stack v h
  | _ => cases h

theorem link_of_awaitEntry {s : Symbol} (ha : Effect store r a)
    (h : a.outcome = .signal (.awaitEntry s)) :
    a.running.control = .link (.symbol s) ∧ store.contains s = false := by
  cases ha with
  | quiet hquiet =>
      have hinner := hquiet.outcome
      rw [h] at hinner
      cases hinner
  | awaitEntry _ _ hmissing =>
      cases h
      exact ⟨rfl, hmissing⟩
  | _ => cases h

theorem link_of_awaitHalt {s : Symbol} (ha : Effect store r a)
    (h : a.outcome = .signal (.awaitHalt s)) :
    ∃ u, a.running.control = .link u ∧ u.resolve a.running.env = .ok (.process s) := by
  cases ha with
  | quiet hquiet =>
      have hinner := hquiet.outcome
      rw [h] at hinner
      cases hinner
  | awaitHalt hcontrol hv =>
      cases h
      exact ⟨_, hcontrol, hv⟩
  | _ => cases h

end Effect

end PushValue
