import PushValue.Proofs.Reduction

/-!
# What a step sees of the stack

A step looks at the innermost frame of the stack and takes off no other one.  Of the frames below
it sees only the nests, which qualify the names of entries and of processes.  So it does the same
upon every stack with the same nests, and leaves that stack as it was.
-/

namespace PushValue

namespace Stack

/-- The names of the nests of a stack, the innermost first.  Every frame is asked for its
context. -/
def nests : Stack -> Except Lack (List Symbol)
  | [] => .ok []
  | f :: rest => do
      let context <- f.context
      let names <- nests rest
      match context with
      | .nest n => return n :: names
      | _ => return names

theorem check_append (upper below : Stack) :
    (upper ++ below).check = (upper.check >>= fun _ => below.check) := by
  induction upper with
  | nil => rfl
  | cons f rest ih =>
      rw [List.cons_append, check, check]
      cases f.context with
      | error l => rfl
      | ok context => exact ih

theorem qualify_append (upper below : Stack) (s : Symbol) :
    (upper ++ below).qualify s = below.qualify (upper.qualify s) := by
  induction upper generalizing s with
  | nil => rfl
  | cons f rest ih =>
      rw [List.cons_append, qualify, qualify]
      split
      · exact ih _
      · exact ih s

theorem check_eq (stack : Stack) : stack.check = (stack.nests >>= fun _ => .ok ()) := by
  induction stack with
  | nil => rfl
  | cons f rest ih =>
      rw [check, nests]
      cases f.context with
      | error l => rfl
      | ok context =>
          show check rest = _
          rw [ih]
          cases nests rest with
          | error l => rfl
          | ok names => cases context <;> rfl

theorem qualify_eq {stack : Stack} {names : List Symbol} (h : stack.nests = .ok names)
    (s : Symbol) :
    stack.qualify s = names.foldl (fun inner outer => .within outer inner) s := by
  induction stack generalizing names s with
  | nil =>
      cases h
      rfl
  | cons f rest ih =>
      rw [nests] at h
      rw [qualify]
      cases hcontext : f.context with
      | error l =>
          rw [hcontext] at h
          cases h
      | ok context =>
          rw [hcontext] at h
          cases hrest : nests rest with
          | error l =>
              rw [hrest] at h
              cases h
          | ok names' =>
              rw [hrest] at h
              cases context <;> cases h <;> exact ih hrest _

/-- Stacks with the same nests are refused alike and qualify symbols alike, whatever lies upon
them. -/
theorem alike_of_nests {below below' : Stack} (h : below.nests = below'.nests) (upper : Stack) :
    (upper ++ below).check = (upper ++ below').check ∧
      ((upper ++ below).check = .ok () ->
        ∀ s, (upper ++ below).qualify s = (upper ++ below').qualify s) := by
  have hcheck : (upper ++ below).check = (upper ++ below').check := by
    rw [check_append, check_append, check_eq below, check_eq below', h]
  refine ⟨hcheck, fun hok s => ?_⟩
  rw [check_append, check_eq below] at hok
  cases hnests : below.nests with
  | error l =>
      rw [hnests] at hok
      cases hupper : upper.check <;> rw [hupper] at hok <;> cases hok
  | ok names =>
      have hnests' : below'.nests = .ok names := h ▸ hnests
      rw [qualify_append, qualify_append, qualify_eq hnests, qualify_eq hnests']

end Stack

def Running.upon (below : Stack) (r : Running) : Running := { r with stack := r.stack ++ below }

def Attempt.upon (below : Stack) (a : Attempt) : Attempt :=
  { a with running := a.running.upon below }

theorem Attempt.proceed_upon {α : Type} {store : Store} (r : Running) {below : Stack}
    {result : Except Failure α} {next next' : α -> Attempt}
    (hnext : ∀ a, next' a = (next a).upon below) :
    proceed store (r.upon below) result next' = (proceed store r result next).upon below := by
  cases result with
  | ok a => exact hnext a
  | error f => rfl

/-- Whether a computation has its name qualified by the nests around it. -/
def Computation.qualifies : Computation -> Bool
  | .put _ _ | .spawn _ _ => true
  | _ => false

namespace Running

open Attempt

variable {store : Store} {r : Running}

/-!
## Steps that do not qualify a name

They are the same upon every stack, as long as there is a frame upon it.
-/

theorem deliver_upon (hstack : r.stack ≠ []) (below : Stack) (v : Value) :
    (r.upon below).deliver store v = (r.deliver store v).upon below := by
  rcases r with ⟨control, env, stack, trace⟩
  cases stack with
  | nil => exact absurd rfl hstack
  | cons frame rest =>
      let left : Running := ⟨control, env, rest, trace⟩
      refine proceed_upon left fun context => ?_
      cases context with
      | bind env' p body => exact proceed_upon left fun _ => rfl
      | bindBox env' p body =>
          dsimp only
          split
          · exact proceed_upon left fun _ => rfl
          · rfl
          · rfl
      | nest s | argument w | label w | stray o => rfl

theorem enter_upon (hstack : r.stack ≠ []) (below : Stack) (p : Pattern) (body : Computation) :
    (r.upon below).enter store p body = (r.enter store p body).upon below := by
  rcases r with ⟨control, env, stack, trace⟩
  cases stack with
  | nil => exact absurd rfl hstack
  | cons frame rest =>
      let left : Running := ⟨control, env, rest, trace⟩
      refine proceed_upon left fun context => ?_
      cases context with
      | argument v => exact proceed_upon left fun _ => rfl
      | _ => rfl

theorem choose_upon (hstack : r.stack ≠ []) (below : Stack) (bs : Branches) :
    (r.upon below).choose store bs = (r.choose store bs).upon below := by
  rcases r with ⟨control, env, stack, trace⟩
  cases stack with
  | nil => exact absurd rfl hstack
  | cons frame rest =>
      let left : Running := ⟨control, env, rest, trace⟩
      refine proceed_upon left fun context => ?_
      cases context with
      | label v =>
          refine proceed_upon left fun s => proceed_upon left fun part => ?_
          exact proceed_upon (left.rejoin frame) fun _ => rfl
      | _ => rfl

theorem recordsReturn_upon (hstack : r.stack ≠ []) (below : Stack) :
    (r.upon below).stack.recordsReturn = r.stack.recordsReturn ∧
      (r.upon below).stack.checkTop = r.stack.checkTop := by
  rcases r with ⟨control, env, stack, trace⟩
  cases stack with
  | nil => exact absurd rfl hstack
  | cons frame rest => exact ⟨rfl, rfl⟩

theorem recordReturn_upon (hstack : r.stack ≠ []) (below : Stack) (v : Value) :
    (r.upon below).recordReturn v = (r.recordReturn v).upon below := by
  unfold recordReturn
  rw [(recordsReturn_upon hstack below).1]
  split
  · rfl
  · rfl

theorem reduce_upon (hstack : r.stack ≠ []) (below : Stack) {e : Computation}
    (he : e.qualifies = false) :
    (r.upon below).reduce store e = (r.reduce store e).upon below := by
  have htop := (recordsReturn_upon hstack below).2
  cases e with
  | ret v =>
      refine proceed_upon r fun w => ?_
      show ask store (r.upon below) (r.upon below).stack.checkTop _ = _
      rw [htop]
      refine proceed_upon r fun _ => ?_
      rw [recordReturn_upon hstack]
      have hreturning : ((r.recordReturn w).returning w).stack ≠ [] := by
        rw [returning, recordReturn_stack]
        exact hstack
      exact deliver_upon hreturning below w
  | returned v => exact deliver_upon hstack below v
  | nest v body => exact proceed_upon r fun s => rfl
  | bind p e₁ e₂ => rfl
  | bindBox p e₁ e₂ => cases p <;> rfl
  | extract v =>
      cases v with
      | «variable» x =>
          refine proceed_upon r fun boxes => ?_
          dsimp only
          cases boxes.get? x with
          | none => rfl
          | some b => exact proceed_upon r fun unpacked => rfl
      | _ => rfl
  | lambda p body => exact enter_upon hstack below p body
  | branches bs => exact choose_upon hstack below bs
  | apply e v | project e v => exact proceed_upon r fun w => rfl
  | get v =>
      refine proceed_upon r fun s => proceed_upon r fun s => ?_
      cases store.get? s with
      | none => rfl
      | some stored => rfl
  | switch v cs =>
      refine proceed_upon r fun w => ?_
      cases w with
      | variant l payload =>
          refine proceed_upon r fun s => proceed_upon r fun part => proceed_upon r fun env => ?_
          exact proceed_upon { r with env } fun body => rfl
      | _ => rfl
  | link v =>
      refine proceed_upon r fun w => ?_
      cases w with
      | symbol s =>
          refine proceed_upon r fun s => ?_
          split
          · rfl
          · rfl
      | _ => rfl
  | assert a equal b =>
      refine proceed_upon r fun a' => proceed_upon r fun b' => ?_
      split
      · rw [htop, recordReturn_upon hstack]
        exact proceed_upon r fun _ => rfl
      · rfl
  | hole | stray o => rfl
  | put n v | spawn v body => cases he

end Running

/-!
## Steps that qualify a name
-/

/-- Two steps come to the same, each upon a stack of its own. -/
def Attempt.Alike (below below' : Stack) (a a' : Attempt) : Prop :=
  ∃ common : Attempt, a = common.upon below ∧ a' = common.upon below'

namespace Attempt.Alike

variable {store : Store} {below below' : Stack}

theorem proceed {α : Type} (r : Running) {result : Except Failure α} {next next' : α -> Attempt}
    (hnext : ∀ a, Alike below below' (next a) (next' a)) :
    Alike below below' (.proceed store (r.upon below) result next)
      (.proceed store (r.upon below') result next') := by
  cases result with
  | ok a => exact hnext a
  | error f => exact ⟨⟨.failed f, store, r⟩, rfl, rfl⟩

theorem qualified (hnests : below.nests = below'.nests) (r : Running) (s : Symbol)
    {next next' : Attempt}
    (hnext : (r.upon below).stack.qualify s = (r.upon below').stack.qualify s ->
      Alike below below' next next') :
    Alike below below' (.ask store (r.upon below) (r.upon below).stack.check fun _ => next)
      (.ask store (r.upon below') (r.upon below').stack.check fun _ => next') := by
  rcases Stack.alike_of_nests hnests r.stack with ⟨hcheck, hqualify⟩
  simp only [Running.upon, ← hcheck]
  cases hall : (r.stack ++ below).check with
  | error l => exact ⟨⟨.failed (.breakage (.lacks l)), store, r⟩, rfl, rfl⟩
  | ok _ => exact hnext (hqualify hall s)

end Attempt.Alike

namespace Running

open Attempt

variable {store : Store} {below below' : Stack}

theorem reduce_alike (hnests : below.nests = below'.nests) {r : Running} (hstack : r.stack ≠ [])
    (e : Computation) :
    Alike below below' ((r.upon below).reduce store e) ((r.upon below').reduce store e) := by
  cases e with
  | put n v =>
      refine .proceed r fun s => .proceed r fun w => .qualified hnests r s fun hname => ?_
      rw [hname]
      let noted : Running := r.record (.put ((r.upon below').stack.qualify s) w)
      refine .proceed noted fun key => ?_
      exact ⟨.moved (store.insert key w) (noted.returning (.pointer key)), rfl, rfl⟩
  | spawn v body =>
      refine .proceed r fun s => .qualified hnests r s fun hname => ?_
      rw [hname]
      refine .proceed r fun key => ?_
      split
      · exact ⟨.fault store r _, rfl, rfl⟩
      · exact ⟨⟨_, store, r.returning (.process key)⟩, rfl, rfl⟩
  | _ => exact ⟨_, reduce_upon hstack below rfl, reduce_upon hstack below' rfl⟩

/-- With a frame on top, a step comes to the same upon any two stacks with the same nests: it has
the same outcome, leaves the same store, computation, environment and trace, and makes the same
change to the frames on top, while the stack below stays as it was. -/
theorem step_local (store : Store) (control : Computation) (env : Environment)
    (trace : List Trace) (upper : Stack) (hupper : upper ≠ []) (below below' : Stack)
    (hnests : below.nests = below'.nests) :
    ∃ (outcome : Outcome) (left : Store) (next : Computation) (scope : Environment)
      (frames : Stack) (entries : List Trace),
      Running.step store ⟨control, env, upper ++ below, trace⟩ =
        ⟨outcome, left, ⟨next, scope, frames ++ below, entries⟩⟩ ∧
      Running.step store ⟨control, env, upper ++ below', trace⟩ =
        ⟨outcome, left, ⟨next, scope, frames ++ below', entries⟩⟩ := by
  let r : Running := ⟨control, env, upper, trace⟩
  have halike : Alike below below' ((r.upon below).step store) ((r.upon below').step store) :=
    .proceed r fun head => reduce_alike hnests (r := { r with control := head }) hupper control
  rcases halike with ⟨⟨outcome, left, next, scope, frames, entries⟩, hleft, hright⟩
  exact ⟨outcome, left, next, scope, frames, entries, hleft, hright⟩

def argumentInNest : Stack := [.mk (.argument (.number 5)) [], .mk (.nest (.name "n")) []]

def nestOverLabel : Stack :=
  [.mk (.nest (.name "n")) [.put (.name "b") (.number 2)], .mk (.label (.symbol (.name "l"))) []]

def bindFrame : Stack := [.mk (.bind .empty (.variable "x") (.ret (.variable "x"))) []]

theorem bindFrame_local :
    bindFrame ≠ [] ∧ argumentInNest.nests = nestOverLabel.nests ∧
      (∃ outcome left next scope frames entries,
        Running.step {}
            ⟨.put (.symbol (.name "a")) (.number 1), .empty, bindFrame ++ argumentInNest, []⟩ =
          ⟨outcome, left, ⟨next, scope, frames ++ argumentInNest, entries⟩⟩ ∧
        Running.step {}
            ⟨.put (.symbol (.name "a")) (.number 1), .empty, bindFrame ++ nestOverLabel, []⟩ =
          ⟨outcome, left, ⟨next, scope, frames ++ nestOverLabel, entries⟩⟩ ∧
        left.get? (.within (.name "n") (.name "a")) = some (.number 1)) := by
  have hframe : bindFrame ≠ [] := List.cons_ne_nil _ _
  rcases step_local {} (.put (.symbol (.name "a")) (.number 1)) .empty [] bindFrame hframe
    argumentInNest nestOverLabel rfl with
    ⟨outcome, left, next, scope, frames, entries, hargument, hlabel⟩
  have hstore : _ = left := congrArg Attempt.store hargument
  refine ⟨hframe, rfl, outcome, left, next, scope, frames, entries, hargument, hlabel, ?_⟩
  rw [← hstore]
  rfl

end Running

end PushValue
