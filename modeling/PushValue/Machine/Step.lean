import PushValue.Machine.Head
import PushValue.Machine.Match
import PushValue.Machine.Running
import PushValue.Symbol.Order

/-!
# Steps of a process

A step performs at most one reduction of a running process.  It moves the
process, raises a signal, or fails; in each case it leaves a store and a process
behind.  A failed process keeps what had happened before the failure: its control
is the head of what it was about to do, and a frame that was already taken off
the stack stays off.
-/

namespace PushValue

abbrev Store := Table Symbol Value

inductive Outcome where
  | moved
  | signal (s : Signal)
  | failed (f : Failure)
deriving DecidableEq

/-- A step together with the store and the process that it leaves. -/
structure Attempt where
  outcome : Outcome
  store : Store
  running : Running
deriving DecidableEq

namespace Attempt

def moved (store : Store) (r : Running) : Attempt := ⟨.moved, store, r⟩

def fault (store : Store) (r : Running) (f : Fault) : Attempt := ⟨.failed (.fault f), store, r⟩

/-- Goes on with a result, or fails with the store and the process as they stand. -/
def proceed {α : Type} (store : Store) (r : Running) (result : Except Failure α)
    (next : α -> Attempt) : Attempt :=
  match result with
  | .ok a => next a
  | .error f => ⟨.failed f, store, r⟩

/-- Goes on with a part, or breaks where it is missing. -/
def ask {α : Type} (store : Store) (r : Running) (part : Except Lack α)
    (next : α -> Attempt) : Attempt :=
  proceed store r (Failure.ofLack part) next

def seek (store : Store) (r : Running) (s : Symbol) (next : Symbol -> Attempt) : Attempt :=
  proceed store r (Failure.ofBreakage s.asKey) next

@[simp]
theorem proceed_ok {α : Type} (store : Store) (r : Running) (a : α) (next : α -> Attempt) :
    proceed store r (.ok a) next = next a := rfl

@[simp]
theorem proceed_error {α : Type} (store : Store) (r : Running) (f : Failure)
    (next : α -> Attempt) : proceed store r (.error f) next = ⟨.failed f, store, r⟩ := rfl

@[simp]
theorem ask_ok {α : Type} (store : Store) (r : Running) (a : α) (next : α -> Attempt) :
    ask store r (.ok a) next = next a := rfl

@[simp]
theorem seek_of_isProper (store : Store) (r : Running) {s : Symbol} (h : s.isProper)
    (next : Symbol -> Attempt) : seek store r s next = next s := by
  simp [seek, Symbol.asKey_of_isProper h, Failure.ofBreakage]

end Attempt

namespace Running

open Attempt

/-!
## Returning

A returned value is handed to the innermost frame.  Without a frame the process
halts.  A nest wraps up the trace gathered inside it and hands the value on.
-/

def deliver (store : Store) (r : Running) (v : Value) : Attempt :=
  match r.stack with
  | [] => ⟨.signal (.halt v), store, r⟩
  | frame :: rest =>
      let r := { r with stack := rest }
      ask store r frame.context fun
      | .nest s => moved store { r with trace := frame.trace ++ [.nest s r.trace] }
      | .bind env p body =>
          proceed store r (p.bind v env) fun env => moved store (r.resume frame env body)
      | .bindBox env p body =>
          match v, p with
          | .box b, .variable x =>
              ask store r (env.bindBox x b) fun env => moved store (r.resume frame env body)
          | .box _, .ignore => moved store (r.resume frame env body)
          | _, _ => fault store r .noStep
      | .argument _ | .label _ => fault store r .noStep
      | .stray _ => ⟨.failed (.breakage .unknownFrame), store, r⟩

/-!
## Functions and branches

A function takes its argument from the innermost frame, and branches take their
label from it.
-/

def enter (store : Store) (r : Running) (p : Pattern) (body : Computation) : Attempt :=
  match r.stack with
  | [] => fault store r .noStep
  | frame :: rest =>
      let r := { r with stack := rest }
      ask store r frame.context fun
      | .argument v =>
          proceed store r (p.bind v r.env) fun env => moved store (r.resume frame env body)
      | _ => fault store r .noStep

def choose (store : Store) (r : Running) (bs : Branches) : Attempt :=
  match r.stack with
  | [] => fault store r .noStep
  | frame :: rest =>
      let r := { r with stack := rest }
      ask store r frame.context fun
      | .label v =>
          proceed store r v.toSymbol fun s =>
          proceed store r (bs.select r.env s) fun part =>
          let r := r.rejoin frame
          ask store r part.body fun body => moved store { r with control := body }
      | _ => fault store r .noStep

/-!
## Reductions

Each form of computation has one clause.  The process comes with the head of the
computation in place of its control.
-/

def reduce (store : Store) (r : Running) : Computation -> Attempt
  | .ret v =>
      proceed store r (v.resolve r.env) fun v =>
      ask store r r.stack.checkTop fun _ =>
      deliver store ((r.recordReturn v).returning v) v
  | .returned v => deliver store r v
  | .nest v body =>
      proceed store r (v.resolveSymbol r.env) fun s =>
      moved store (r.push (.nest s) body)
  | .spawn v body =>
      proceed store r (v.resolveSymbol r.env) fun s =>
      ask store r r.stack.check fun _ =>
      seek store r (r.stack.qualify s) fun name =>
      if store.contains name then fault store r (.duplicateName name)
      else ⟨.signal (.spawn name r.env body), store, r.returning (.process name)⟩
  | .bind p e₁ e₂ => moved store (r.push (.bind r.env p e₂) e₁)
  | .bindBox p e₁ e₂ =>
      match p with
      | .variable _ | .ignore => moved store (r.push (.bindBox r.env p e₂) e₁)
      | _ => fault store r .noStep
  | .extract v =>
      match v with
      | .variable x =>
          ask store r r.env.boxes fun boxes =>
          match boxes.get? x with
          | some b =>
              ask store r b.unpack fun (code, env) => moved store { r with control := code, env }
          | none => fault store r (.undefinedBox x)
      | _ => fault store r .noStep
  | .lambda p body => enter store r p body
  | .branches bs => choose store r bs
  | .apply e v =>
      proceed store r (v.resolve r.env) fun v =>
      moved store (r.push (.argument v) e)
  | .project e v =>
      proceed store r (v.resolve r.env) fun v =>
      moved store (r.push (.label v) e)
  | .put n v =>
      proceed store r (n.resolveSymbol r.env) fun s =>
      proceed store r (v.resolve r.env) fun v =>
      ask store r r.stack.check fun _ =>
      let name := r.stack.qualify s
      let r := r.record (.put name v)
      seek store r name fun name =>
      moved (store.insert name v) (r.returning (.pointer name))
  | .get v =>
      proceed store r (v.resolvePointer r.env) fun s =>
      seek store r s fun s =>
      match store.get? s with
      | some stored => moved store ((r.record (.get s stored)).returning stored)
      | none => fault store r (.undefinedEntry s)
  | .switch v cs =>
      proceed store r (v.resolve r.env) fun
      | .variant l payload =>
          proceed store r l.toSymbol fun s =>
          proceed store r (cs.select r.env s) fun part =>
          proceed store r (part.bind payload r.env) fun env =>
          let r := { r with env }
          ask store r part.body fun body => moved store { r with control := body }
      | v => fault store r (.switchNotVariant v)
  | .link v =>
      proceed store r (v.resolve r.env) fun
      | .symbol s =>
          seek store r s fun s =>
          if store.contains s then
            moved store ((r.record (.link (.symbol s) (.pointer s))).returning (.pointer s))
          else ⟨.signal (.awaitEntry s), store, { r with control := .link (.symbol s) }⟩
      | .process s => ⟨.signal (.awaitHalt s), store, r⟩
      | v => fault store r (.notLinkTarget v)
  | .assert a equal b =>
      proceed store r (a.resolve r.env) fun a =>
      proceed store r (b.resolve r.env) fun b =>
      if (a == b) = equal then
        ask store r r.stack.checkTop fun _ =>
        moved store ((r.recordReturn .unit).returning .unit)
      else fault store r (.assertionFailed a equal b)
  | .hole => ⟨.failed (.breakage .holeAtHead), store, r⟩
  | .stray _ => ⟨.failed (.breakage .notComputation), store, r⟩

def step (store : Store) (r : Running) : Attempt :=
  proceed store r r.control.head fun head =>
  reduce store { r with control := head } r.control

end Running

end PushValue
