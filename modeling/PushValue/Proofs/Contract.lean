import PushValue.Machine.Step

/-!
# Contracts

A contract says in which ways a result may fail and what holds of it when it does
not.  Contracts compose along sequences of results.  A step of the machine proceeds
from one result to the next, so a property of all its endings follows from the
contracts of the functions that it calls.
-/

namespace PushValue

/-- A result that fails only in allowed ways and has a property otherwise. -/
def Meets {ε α : Type} (allowed : ε -> Prop) (holds : α -> Prop) : Except ε α -> Prop
  | .ok a => holds a
  | .error e => allowed e

namespace Meets

variable {ε α β : Type} {allowed : ε -> Prop} {holds : α -> Prop}

theorem bind {x : Except ε α} {f : α -> Except ε β} {after : β -> Prop}
    (hx : Meets allowed holds x)
    (hf : ∀ a, holds a -> Meets allowed after (f a)) :
    Meets allowed after (x >>= f) := by
  cases x with
  | ok a => exact hf a hx
  | error e => exact hx

theorem self (x : Except ε α) : Meets (fun _ => True) (fun a => x = .ok a) x := by
  cases x with
  | ok a => rfl
  | error e => trivial

theorem error {e : ε} (h : allowed e) : Meets allowed holds (.error e) := h

theorem mono {x : Except ε α} {after : α -> Prop} (hx : Meets allowed holds x)
    (h : ∀ a, holds a -> after a) : Meets allowed after x := by
  cases x with
  | ok a => exact h a hx
  | error e => exact hx

theorem of_eq_ok {x : Except ε α} {a : α} (hx : Meets allowed holds x) (h : x = .ok a) :
    holds a := by
  rw [h] at hx
  exact hx

theorem of_eq_error {x : Except ε α} {e : ε} (hx : Meets allowed holds x) (h : x = .error e) :
    allowed e := by
  rw [h] at hx
  exact hx

end Meets

namespace Attempt

variable {α : Type} {store : Store} {r : Running} {P : Attempt -> Prop}

/-- A property of all endings of a step follows from the contract of the result with which it
proceeds. -/
theorem proceed_of_meets {allowed : Failure -> Prop} {holds : α -> Prop}
    {result : Except Failure α} {next : α -> Attempt} (hresult : Meets allowed holds result)
    (hfailed : ∀ f, allowed f -> P ⟨.failed f, store, r⟩)
    (hnext : ∀ a, holds a -> P (next a)) : P (proceed store r result next) := by
  cases result with
  | ok a => exact hnext a hresult
  | error f => exact hfailed f hresult

end Attempt

end PushValue
