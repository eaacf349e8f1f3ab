import PushValue.World.Round

/-!
# Runs

A run repeats rounds until one makes no progress.  A limit on the number of
progressing rounds may be set; a run that exceeds it stops after the first round
beyond the limit.  A run without a limit need not end, so it takes the greatest
number of rounds to attempt as an argument of its own.
-/

namespace PushValue

inductive Ending where
  /-- A round made no progress, after the given number of rounds that did. -/
  | settled (rounds : Nat)
  | limitExceeded (limit : Int)
  | broken (b : Breakage)
  /-- No round is left to attempt. -/
  | unfinished
deriving DecidableEq

structure Run where
  ending : Ending
  world : World
deriving DecidableEq

namespace World

/-- Runs on after the given number of progressing rounds. -/
def runFrom (limit : Option Int) : (attempts rounds : Nat) -> World -> Run
  | 0, _, s => ⟨.unfinished, s⟩
  | attempts + 1, rounds, s =>
      let r := s.round
      match r.result with
      | .error b => ⟨.broken b, r.world⟩
      | .ok .progress =>
          match limit with
          | none => runFrom limit attempts (rounds + 1) r.world
          | some n =>
              if n < (rounds + 1 : Int) then ⟨.limitExceeded n, r.world⟩
              else runFrom limit attempts (rounds + 1) r.world
      | .ok _ => ⟨.settled rounds, r.world⟩

def runWithin (limit : Int) (s : World) : Run :=
  runFrom (some limit) (limit.toNat + 1) 0 s

def runFor (attempts : Nat) (s : World) : Run := runFrom none attempts 0 s

def run (limit : Option Int) (attempts : Nat) (s : World) : Run :=
  match limit with
  | some n => s.runWithin n
  | none => s.runFor attempts

end World

end PushValue
