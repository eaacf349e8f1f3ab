import PushValue.Normalize.Hoist
import PushValue.World.Run
import PushValue.Text.Blank
import PushValue.Text.Integer

/-!
# Settings

A run is governed by the base of the names that normalization introduces and by
an optional limit on the number of progressing rounds.  Both may be read from
environment variables.
-/

namespace PushValue

structure Settings where
  nameBase : String := "_t_"
  roundLimit : Option Int := none
deriving DecidableEq, Inhabited

inductive SettingsError where
  | notInteger
  | negativeLimit (limit : Int)
deriving DecidableEq

namespace SettingsError

def message : SettingsError -> String
  | notInteger => "invalid literal for int() with base 10"
  | negativeLimit n => "FUMOLA_MAX_ROUNDS must be >= 0, got " ++ toString n

end SettingsError

namespace Settings

/-- Reads a round limit; a blank text sets none.  There is no bound on the digits of a limit. -/
def readLimit (text : String) : Except SettingsError (Option Int) :=
  match Text.strip text.toList with
  | [] => .ok none
  | cs =>
      match Text.integer? cs with
      | none => .error .notInteger
      | some n => if n < 0 then .error (.negativeLimit n) else .ok (some n)

def ofVariables (get : String -> Option String) : Except SettingsError Settings := do
  let roundLimit <- readLimit ((get "FUMOLA_MAX_ROUNDS").getD "")
  let defaults : Settings := {}
  return { nameBase := (get "FUMOLA_FRESH_NAME_BASE").getD defaults.nameBase, roundLimit }

end Settings

namespace World

def ofComputation (settings : Settings) (e : Computation) : Except NormalizeError World := do
  let (e, _) <- e.normalize (.counter settings.nameBase 0)
  return initial e

/-- Normalizes a computation and runs it, attempting at most the given number of rounds when no
limit is set. -/
def execute (settings : Settings) (attempts : Nat) (e : Computation) :
    Except NormalizeError Run := do
  let s <- ofComputation settings e
  return s.run settings.roundLimit attempts

end World

end PushValue
