import PushValue.Object.Basic
import PushValue.Text.Layout
import PushValue.Text.Quoted

/-!
# The text of objects

Every object has one text, whatever stands in it, except where a part cannot be
written.  Plain data and environments have no text of their own; only symbols can
be put in order, so a map by symbols has a text only if all its keys are symbols; and
some texts look into a part, which must then have what is looked for.
-/

namespace PushValue

inductive ObjectError where
  | notPrintable
  | notSymbol
  | lacks (l : Lack)
  /-- An item of a sequence has bare data in the place of a text. -/
  | notText (index : Nat) (data : Scalar)
deriving DecidableEq

namespace ObjectError

def message : ObjectError -> String
  | notPrintable => "cannot render"
  | notSymbol => "not a symbol"
  | lacks l => l.message
  | notText index data =>
      "sequence item " ++ toString index ++ ": expected str instance, " ++ data.title ++ " found"

end ObjectError

abbrev Printed := Except ObjectError String

namespace Printed

instance : Coe String Printed := ⟨Except.ok⟩

/-- Texts one after the other; the first that is refused decides. -/
def chain : List Printed -> Printed
  | [] => .ok ""
  | x :: rest => do
      let x <- x
      let rest <- chain rest
      return x ++ rest

end Printed

namespace Object

open Printed

def isSymbol : Object -> Bool
  | node .anonymous [] => true
  | node .numberSymbol [scalar (.integer _)] => true
  | node .nameSymbol [scalar (.text _)] => true
  | node .joinSymbol [l, r] => l.isSymbol && r.isSymbol
  | node .withinSymbol [o, i] => o.isSymbol && i.isSymbol
  | node .joinBySymbol [l, m, r] => l.isSymbol && m.isSymbol && r.isSymbol
  | node .markSymbol [scalar (.text _)] => true
  | _ => false

def symbolKeys : List Object -> Bool
  | node .entry [k, _] :: rest => k.isSymbol && symbolKeys rest
  | _ => true

/-- The bare data that an object has in the place of a text: hosts may give other data than a text
for the name of a variable. -/
def bare? : Object -> Option Scalar
  | node .variable [scalar (.text _)] | node .variablePattern [scalar (.text _)] => none
  | node .variable [scalar s] | node .variablePattern [scalar s] => some s
  | node .extract [v] => v.bare?
  | node .boxed [b] => b.bare?
  | _ => none

/-- Refuses a sequence with bare data among its items, counted from the given number on. -/
def refuseBare (index : Nat) : List Object -> Except ObjectError Unit
  | [] => .ok ()
  | o :: rest =>
      match o.bare? with
      | some s => .error (.notText index s)
      | none => refuseBare (index + 1) rest

def stateText (trace stack boxes values control : Printed) : Printed :=
  chain ["[trace = ", trace, "; stack = ", stack, "; bxes = ", boxes, "; vals = ", values,
    "; cont = ", control, "]"]

def asFault : Object -> Printed -> Printed
  | node k os, text =>
      if k.isFault then text else .error (.lacks ((node k os).lack ["args"]))
  | scalar s, _ => .error (.lacks ((scalar s).lack ["args"]))

/-- A title with its arguments, as a bracketed list that ends in a comma when it has one item. -/
def titled (title : String) : Option String -> String
  | none => title ++ "(())"
  | some argument => title ++ "((" ++ argument ++ ",))"

def general : Kind -> Scalar -> Printed
  | .invariantFault, .text detail => "internal(" ++ detail ++ ")"
  | .invariantFault, _ => "internal(impossible)"
  | k, .text detail => titled k.title (some (Text.quoted detail))
  | k, _ => titled k.title none

mutual

def render : Object -> Printed
  | node .anonymous [] => "%"
  | node .numberSymbol [scalar (.integer n)] => toString n
  | node .nameSymbol [scalar (.text x)] => x
  | node .joinSymbol [l, r] => chain [l.render, r.render]
  | node .withinSymbol [o, i] => chain [o.render, "/", i.render]
  | node .joinBySymbol [l, m, r] => chain [l.render, m.render, r.render]
  | node .markSymbol [scalar (.text x)] => x
  | node .number [scalar s] => s.plainText
  | node .symbol [s] => chain ["$", s.render]
  | node .pointer [s] => chain ["!", s.render]
  | node .process [s] => chain ["~", s.render]
  | node .variable [scalar x] => x.plainText
  | node .variant [l, p] => chain ["#", l.render, "(", p.render, ")"]
  | node .record [fs] => fs.listing
  | node .extension [b, f] => chain [b.render, ", ", f.render]
  | node .boxed [b] => b.render
  | node .operand [e] => chain ["`(", e.render, ")"]
  | node .field [l, v] => chain [l.render, " => ", v.render]
  | node .box [code, scalar .null, captured] =>
      chain ["\x7b", captured.listing, " |- ", code.render, "\x7d"]
  | node .box [code, scalar x, captured] =>
      chain ["rec ", x.plainText, " \x7b", captured.listing, " |- ", code.render, "\x7d"]
  | node .fieldPattern [l, p] => chain [l.render, " => ", p.render]
  | node .case [l, p, e] => chain ["#", l.render, "(", p.render, ") => ", e.render]
  | node .branch [l, e] => chain [l.render, " => ", e.render]
  | node .ignorePattern [] => "_"
  | node .variablePattern [scalar x] => x.plainText
  | node .fieldsPattern [ps] => ps.listing
  | node .variantPattern [o] => chain [o.labelText, "(", o.patternText, ")"]
  | node .nest [v, e] => chain ["#", v.render, " \x7b ", e.render, " \x7d"]
  | node .spawn [v, e] => chain ["~", v.render, " \x7b ", e.render, " \x7d"]
  | node .put [s, v] => chain [s.render, " := ", v.render]
  | node .get [v] => chain ["@", v.render]
  | node .link [v] => chain ["&", v.render]
  | node .assert [a, scalar (.boolean equal), b] =>
      chain [a.render, Text.equality equal, b.render]
  | node .lambda [p, e] => chain ["\\", p.render, " => ", e.render]
  | node .apply [e, v] => chain [e.render, " ", v.render]
  | node .bind [p, e₁, e₂] => chain ["let ", p.render, " = ", e₁.render, "; ", e₂.render]
  | node .bindBox [p, e₁, e₂] =>
      chain ["let box ", p.render, " = ", e₁.render, "; ", e₂.render]
  | node .ret [v] => chain ["ret ", v.render]
  | node .returned [v] => chain ["ret_ ", v.render]
  | node .switch [v, cs] => chain ["switch ", v.render, " \x7b ", cs.items, " \x7d"]
  | node .branches [bs] => chain ["\x7b ", bs.items, " \x7d"]
  | node .project [e, v] => chain [e.render, " <= ", v.render]
  | node .extract [v] => v.render
  | node .hole [] => "__"
  | node .sequenceTrace [ts] => ts.items
  | node .nestTrace [s, ts] => chain ["#", s.render, " \x7b", ts.items, "\x7d"]
  | node .retTrace [v] => chain ["ret ", v.render]
  | node .putTrace [s, v] => chain ["put ", s.render, " <= ", v.render]
  | node .getTrace [s, v] => chain ["get ", s.render, " => ", v.render]
  | node .linkTrace [t, v] => chain ["link ", t.render, " => ", v.render]
  | node .bindContext [env, p, e] =>
      chain [env.boxes, " ;; ", env.values, " |- let ", p.render, " = __; ", e.render]
  | node .bindBoxContext [env, p, e] =>
      chain [env.boxes, " ;; ", env.values, " |- let box ", p.render, " = __; ", e.render]
  | node .argumentContext [v] => chain ["__ ", v.render]
  | node .labelContext [v] => chain ["__ <= ", v.render]
  | node .nestContext [s] => chain ["#", s.render, " \x7b __ \x7d"]
  | node .frame [c, ts] => chain ["[trace = ", ts.listing, ", cont = ", c.render, "]"]
  | node .running [c, env, stack, ts] =>
      stateText ts.listing stack.listing env.boxes env.values c.render
  | node .pendingStage [e] => chain ["spawn(", e.render, ")"]
  | node .runningStage [r] => chain ["running(", r.asRunning, ")"]
  | node .awaitingEntryStage [r, s] =>
      chain ["waitingForPtr(", r.asRunning, ", ", s.render, ")"]
  | node .awaitingHaltStage [r, s] =>
      chain ["waitingForHalt(", r.asRunning, ", ", s.render, ")"]
  | node .failedStage [r, f] => chain ["error(", f.asFault f.render, ", ", r.asRunning, ")"]
  | node .haltedStage [_, ts] => chain ["halted(", ts.listing, ")"]
  | node .world [store, processes] =>
      chain ["fumola [\n  store = ", store.symbolListing, ";\n  procs = ",
        processes.symbolListing, "\n]\n"]
  | node .haltSignal [v] => chain ["halt(", v.render, ")"]
  | node .awaitEntrySignal [s] => chain ["linkWaitPtr(", s.render, ")"]
  | node .awaitHaltSignal [s] => chain ["linkWaitHalt(", s.render, ")"]
  | node .spawnSignal [s, env, e] =>
      chain ["spawn([name = ", s.render, "; bxes = ", env.boxes, "; vals = ", env.values,
        "; code = ", e.render, "])"]
  | node .undefinedVariable [scalar (.text x)] => "value(undefined(" ++ x ++ "))"
  | node .operandLeft [] => "value(callByValue)"
  | node .notRecord [] => "pattern(notRecord)"
  | node .notVariant [] => "pattern(notVariant)"
  | node .fieldNotFound [l] => chain ["pattern(fieldNotFound(", l.render, "))"]
  | node .variantMismatch [l, m] =>
      chain ["pattern(caseMismatch(", l.render, ", ", m.render, "))"]
  | node .undefinedBox [scalar (.text x)] => "extract(undefined(" ++ x ++ "))"
  | node .switchNotVariant [v] => chain ["switch(notVariant(", v.render, "))"]
  | node .missingCase [s] => chain ["switch(missingCase(", s.render, "))"]
  | node .missingBranch [s] => chain ["project(missingBranch(", s.render, "))"]
  | node .noStep [] => "noStep"
  | node .notSymbol [v] => chain ["notASymbol(", v.render, ")"]
  | node .notPointer [v] => chain ["notAPointer(", v.render, ")"]
  | node .notLinkTarget [v] => chain ["notLinkTarget(", v.render, ")"]
  | node .noSuchProcess [s] => chain ["invalidProc(", s.render, ")"]
  | node .undefinedEntry [s] => chain ["undefined(", s.render, ")"]
  | node .duplicateName [s] => chain ["duplicate(", s.render, ")"]
  | node .assertionFailed [a, scalar (.boolean equal), b] =>
      chain ["assertionFailure(", a.render, Text.equality equal, b.render, ")"]
  | node .roundLimit [scalar (.integer n)] => titled Kind.roundLimit.title (some (toString n))
  | node k [scalar detail, scalar _] =>
      if k.isGeneralFault then general k detail else .error .notPrintable
  | _ => .error .notPrintable

def items : Object -> Printed
  | node _ os => do
      let xs <- texts os
      refuseBare 0 os
      return Text.sequence xs
  | scalar _ => .error .notPrintable

def listing : Object -> Printed
  | node _ os => do
      let xs <- texts os
      refuseBare 0 os
      return Text.listing xs
  | scalar _ => .error .notPrintable

def symbolListing : Object -> Printed
  | node _ os => do
      if symbolKeys os then return Text.listing (<- texts os) else throw .notSymbol
  | scalar _ => .error .notPrintable

def labelText : Object -> Printed
  | node .field [l, _] | node .fieldPattern [l, _] | node .case [l, _, _] | node .branch [l, _]
  | node .variant [l, _] | node .project [_, l] | node .labelContext [l]
  | node .fieldNotFound [l] => l.render
  | o => .error (.lacks (o.lack ["label"]))

def patternText : Object -> Printed
  | node .fieldPattern [_, p] | node .case [_, p, _] => p.render
  | o => .error (.lacks (o.lack ["pattern"]))

/-- An object that has to be a running process.  The trace is looked for first and the stack next,
so an object that has only a trace is refused after it. -/
def asRunning : Object -> Printed
  | node .running [c, env, stack, ts] =>
      stateText ts.listing stack.listing env.boxes env.values c.render
  | node .frame [c, ts] =>
      chain [ts.listing, .error (.lacks ((node .frame [c, ts]).lack ["stack"]))]
  | node .haltedStage [v, ts] =>
      chain [ts.listing, .error (.lacks ((node .haltedStage [v, ts]).lack ["stack"]))]
  | o => .error (.lacks (o.lack ["trace"]))

def boxes : Object -> Printed
  | node .environment [_, bs] | node .box [_, _, bs] => bs.listing
  | o => .error (.lacks (o.lack ["bxes"]))

def values : Object -> Printed
  | node .environment [vs, _] => vs.listing
  | o => .error (.lacks (o.lack ["vals"]))

def texts : List Object -> Except ObjectError (List String)
  | [] => .ok []
  | node .entry [scalar (.text x), o] :: rest => do
      let text <- o.render
      return Text.entry x text :: (<- texts rest)
  | node .entry [k, o] :: rest => do
      let key <- k.render
      let text <- o.render
      return Text.entry key text :: (<- texts rest)
  | o :: rest => do
      let text <- o.render
      return text :: (<- texts rest)

end

def renderAll (os : List Object) : Printed := listing (sequence os)

/-- What an object says about itself: its text, the bare message of a fault from outside the running
program, or plain data as they are. -/
def describe : Object -> Printed
  | node .roundLimit [scalar (.integer n)] => "no fixpoint after " ++ toString n ++ " rounds"
  | node .invariantFault (scalar (.text detail) :: _)
  | node .namesFault (scalar (.text detail) :: _) => detail
  | node .invariantFault _ | node .namesFault _ => ""
  | scalar s => s.plainText
  | o => o.render

end Object

end PushValue
