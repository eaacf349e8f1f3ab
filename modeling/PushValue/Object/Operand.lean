import PushValue.Object.Basic

/-!
# Operand computations in objects

An operand is a computation that stands where a value belongs.  Values and
computations are searched for operands, the code of boxes included; patterns,
captured boxes and all other objects are not.  The search goes from left to right
and ends at the first operand; it fails where a part is missing that it has to look
into.
-/

namespace PushValue
namespace Object

abbrev Search := Except Lack Bool

/-- The first search, and the second one if the first finds nothing. -/
def Search.orElse (a b : Search) : Search := do if (<- a) then return true else b

def Search.found : Search -> Bool
  | .ok b => b
  | .error _ => false

mutual

def hasOperand : Object -> Search
  | node .operand _ => .ok true
  | node .boxed [node .box [code, _, _]] => code.hasOperand
  | node .boxed [o] => .error (o.lack ["code"])
  | node .record [node .sequence fs] => anyField fs
  | node .extension [b, f] =>
      b.hasOperand.orElse (f.operandInLabel.orElse f.operandInValue)
  | node .variant [a, b] | node .put [a, b] | node .assert [a, _, b] | node .nest [a, b]
  | node .spawn [a, b] | node .apply [a, b] | node .project [a, b] | node .bind [_, a, b]
  | node .bindBox [_, a, b] => a.hasOperand.orElse b.hasOperand
  | node .ret [a] | node .returned [a] | node .extract [a] | node .get [a] | node .link [a]
  | node .lambda [_, a] => a.hasOperand
  | node .switch [v, node .sequence cs] => v.hasOperand.orElse (anyBody cs)
  | node .branches [node .sequence bs] => anyBody bs
  | _ => .ok false

def operandInLabel : Object -> Search
  | node .field [l, _] | node .fieldPattern [l, _] | node .case [l, _, _] | node .branch [l, _]
  | node .variant [l, _] | node .project [_, l] | node .labelContext [l]
  | node .fieldNotFound [l] => l.hasOperand
  | o => .error (o.lack ["label"])

def operandInValue : Object -> Search
  | node .field [_, v] => v.hasOperand
  | o => .error (o.lack ["value"])

def operandInBody : Object -> Search
  | node .case [_, _, e] | node .branch [_, e] => e.hasOperand
  | o => .error (o.lack ["body"])

def anyField : List Object -> Search
  | [] => .ok false
  | f :: rest => f.operandInLabel.orElse (f.operandInValue.orElse (anyField rest))

def anyBody : List Object -> Search
  | [] => .ok false
  | c :: rest => c.operandInLabel.orElse (c.operandInBody.orElse (anyBody rest))

end

end Object
end PushValue
