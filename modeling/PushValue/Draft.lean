import PushValue.Draft.Builder
import PushValue.Object.Render
import PushValue.Symbol.Basic

/-!
# Drafts

A draft is an object as a host writes it down: builders applied to finished objects
and to plain numbers and names.  Plain data are coerced by the place in which they
stand.  Where a symbol is expected, a number or a text is a symbol and nothing at
all is the anonymous symbol; where a value is expected, a number is a number and a
text a variable; where a pattern is expected, a text is a variable, except for the
underscore, which ignores.  A truth value is never taken for a number.

A value place takes any object, whatever its kind.  Other plain data pass through
places that do not look at them; where such data stand for an object, the result has no
text.
-/

namespace PushValue

inductive Draft where
  | object (o : Object)
  /-- A builder with its arguments; labelled parts are given as a label and then the part. -/
  | build (builder : Builder) (arguments : List Draft)

instance : Inhabited Draft := ⟨.object default⟩

inductive DraftError where
  | notSymbol
  | notValue
  | notPattern
  | emptySequence
  /-- The data given, as they are shown. -/
  | notSeparator (shown : String)
  /-- A label and a part were expected, but so many objects were given. -/
  | notPair (given : Nat)
  | wrongArguments (complaint : String)
deriving DecidableEq

namespace DraftError

def message : DraftError -> String
  | notSymbol => "cannot build a symbol from"
  | notValue => "cannot build a value from"
  | notPattern => "cannot build a pattern from"
  | emptySequence => "seq() needs at least one computation"
  | notSeparator shown => shown ++ " is not a valid Sep"
  | notPair given =>
      if given < 2 then
        "not enough values to unpack (expected 2, got " ++ toString given ++ ")"
      else "too many values to unpack (expected 2)"
  | wrongArguments complaint => complaint

end DraftError

abbrev Drafting := Except DraftError

namespace Object

/-!
## Places

Each place has a coercion.
-/

def asSymbol : Object -> Drafting Object
  | scalar .null => .ok (Symbol.toObject .anonymous)
  | scalar (.integer n) => .ok (Symbol.toObject (.number n))
  | scalar (.text x) => .ok (Symbol.toObject (.name x))
  | scalar (.boolean _) | scalar (.fraction _) => .error .notSymbol
  | node k os => if k.isSymbol then .ok (node k os) else .error .notSymbol

def asValue : Object -> Drafting Object
  | scalar (.integer n) => .ok (node .number [scalar (.integer n)])
  | scalar (.text x) => .ok (node .variable [text x])
  | scalar (.boolean _) => .error .notValue
  | o => .ok o

def asPattern : Object -> Drafting Object
  | scalar (.text "_") => .ok (node .ignorePattern [])
  | scalar (.text x) => .ok (node .variablePattern [text x])
  | scalar _ => .error .notPattern
  | node k os => if k.isPattern then .ok (node k os) else .error .notPattern

def holds : Object -> Bool
  | scalar (.integer n) => n != 0
  | scalar (.text x) => x != ""
  | scalar (.boolean b) => b
  | scalar (.fraction f) => !f.isZero
  | scalar .null => false
  | node _ _ => true

end Object

namespace Builder

def fieldsOf : List Object -> Drafting (List Object)
  | [] => .ok []
  | l :: v :: rest => do
      let l <- l.asValue
      let v <- v.asValue
      return .node .field [l, v] :: (<- fieldsOf rest)
  | [_] => .error (.notPair 1)

def fieldPatternsOf : List Object -> Drafting (List Object)
  | [] => .ok []
  | l :: p :: rest => do
      let l <- l.asValue
      let p <- p.asPattern
      return .node .fieldPattern [l, p] :: (<- fieldPatternsOf rest)
  | [_] => .error (.notPair 1)

def applyAll (e : Object) : List Object -> Drafting Object
  | [] => .ok e
  | v :: rest => do applyAll (.node .apply [e, <- v.asValue]) rest

def sequenceOf : List Object -> Drafting Object
  | [] => .error .emptySequence
  | [e] => .ok e
  | e :: rest => do return .node .bind [.node .ignorePattern [], e, <- sequenceOf rest]

/-- A separator between two symbols; the separator is looked at before the symbols. -/
def joinOf (l r : Object) : Object -> Drafting Object
  | .scalar (.text x) => do
      let some s := Separator.ofText? x | throw (.notSeparator (Text.quoted x))
      let l <- l.asSymbol
      let r <- r.asSymbol
      return .node .joinBySymbol [l, Symbol.toObject (.mark s), r]
  | .scalar s => .error (.notSeparator s.plainText)
  | o => .error (.notSeparator o.title)

def boxOf (code name : Object) : Object :=
  .node .boxed [.node .box [code, name, .mapping []]]

def extractOf (name : Object) : Object := .node .extract [.node .variable [name]]

/-- Binds a box; its code may use it if it is recursive. -/
def defineOf (name code body : Object) (recursive : Bool) : Object :=
  let self := if recursive then name else .scalar .null
  .node .bindBox [.node .variablePattern [name], .node .ret [boxOf code self], body]

def build : Builder -> List Object -> Drafting Object
  | .symbol, [s] => s.asSymbol
  | .value, [v] => v.asValue
  | .pattern, [p] => p.asPattern
  | .joinBy, [l, m, r] => joinOf l r m
  | .literal, [s] => do return .node .symbol [<- s.asSymbol]
  | .pointer, [s] => do return .node .pointer [<- s.asSymbol]
  | .process, [s] => do return .node .process [<- s.asSymbol]
  | .number, [n] => .ok (.node .number [n])
  | .variable, [x] => .ok (.node .variable [x])
  | .variant, [l, p] => do return .node .variant [<- l.asValue, <- p.asValue]
  | .record, parts => do return .node .record [.sequence (<- fieldsOf parts)]
  | .extend, [b, l, v] => do
      return .node .extension [<- b.asValue, .node .field [<- l.asValue, <- v.asValue]]
  | .box, [code] => .ok (boxOf code (.scalar .null))
  | .box, [code, x] => .ok (boxOf code x)
  | .operand, [e] => .ok (.node .operand [e])
  | .fieldPatterns, parts => do return .node .fieldsPattern [.sequence (<- fieldPatternsOf parts)]
  | .variantPattern, [l, p] => do
      return .node .variantPattern [.node .fieldPattern [<- l.asValue, <- p.asPattern]]
  | .ret, [v] => do return .node .ret [<- v.asValue]
  | .put, [s, v] => do return .node .put [<- s.asValue, <- v.asValue]
  | .get, [v] => do return .node .get [<- v.asValue]
  | .link, [v] => do return .node .link [<- v.asValue]
  | .nest, [v, e] => do return .node .nest [<- v.asValue, e]
  | .spawn, [v, e] => do return .node .spawn [<- v.asValue, e]
  | .assertEqual, [a, b] => do return .node .assert [<- a.asValue, .flag true, <- b.asValue]
  | .assertDifferent, [a, b] => do return .node .assert [<- a.asValue, .flag false, <- b.asValue]
  | .lambda, [p, e] => do return .node .lambda [<- p.asPattern, e]
  | .apply, e :: vs => applyAll e vs
  | .bind, [p, e₁, e₂] => do return .node .bind [<- p.asPattern, e₁, e₂]
  | .bindBox, [p, e₁, e₂] => do return .node .bindBox [<- p.asPattern, e₁, e₂]
  | .defineBox, [x, code, body] => .ok (defineOf x code body false)
  | .defineBox, [x, code, body, recursive] => .ok (defineOf x code body recursive.holds)
  | .sequence, es => sequenceOf es
  | .case, [l, p, e] => do return .node .case [<- l.asValue, <- p.asPattern, e]
  | .switch, v :: cs => do return .node .switch [<- v.asValue, .sequence cs]
  | .branch, [l, e] => do return .node .branch [<- l.asValue, e]
  | .branches, bs => .ok (.node .branches [.sequence bs])
  | .project, [e, l] => do return .node .project [e, <- l.asValue]
  | .extract, [x] => .ok (extractOf x)
  | .call, x :: vs => applyAll (extractOf x) vs
  | b, os => .error (.wrongArguments ((b.signature.complaint? os.length).getD ""))

end Builder

namespace Draft

mutual

/-- Builds the arguments from left to right and then the object itself. -/
def toObject : Draft -> Drafting Object
  | object o => .ok o
  | build builder arguments => do builder.build (<- toObjects arguments)

def toObjects : List Draft -> Drafting (List Object)
  | [] => .ok []
  | d :: rest => do return (<- d.toObject) :: (<- toObjects rest)

end

end Draft

end PushValue
