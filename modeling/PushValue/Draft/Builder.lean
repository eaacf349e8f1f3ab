/-!
# Builders

A builder puts terms together.  This module gives each builder its title and says
which arguments it takes: those that it needs, those that it can do without, and
whether any number of further ones may follow.
-/

namespace PushValue

inductive Builder where
  | symbol
  | value
  | pattern
  | joinBy
  | literal
  | pointer
  | process
  | number
  | variable
  | variant
  | record
  | extend
  | box
  | operand
  | fieldPatterns
  | variantPattern
  | ret
  | put
  | get
  | link
  | nest
  | spawn
  | assertEqual
  | assertDifferent
  | lambda
  | apply
  | bind
  | bindBox
  | defineBox
  | sequence
  | case
  | switch
  | branch
  | branches
  | project
  | extract
  | call
deriving DecidableEq

structure Signature where
  title : String
  /-- The names of the arguments that have to be given. -/
  required : List String
  /-- How many more may be given. -/
  optional : Nat := 0
  /-- Whether any number of arguments may follow. -/
  variadic : Bool := false

namespace Builder

def signature : Builder -> Signature
  | symbol => ⟨"sym", ["s"], 0, false⟩
  | value => ⟨"val", ["v"], 0, false⟩
  | pattern => ⟨"pat", ["p"], 0, false⟩
  | joinBy => ⟨"tri", ["left", "sep", "right"], 0, false⟩
  | literal => ⟨"lit", ["s"], 0, false⟩
  | pointer => ⟨"ptr", ["s"], 0, false⟩
  | process => ⟨"proc", ["s"], 0, false⟩
  | number => ⟨"num", ["n"], 0, false⟩
  | .variable => ⟨"var", ["name"], 0, false⟩
  | variant => ⟨"variant", ["label", "payload"], 0, false⟩
  | record => ⟨"record", [], 0, true⟩
  | extend => ⟨"extend", ["base", "label", "value"], 0, false⟩
  | box => ⟨"box", ["code"], 1, false⟩
  | operand => ⟨"cbv", ["e"], 0, false⟩
  | fieldPatterns => ⟨"fields_pat", [], 0, true⟩
  | variantPattern => ⟨"case_pat", ["label", "p"], 0, false⟩
  | ret => ⟨"ret", ["v"], 0, false⟩
  | put => ⟨"put", ["s", "v"], 0, false⟩
  | get => ⟨"get", ["p"], 0, false⟩
  | link => ⟨"link", ["target"], 0, false⟩
  | nest => ⟨"nest", ["s", "body"], 0, false⟩
  | spawn => ⟨"spawn", ["s", "body"], 0, false⟩
  | assertEqual => ⟨"assert_eq", ["left", "right"], 0, false⟩
  | assertDifferent => ⟨"assert_ne", ["left", "right"], 0, false⟩
  | lambda => ⟨"lam", ["p", "body"], 0, false⟩
  | apply => ⟨"app", ["e"], 0, true⟩
  | bind => ⟨"let", ["p", "bound", "body"], 0, false⟩
  | bindBox => ⟨"let_box", ["p", "bound", "body"], 0, false⟩
  | defineBox => ⟨"box_def", ["name", "code", "body"], 1, false⟩
  | sequence => ⟨"seq", [], 0, true⟩
  | case => ⟨"case", ["label", "p", "body"], 0, false⟩
  | switch => ⟨"switch", ["scrutinee"], 0, true⟩
  | branch => ⟨"branch", ["label", "body"], 0, false⟩
  | branches => ⟨"branches", [], 0, true⟩
  | project => ⟨"project", ["e", "label"], 0, false⟩
  | extract => ⟨"extract", ["name"], 0, false⟩
  | call => ⟨"call", ["name"], 0, true⟩

def all : List Builder :=
  [symbol, value, pattern, joinBy, literal, pointer, process, number, .variable, variant, record,
    extend, box, operand, fieldPatterns, variantPattern, ret, put, get, link, nest, spawn,
    assertEqual, assertDifferent, lambda, apply, bind, bindBox, defineBox, sequence, case, switch,
    branch, branches, project, extract, call]

def ofTitle? (title : String) : Option Builder := all.find? fun b => b.signature.title == title

end Builder

namespace Signature

def enumerated : List String -> String
  | [] => ""
  | [x] => "'" ++ x ++ "'"
  | [x, y] => "'" ++ x ++ "' and '" ++ y ++ "'"
  | xs =>
      let quoted := xs.map fun x => "'" ++ x ++ "'"
      ", ".intercalate (quoted.dropLast ++ ["and " ++ quoted.getLastD ""])

/-- What is wrong with the number of arguments given, if anything is. -/
def complaint? (s : Signature) (given : Nat) : Option String :=
  let least := s.required.length
  let most := least + s.optional
  if given < least then
    let missing := s.required.drop given
    some (s.title ++ "() missing " ++ toString missing.length ++ " required positional argument"
      ++ (if missing.length = 1 then "" else "s") ++ ": " ++ enumerated missing)
  else if s.variadic || given ≤ most then none
  else
    let range := if s.optional = 0 then toString most
      else "from " ++ toString least ++ " to " ++ toString most
    let one := s.optional = 0 && most = 1
    some (s.title ++ "() takes " ++ range ++ " positional argument" ++ (if one then "" else "s")
      ++ " but " ++ toString given ++ (if given = 1 then " was" else " were") ++ " given")

example : Builder.put.signature.complaint? 0 =
    some "put() missing 2 required positional arguments: 's' and 'v'" := by decide

example : Builder.box.signature.complaint? 3 =
    some "box() takes from 1 to 2 positional arguments but 3 were given" := by decide

example : Builder.apply.signature.complaint? 7 = none := by decide

end Signature

end PushValue
