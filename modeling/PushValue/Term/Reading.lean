import PushValue.Term.Boxes

/-!
# Terms and objects

Terms are read off objects.  An object of the right kind is read part by part; any
other object becomes a stray or a foreign part, so reading never fails.  In the other
direction a term is written as an object, and what is out of place is written as the
object that it is.
-/

namespace PushValue

/-!
## Writing
-/

mutual

def Value.toObject : Value -> Object
  | .number n => .node .number [.scalar (.integer n)]
  | .symbol s => .node .symbol [s.toObject]
  | .pointer s => .node .pointer [s.toObject]
  | .process s => .node .process [s.toObject]
  | .variable x => .node .variable [.text x]
  | .variant l p => .node .variant [l.toObject, p.toObject]
  | .record fs => .node .record [.sequence fs.toObjects]
  | .extend b l v => .node .extension [b.toObject, .node .field [l.toObject, v.toObject]]
  | .extendBy b p => .node .extension [b.toObject, p.toObject]
  | .box b => .node .boxed [b.toObject]
  | .operand e => .node .operand [e.toObject]
  | .stray o => o

def Fields.toObjects : Fields -> List Object
  | .nil => []
  | .cons l v rest => .node .field [l.toObject, v.toObject] :: rest.toObjects
  | .foreign p rest => p.toObject :: rest.toObjects

def Box.toObject : Box -> Object
  | .mk code self captured =>
      .node .box [code.toObject, .optionalText self, .node .mapping captured.toEntries]
  | .stray o => o

def Boxes.toEntries : Boxes -> List Object
  | .nil => []
  | .cons x b rest => .node .entry [.text x, b.toObject] :: rest.toEntries

def Pattern.toObject : Pattern -> Object
  | .ignore => .node .ignorePattern []
  | .variable x => .node .variablePattern [.text x]
  | .fields ps => .node .fieldsPattern [.sequence ps.toObjects]
  | .variant l p => .node .variantPattern [.node .fieldPattern [l.toObject, p.toObject]]
  | .variantBy p => .node .variantPattern [p.toObject]
  | .stray o => o

def FieldPatterns.toObjects : FieldPatterns -> List Object
  | .nil => []
  | .cons l p rest => .node .fieldPattern [l.toObject, p.toObject] :: rest.toObjects
  | .foreign p rest => p.toObject :: rest.toObjects

def Computation.toObject : Computation -> Object
  | .nest v e => .node .nest [v.toObject, e.toObject]
  | .spawn v e => .node .spawn [v.toObject, e.toObject]
  | .put s v => .node .put [s.toObject, v.toObject]
  | .get v => .node .get [v.toObject]
  | .link v => .node .link [v.toObject]
  | .assert a equal b => .node .assert [a.toObject, .flag equal, b.toObject]
  | .lambda p e => .node .lambda [p.toObject, e.toObject]
  | .apply e v => .node .apply [e.toObject, v.toObject]
  | .bind p e₁ e₂ => .node .bind [p.toObject, e₁.toObject, e₂.toObject]
  | .bindBox p e₁ e₂ => .node .bindBox [p.toObject, e₁.toObject, e₂.toObject]
  | .ret v => .node .ret [v.toObject]
  | .returned v => .node .returned [v.toObject]
  | .switch v cs => .node .switch [v.toObject, .sequence cs.toObjects]
  | .branches bs => .node .branches [.sequence bs.toObjects]
  | .project e v => .node .project [e.toObject, v.toObject]
  | .extract v => .node .extract [v.toObject]
  | .hole => .node .hole []
  | .stray o => o

def Cases.toObjects : Cases -> List Object
  | .nil => []
  | .cons l p e rest => .node .case [l.toObject, p.toObject, e.toObject] :: rest.toObjects
  | .foreign p rest => p.toObject :: rest.toObjects

def Branches.toObjects : Branches -> List Object
  | .nil => []
  | .cons l e rest => .node .branch [l.toObject, e.toObject] :: rest.toObjects
  | .foreign p rest => p.toObject :: rest.toObjects

def Part.toObject : Part -> Object
  | .field l v => .node .field [l.toObject, v.toObject]
  | .fieldPattern l p => .node .fieldPattern [l.toObject, p.toObject]
  | .case l p e => .node .case [l.toObject, p.toObject, e.toObject]
  | .branch l e => .node .branch [l.toObject, e.toObject]
  | .labelled _ o => o
  | .stray o => o

end

def Boxes.toObject (bs : Boxes) : Object := .node .mapping bs.toEntries

/-!
## Reading
-/

mutual

def Value.ofObject : Object -> Value
  | .node .number [.scalar (.integer n)] => .number n
  | .node .symbol [s] => .symbol (Symbol.ofObject s)
  | .node .pointer [s] => .pointer (Symbol.ofObject s)
  | .node .process [s] => .process (Symbol.ofObject s)
  | .node .variable [.scalar (.text x)] => .variable x
  | .node .variant [l, p] => .variant (Value.ofObject l) (Value.ofObject p)
  | .node .record [.node .sequence fs] => .record (Fields.ofObjects fs)
  | .node .extension [b, .node .field [l, v]] =>
      .extend (Value.ofObject b) (Value.ofObject l) (Value.ofObject v)
  | .node .extension [b, p] => .extendBy (Value.ofObject b) (Part.ofObject p)
  | .node .boxed [b] => .box (Box.ofObject b)
  | .node .operand [e] => .operand (Computation.ofObject e)
  | o => .stray o

def Fields.ofObjects : List Object -> Fields
  | [] => .nil
  | .node .field [l, v] :: rest =>
      .cons (Value.ofObject l) (Value.ofObject v) (Fields.ofObjects rest)
  | p :: rest => .foreign (Part.ofObject p) (Fields.ofObjects rest)

def Box.ofObject : Object -> Box
  | .node .box [code, .scalar (.text x), .node .mapping captured] =>
      .mk (Computation.ofObject code) (some x) (Boxes.ofEntries captured)
  | .node .box [code, .scalar .null, .node .mapping captured] =>
      .mk (Computation.ofObject code) none (Boxes.ofEntries captured)
  | o => .stray o

def Boxes.ofEntries : List Object -> Boxes
  | .node .entry [.scalar (.text x), b] :: rest =>
      (Boxes.ofEntries rest).insert x (Box.ofObject b)
  | _ => .nil

def Pattern.ofObject : Object -> Pattern
  | .node .ignorePattern [] => .ignore
  | .node .variablePattern [.scalar (.text x)] => .variable x
  | .node .fieldsPattern [.node .sequence ps] => .fields (FieldPatterns.ofObjects ps)
  | .node .variantPattern [.node .fieldPattern [l, p]] =>
      .variant (Value.ofObject l) (Pattern.ofObject p)
  | .node .variantPattern [p] => .variantBy (Part.ofObject p)
  | o => .stray o

def FieldPatterns.ofObjects : List Object -> FieldPatterns
  | [] => .nil
  | .node .fieldPattern [l, p] :: rest =>
      .cons (Value.ofObject l) (Pattern.ofObject p) (FieldPatterns.ofObjects rest)
  | p :: rest => .foreign (Part.ofObject p) (FieldPatterns.ofObjects rest)

def Computation.ofObject : Object -> Computation
  | .node .nest [v, e] => .nest (Value.ofObject v) (Computation.ofObject e)
  | .node .spawn [v, e] => .spawn (Value.ofObject v) (Computation.ofObject e)
  | .node .put [s, v] => .put (Value.ofObject s) (Value.ofObject v)
  | .node .get [v] => .get (Value.ofObject v)
  | .node .link [v] => .link (Value.ofObject v)
  | .node .assert [a, .scalar (.boolean equal), b] =>
      .assert (Value.ofObject a) equal (Value.ofObject b)
  | .node .lambda [p, e] => .lambda (Pattern.ofObject p) (Computation.ofObject e)
  | .node .apply [e, v] => .apply (Computation.ofObject e) (Value.ofObject v)
  | .node .bind [p, e₁, e₂] =>
      .bind (Pattern.ofObject p) (Computation.ofObject e₁) (Computation.ofObject e₂)
  | .node .bindBox [p, e₁, e₂] =>
      .bindBox (Pattern.ofObject p) (Computation.ofObject e₁) (Computation.ofObject e₂)
  | .node .ret [v] => .ret (Value.ofObject v)
  | .node .returned [v] => .returned (Value.ofObject v)
  | .node .switch [v, .node .sequence cs] => .switch (Value.ofObject v) (Cases.ofObjects cs)
  | .node .branches [.node .sequence bs] => .branches (Branches.ofObjects bs)
  | .node .project [e, v] => .project (Computation.ofObject e) (Value.ofObject v)
  | .node .extract [v] => .extract (Value.ofObject v)
  | .node .hole [] => .hole
  | o => .stray o

def Cases.ofObjects : List Object -> Cases
  | [] => .nil
  | .node .case [l, p, e] :: rest =>
      .cons (Value.ofObject l) (Pattern.ofObject p) (Computation.ofObject e)
        (Cases.ofObjects rest)
  | p :: rest => .foreign (Part.ofObject p) (Cases.ofObjects rest)

def Branches.ofObjects : List Object -> Branches
  | [] => .nil
  | .node .branch [l, e] :: rest =>
      .cons (Value.ofObject l) (Computation.ofObject e) (Branches.ofObjects rest)
  | p :: rest => .foreign (Part.ofObject p) (Branches.ofObjects rest)

def Part.ofObject : Object -> Part
  | .node .field [l, v] => .field (Value.ofObject l) (Value.ofObject v)
  | .node .fieldPattern [l, p] => .fieldPattern (Value.ofObject l) (Pattern.ofObject p)
  | .node .case [l, p, e] =>
      .case (Value.ofObject l) (Pattern.ofObject p) (Computation.ofObject e)
  | .node .branch [l, e] => .branch (Value.ofObject l) (Computation.ofObject e)
  | .node .variant [l, p] => .labelled (Value.ofObject l) (.node .variant [l, p])
  | .node .project [e, l] => .labelled (Value.ofObject l) (.node .project [e, l])
  | .node .labelContext [l] => .labelled (Value.ofObject l) (.node .labelContext [l])
  | .node .fieldNotFound [l] => .labelled (Value.ofObject l) (.node .fieldNotFound [l])
  | o => .stray o

end

end PushValue
