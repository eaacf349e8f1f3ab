import PushValue.Machine.Resolve

/-!
# Matching values

Patterns take values apart and bind the parts.  Records are read through their
extensions, the outermost first.  The labels in a pattern are resolved in the
environment as extended by the parts bound before them.  Cases and branches are
chosen by their labels, in order.
-/

namespace PushValue

def Fields.find (label : Value) : Fields -> Except Failure Value
  | .nil => .error (.fault (.fieldNotFound label))
  | .cons l v rest => if l = label then .ok v else rest.find label
  | .foreign p rest => do
      if (<- Failure.ofLack p.label) = label then Failure.ofLack p.value else rest.find label

/-- The field of a record or an extended record under a label. -/
def Value.field : Value -> Value -> Except Failure Value
  | .record fs, label => fs.find label
  | .extend base l v, label => if l = label then .ok v else base.field label
  | .extendBy base p, label => do
      if (<- Failure.ofLack p.label) = label then Failure.ofLack p.value else base.field label
  | _, _ => .error (.fault .notRecord)

def Value.isRecord : Value -> Bool
  | .record _ | .extend _ _ _ | .extendBy _ _ => true
  | _ => false

mutual

def Pattern.bind : Pattern -> Value -> Environment -> Except Failure Environment
  | .ignore, _, env => .ok env
  | .variable x, v, env => Failure.ofLack (env.bind x v)
  | .fields ps, v, env =>
      if v.isRecord then ps.bind v env else .error (.fault .notRecord)
  | .variant l p, v, env =>
      match v with
      | .variant found payload => do
          let expected <- l.resolve env
          if found = expected then p.bind payload env
          else .error (.fault (.variantMismatch expected found))
      | _ => .error (.fault .notVariant)
  | .variantBy part, v, env =>
      match v with
      | .variant found payload => do
          let expected <- part.resolveLabel env
          if found = expected then part.bind payload env
          else .error (.fault (.variantMismatch expected found))
      | _ => .error (.fault .notVariant)
  | .stray _, _, _ => .error (.breakage .notPattern)

def FieldPatterns.bind : FieldPatterns -> Value -> Environment -> Except Failure Environment
  | .nil, _, env => .ok env
  | .cons l p rest, v, env => do
      let label <- l.resolve env
      let part <- v.field label
      let env <- p.bind part env
      rest.bind v env
  | .foreign p rest, v, env => do
      let label <- p.resolveLabel env
      let _ <- Failure.ofLack p.pattern
      let part <- v.field label
      let env <- p.bind part env
      rest.bind v env

def Part.bind : Part -> Value -> Environment -> Except Failure Environment
  | .fieldPattern _ p, v, env | .case _ p _, v, env => p.bind v env
  | .field l w, _, _ => .error (.breakage (.lacks (Part.lack (.field l w) ["pattern"])))
  | .branch l e, _, _ => .error (.breakage (.lacks (Part.lack (.branch l e) ["pattern"])))
  | .labelled _ o, _, _ | .stray o, _, _ => .error (.breakage (.lacks (o.lack ["pattern"])))

end

def Cases.select (env : Environment) (s : Symbol) : Cases -> Except Failure Part
  | .nil => .error (.fault (.missingCase s))
  | .cons l p body rest => do
      let label <- l.resolveSymbol env
      if label = s then return .case l p body else rest.select env s
  | .foreign p rest => do
      let label <- (<- p.resolveLabel env).toSymbol
      if label = s then return p else rest.select env s

def Branches.select (env : Environment) (s : Symbol) : Branches -> Except Failure Part
  | .nil => .error (.fault (.missingBranch s))
  | .cons l body rest => do
      let label <- l.resolveSymbol env
      if label = s then return .branch l body else rest.select env s
  | .foreign p rest => do
      let label <- (<- p.resolveLabel env).toSymbol
      if label = s then return p else rest.select env s

end PushValue
