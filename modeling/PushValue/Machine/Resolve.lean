import PushValue.Environment
import PushValue.Fault
import PushValue.Object.Key

/-!
# Resolving values

A value is resolved in an environment before the machine uses it.  Variables are
replaced by what they are bound to, and a box captures the boxes in scope beneath
those that it already carries.  Foreign parts cannot be resolved, but their labels
can.
-/

namespace PushValue

mutual

def Value.resolve (env : Environment) : Value -> Except Failure Value
  | .number n => .ok (.number n)
  | .symbol s => .ok (.symbol s)
  | .pointer s => .ok (.pointer s)
  | .process s => .ok (.process s)
  | .variable x => do
      match (<- Failure.ofLack env.values).get? x with
      | some v => return v
      | none => throw (.fault (.undefinedVariable x))
  | .variant l p => do
      let l <- l.resolve env
      let p <- p.resolve env
      return .variant l p
  | .record fs => do
      let fs <- fs.resolve env
      return .record fs
  | .extend b l v => do
      let b <- b.resolve env
      let l <- l.resolve env
      let v <- v.resolve env
      return .extend b l v
  | .extendBy b p => do
      let _ <- b.resolve env
      let _ <- p.resolveLabel env
      throw (.breakage (.lacks (p.lack ["value"])))
  | .box (.mk code self captured) => do
      let scope <- Failure.ofLack env.boxes
      return .box (.mk code self (captured.capture scope))
  | .box (.stray o) => do
      match (<- Failure.ofLack env.boxes) with
      | .nil => return .box (.stray o)
      | _ => throw (.breakage (.lacks (o.lack ["bxes", "code"])))
  | .operand _ => .error (.fault .operandLeft)
  | .stray _ => .error (.breakage .notValue)

def Fields.resolve (env : Environment) : Fields -> Except Failure Fields
  | .nil => .ok .nil
  | .cons l v rest => do
      let l <- l.resolve env
      let v <- v.resolve env
      let rest <- rest.resolve env
      return .cons l v rest
  | .foreign p _ => do
      let _ <- p.resolveLabel env
      throw (.breakage (.lacks (p.lack ["value"])))

def Part.resolveLabel (env : Environment) : Part -> Except Failure Value
  | .field l _ | .fieldPattern l _ | .case l _ _ | .branch l _ | .labelled l _ => l.resolve env
  | .stray o => .error (.breakage (.lacks (o.lack ["label"])))

end

namespace Value

def toSymbol : Value -> Except Failure Symbol
  | symbol s => .ok s
  | v => .error (.fault (.notSymbol v))

def toPointer : Value -> Except Failure Symbol
  | pointer s => .ok s
  | v => .error (.fault (.notPointer v))

def resolveSymbol (env : Environment) (v : Value) : Except Failure Symbol := do
  (<- v.resolve env).toSymbol

def resolvePointer (env : Environment) (v : Value) : Except Failure Symbol := do
  (<- v.resolve env).toPointer

end Value

/-- A symbol that is to be looked up. -/
def Symbol.asKey (s : Symbol) : Except Breakage Symbol :=
  match s.toObject.unfitForKey? with
  | none => .ok s
  | some k => .error (.unfitKey k)

theorem Symbol.unfitForKey?_toObject {s : Symbol} (h : s.isProper) :
    s.toObject.unfitForKey? = none := by
  induction s with
  | anonymous | number | name | mark => rfl
  | join l r hl hr =>
      simp only [isProper, Bool.and_eq_true] at h
      simp [toObject, Object.unfitForKey?, Object.anyUnfitForKey?, hl h.1, hr h.2,
        Kind.isKey, Kind.isMutable, Kind.isFault, Kind.tiers]
  | within o i ho hi =>
      simp only [isProper, Bool.and_eq_true] at h
      simp [toObject, Object.unfitForKey?, Object.anyUnfitForKey?, ho h.1, hi h.2,
        Kind.isKey, Kind.isMutable, Kind.isFault, Kind.tiers]
  | joinBy l m r hl hm hr =>
      simp only [isProper, Bool.and_eq_true] at h
      simp [toObject, Object.unfitForKey?, Object.anyUnfitForKey?, hl h.1.1, hm h.1.2, hr h.2,
        Kind.isKey, Kind.isMutable, Kind.isFault, Kind.tiers]
  | stray => simp [isProper] at h

@[simp]
theorem Symbol.asKey_of_isProper {s : Symbol} (h : s.isProper) : s.asKey = .ok s := by
  simp [asKey, unfitForKey?_toObject h]

end PushValue
