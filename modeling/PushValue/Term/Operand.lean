import PushValue.Object.Operand
import PushValue.Term.Basic

/-!
# Operand computations

A term is free of operands when no computation stands in the place of a value in
it.  The code of boxes is searched; patterns and captured boxes are not.  A stray is
searched as the object that it is.
-/

namespace PushValue

mutual

def Value.hasOperand : Value -> Bool
  | .operand _ => true
  | .variant l p => l.hasOperand || p.hasOperand
  | .record fs => fs.hasOperand
  | .extend b l v => b.hasOperand || l.hasOperand || v.hasOperand
  | .extendBy b p => b.hasOperand || p.hasOperand
  | .box b => b.hasOperand
  | .stray o => o.hasOperand.found
  | .number _ | .symbol _ | .pointer _ | .process _ | .variable _ => false

def Fields.hasOperand : Fields -> Bool
  | .nil => false
  | .cons l v rest => l.hasOperand || v.hasOperand || rest.hasOperand
  | .foreign p rest => p.hasOperand || rest.hasOperand

def Box.hasOperand : Box -> Bool
  | .mk code _ _ => code.hasOperand
  | .stray _ => false

def Computation.hasOperand : Computation -> Bool
  | .ret v | .returned v | .extract v | .get v | .link v => v.hasOperand
  | .put s v => s.hasOperand || v.hasOperand
  | .assert a _ b => a.hasOperand || b.hasOperand
  | .nest v e | .spawn v e => v.hasOperand || e.hasOperand
  | .apply e v | .project e v => e.hasOperand || v.hasOperand
  | .lambda _ e => e.hasOperand
  | .bind _ e₁ e₂ | .bindBox _ e₁ e₂ => e₁.hasOperand || e₂.hasOperand
  | .switch v cs => v.hasOperand || cs.hasOperand
  | .branches bs => bs.hasOperand
  | .hole => false
  | .stray o => o.hasOperand.found

def Cases.hasOperand : Cases -> Bool
  | .nil => false
  | .cons l _ e rest => l.hasOperand || e.hasOperand || rest.hasOperand
  | .foreign p rest => p.hasOperand || rest.hasOperand

def Branches.hasOperand : Branches -> Bool
  | .nil => false
  | .cons l e rest => l.hasOperand || e.hasOperand || rest.hasOperand
  | .foreign p rest => p.hasOperand || rest.hasOperand

def Part.hasOperand : Part -> Bool
  | .field l v => l.hasOperand || v.hasOperand
  | .case l _ e | .branch l e => l.hasOperand || e.hasOperand
  | .fieldPattern l _ | .labelled l _ => l.hasOperand
  | .stray _ => false

end

end PushValue
