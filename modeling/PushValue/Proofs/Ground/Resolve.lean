import PushValue.Machine.Match
import PushValue.Proofs.Contract
import PushValue.Proofs.Tables

/-!
# Ground values

A value is ground when nothing in it is left to be resolved: there is no variable and no operand
in it, nor a part that is out of place, except in the code of its boxes.  Where all values that
are bound are ground, every value resolves to a ground one, and a pattern takes a ground value
apart into ground ones.
-/

namespace PushValue

mutual

/-- Whether nothing in a value is left to be resolved, apart from the code of boxes. -/
def Value.isGround : Value -> Bool
  | .number _ | .symbol _ | .pointer _ | .process _ | .box _ => true
  | .variant l p => l.isGround && p.isGround
  | .record fs => fs.isGround
  | .extend b l v => b.isGround && l.isGround && v.isGround
  | .variable _ | .operand _ | .extendBy _ _ | .stray _ => false

def Fields.isGround : Fields -> Bool
  | .nil => true
  | .cons l v rest => l.isGround && v.isGround && rest.isGround
  | .foreign _ _ => false

end

def Environment.isGround : Environment -> Bool
  | .mk vs _ => vs.all Value.isGround
  | .stray _ => false

/-!
## Resolving
-/

section Resolving

variable {env : Environment}

theorem Value.resolve_variable_ground (henv : env.isGround) (x : String) :
    Meets (fun _ => True) (fun w => w.isGround) (Value.resolve env (.variable x)) := by
  cases env with
  | stray o => cases henv
  | mk vs bs =>
      have hvalues : Meets (fun _ => True) (fun ws => ws = vs)
          (Failure.ofLack (Environment.values (.mk vs bs))) := rfl
      rw [Value.resolve]
      apply hvalues.bind
      rintro _ rfl
      split
      next v hget => exact Table.all_iff.mp henv x v hget
      next => trivial

theorem Value.resolve_box_ground (env : Environment) (b : Box) :
    Meets (fun _ => True) (fun w => w.isGround) (Value.resolve env (.box b)) := by
  cases b with
  | mk code self captured =>
      rw [Value.resolve]
      cases env.boxes with
      | ok scope => rfl
      | error l => trivial
  | stray o =>
      rw [Value.resolve]
      cases env.boxes with
      | ok scope =>
          cases scope with
          | nil => rfl
          | cons x b rest => trivial
      | error l => trivial

mutual

theorem Value.resolve_ground (henv : env.isGround) :
    (v : Value) -> Meets (fun _ => True) (fun w => w.isGround) (v.resolve env)
  | .number _ | .symbol _ | .pointer _ | .process _ => rfl
  | .variable x => Value.resolve_variable_ground henv x
  | .variant l p => by
      rw [Value.resolve]
      apply (l.resolve_ground henv).bind
      intro l' hl
      apply (p.resolve_ground henv).bind
      intro p' hp
      exact Bool.and_eq_true_iff.mpr ⟨hl, hp⟩
  | .record fs => by
      rw [Value.resolve]
      apply (fs.resolve_ground henv).bind
      intro fs' hfs
      exact hfs
  | .extend b l v => by
      rw [Value.resolve]
      apply (b.resolve_ground henv).bind
      intro b' hb
      apply (l.resolve_ground henv).bind
      intro l' hl
      apply (v.resolve_ground henv).bind
      intro v' hv
      exact Bool.and_eq_true_iff.mpr ⟨Bool.and_eq_true_iff.mpr ⟨hb, hl⟩, hv⟩
  | .extendBy b p => by
      rw [Value.resolve]
      apply (b.resolve_ground henv).bind
      intro _ _
      cases p.resolveLabel env with
      | ok l => trivial
      | error f => trivial
  | .box b => Value.resolve_box_ground env b
  | .operand _ | .stray _ => trivial

theorem Fields.resolve_ground (henv : env.isGround) :
    (fs : Fields) -> Meets (fun _ => True) (fun gs => gs.isGround) (fs.resolve env)
  | .nil => rfl
  | .cons l v rest => by
      rw [Fields.resolve]
      apply (l.resolve_ground henv).bind
      intro l' hl
      apply (v.resolve_ground henv).bind
      intro v' hv
      apply (rest.resolve_ground henv).bind
      intro rest' hrest
      exact Bool.and_eq_true_iff.mpr ⟨Bool.and_eq_true_iff.mpr ⟨hl, hv⟩, hrest⟩
  | .foreign p rest => by
      rw [Fields.resolve]
      cases p.resolveLabel env with
      | ok l => trivial
      | error f => trivial

end

end Resolving

mutual

/-- Where nothing is in scope, a ground value resolves to itself. -/
theorem Value.resolve_eq_self : (v : Value) -> v.isGround -> v.resolve .empty = .ok v
  | .number _, _ | .symbol _, _ | .pointer _, _ | .process _, _ => rfl
  | .box (.mk _ _ _), _ | .box (.stray _), _ => rfl
  | .variable _, h | .operand _, h | .extendBy _ _, h | .stray _, h => by cases h
  | .variant l p, h => by
      have h := Bool.and_eq_true_iff.mp h
      rw [Value.resolve, l.resolve_eq_self h.1, p.resolve_eq_self h.2]
      rfl
  | .record fs, h => by
      rw [Value.resolve, fs.resolve_eq_self h]
      rfl
  | .extend b l v, h => by
      simp only [Value.isGround, Bool.and_eq_true] at h
      rw [Value.resolve, b.resolve_eq_self h.1.1, l.resolve_eq_self h.1.2, v.resolve_eq_self h.2]
      rfl

theorem Fields.resolve_eq_self : (fs : Fields) -> fs.isGround -> fs.resolve .empty = .ok fs
  | .nil, _ => rfl
  | .foreign _ _, h => by cases h
  | .cons l v rest, h => by
      simp only [Fields.isGround, Bool.and_eq_true] at h
      rw [Fields.resolve, l.resolve_eq_self h.1.1, v.resolve_eq_self h.1.2,
        rest.resolve_eq_self h.2]
      rfl

end

/-!
## Fields and patterns
-/

theorem Fields.find_ground (label : Value) : (fs : Fields) -> fs.isGround ->
    Meets (fun _ => True) (fun w => w.isGround) (fs.find label)
  | .nil, _ => trivial
  | .cons l v rest, h => by
      simp only [Fields.isGround, Bool.and_eq_true] at h
      unfold Fields.find
      split
      · exact h.1.2
      · exact rest.find_ground label h.2

theorem Value.field_ground : (v : Value) -> v.isGround -> (label : Value) ->
    Meets (fun _ => True) (fun w => w.isGround) (v.field label)
  | .record fs, h, label => fs.find_ground label h
  | .extend b l v, h, label => by
      simp only [Value.isGround, Bool.and_eq_true] at h
      unfold Value.field
      split
      · exact h.2
      · exact b.field_ground h.1.1 label
  | .number _, _, _ | .symbol _, _, _ | .pointer _, _, _ | .process _, _, _
  | .variant _ _, _, _ | .box _, _, _ => trivial

theorem Environment.bind_ground {env : Environment} (henv : env.isGround) (x : String)
    {v : Value} (hv : v.isGround) :
    Meets (fun _ => True) (fun env' => env'.isGround) (Failure.ofLack (env.bind x v)) := by
  cases env with
  | mk vs bs => exact Table.all_insert x henv hv
  | stray o => trivial

mutual

theorem Pattern.bind_ground {env : Environment} {v : Value} (henv : env.isGround)
    (hv : v.isGround) :
    (p : Pattern) -> Meets (fun _ => True) (fun env' => env'.isGround) (p.bind v env)
  | .ignore => henv
  | .variable x => by
      rw [Pattern.bind]
      exact Environment.bind_ground henv x hv
  | .fields ps => by
      rw [Pattern.bind]
      split
      · exact ps.bind_ground henv hv
      · trivial
  | .variant l p => by
      cases v with
      | variant found payload =>
          simp only [Value.isGround, Bool.and_eq_true] at hv
          rw [Pattern.bind]
          apply (l.resolve_ground henv).bind
          intro expected _
          split
          · exact p.bind_ground henv hv.2
          · trivial
      | _ => trivial
  | .variantBy part => by
      cases v with
      | variant found payload =>
          simp only [Value.isGround, Bool.and_eq_true] at hv
          rw [Pattern.bind]
          cases part.resolveLabel env with
          | ok expected =>
              show Meets _ _ (ite _ _ _)
              split
              · exact part.bind_ground henv hv.2
              · trivial
          | error f => trivial
      | _ => trivial
  | .stray _ => trivial

theorem FieldPatterns.bind_ground {env : Environment} {v : Value} (henv : env.isGround)
    (hv : v.isGround) :
    (ps : FieldPatterns) -> Meets (fun _ => True) (fun env' => env'.isGround) (ps.bind v env)
  | .nil => henv
  | .cons l p rest => by
      rw [FieldPatterns.bind]
      apply (l.resolve_ground henv).bind
      intro label _
      apply (v.field_ground hv label).bind
      intro part hpart
      apply (p.bind_ground henv hpart).bind
      intro env' henv'
      exact rest.bind_ground henv' hv
  | .foreign p rest => by
      rw [FieldPatterns.bind]
      cases p.resolveLabel env with
      | error f => trivial
      | ok label =>
          cases p.pattern with
          | error l => trivial
          | ok q =>
              apply (v.field_ground hv label).bind
              intro part hpart
              apply (p.bind_ground henv hpart).bind
              intro env' henv'
              exact rest.bind_ground henv' hv

theorem Part.bind_ground {env : Environment} {v : Value} (henv : env.isGround)
    (hv : v.isGround) :
    (p : Part) -> Meets (fun _ => True) (fun env' => env'.isGround) (p.bind v env)
  | .fieldPattern _ p | .case _ p _ => p.bind_ground henv hv
  | .field _ _ | .branch _ _ | .labelled _ _ | .stray _ => trivial

end

theorem Box.unpack_ground {b : Box} {code : Computation} {env : Environment}
    (h : b.unpack = .ok (code, env)) : env.isGround := by
  cases b with
  | stray o => cases h
  | mk body self captured =>
      cases h
      cases self with
      | none => rfl
      | some x => exact Table.all_insert (t := Table.empty) x rfl rfl

end PushValue
