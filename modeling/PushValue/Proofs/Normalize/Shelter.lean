import PushValue.Proofs.Normalize.Counting
import PushValue.Settings

/-!
# What normalization does not reach

Patterns and captured boxes stay as they are when a computation is normalized, and so do the
operands in them.  All other operands are moved out.  The operands that are left, at any position,
are therefore exactly those that stood in these places, and a computation is free of operands
afterwards exactly if there were none.
-/

namespace PushValue

/-!
## Operands at any position
-/

mutual

/-- The operands in a value, wherever they stand: those inside operands, in the code of boxes, in
captured boxes and in the labels of patterns are among them. -/
def Value.everyOperand : Value -> List Computation
  | .number _ | .symbol _ | .pointer _ | .process _ | .variable _ | .stray _ => []
  | .variant l p => l.everyOperand ++ p.everyOperand
  | .record fs => fs.everyOperand
  | .extend b l v => b.everyOperand ++ (l.everyOperand ++ v.everyOperand)
  | .extendBy b p => b.everyOperand ++ p.everyOperand
  | .box b => b.everyOperand
  | .operand e => e :: e.everyOperand

def Fields.everyOperand : Fields -> List Computation
  | .nil => []
  | .cons l v rest => l.everyOperand ++ (v.everyOperand ++ rest.everyOperand)
  | .foreign p rest => p.everyOperand ++ rest.everyOperand

def Box.everyOperand : Box -> List Computation
  | .mk code _ captured => captured.everyOperand ++ code.everyOperand
  | .stray _ => []

def Boxes.everyOperand : Boxes -> List Computation
  | .nil => []
  | .cons _ b rest => b.everyOperand ++ rest.everyOperand

def Pattern.everyOperand : Pattern -> List Computation
  | .ignore | .variable _ | .stray _ => []
  | .fields ps => ps.everyOperand
  | .variant l p => l.everyOperand ++ p.everyOperand
  | .variantBy p => p.everyOperand

def FieldPatterns.everyOperand : FieldPatterns -> List Computation
  | .nil => []
  | .cons l p rest => l.everyOperand ++ (p.everyOperand ++ rest.everyOperand)
  | .foreign p rest => p.everyOperand ++ rest.everyOperand

def Computation.everyOperand : Computation -> List Computation
  | .hole | .stray _ => []
  | .ret v | .returned v | .extract v | .get v | .link v => v.everyOperand
  | .put a b | .assert a _ b => a.everyOperand ++ b.everyOperand
  | .nest v e | .spawn v e | .apply e v | .project e v => v.everyOperand ++ e.everyOperand
  | .lambda p e => p.everyOperand ++ e.everyOperand
  | .bind p e₁ e₂ | .bindBox p e₁ e₂ => p.everyOperand ++ (e₁.everyOperand ++ e₂.everyOperand)
  | .switch v cs => v.everyOperand ++ cs.everyOperand
  | .branches bs => bs.everyOperand

def Cases.everyOperand : Cases -> List Computation
  | .nil => []
  | .cons l p e rest =>
      p.everyOperand ++ (l.everyOperand ++ (e.everyOperand ++ rest.everyOperand))
  | .foreign p rest => p.everyOperand ++ rest.everyOperand

def Branches.everyOperand : Branches -> List Computation
  | .nil => []
  | .cons l e rest => l.everyOperand ++ (e.everyOperand ++ rest.everyOperand)
  | .foreign p rest => p.everyOperand ++ rest.everyOperand

def Part.everyOperand : Part -> List Computation
  | .field l v => l.everyOperand ++ v.everyOperand
  | .fieldPattern l p => l.everyOperand ++ p.everyOperand
  | .case l p e => p.everyOperand ++ (l.everyOperand ++ e.everyOperand)
  | .branch l e => l.everyOperand ++ e.everyOperand
  | .labelled l _ => l.everyOperand
  | .stray _ => []

end

mutual

/-- The operands in the patterns and captured boxes of a value. -/
def Value.keptOperands : Value -> List Computation
  | .number _ | .symbol _ | .pointer _ | .process _ | .variable _ | .stray _ => []
  | .variant l p => l.keptOperands ++ p.keptOperands
  | .record fs => fs.keptOperands
  | .extend b l v => b.keptOperands ++ (l.keptOperands ++ v.keptOperands)
  | .extendBy b p => b.keptOperands ++ p.keptOperands
  | .box b => b.keptOperands
  | .operand e => e.keptOperands

def Fields.keptOperands : Fields -> List Computation
  | .nil => []
  | .cons l v rest => l.keptOperands ++ (v.keptOperands ++ rest.keptOperands)
  | .foreign p rest => p.keptOperands ++ rest.keptOperands

def Box.keptOperands : Box -> List Computation
  | .mk code _ captured => captured.everyOperand ++ code.keptOperands
  | .stray _ => []

def Computation.keptOperands : Computation -> List Computation
  | .hole | .stray _ => []
  | .ret v | .returned v | .extract v | .get v | .link v => v.keptOperands
  | .put a b | .assert a _ b => a.keptOperands ++ b.keptOperands
  | .nest v e | .spawn v e | .apply e v | .project e v => v.keptOperands ++ e.keptOperands
  | .lambda p e => p.everyOperand ++ e.keptOperands
  | .bind p e₁ e₂ | .bindBox p e₁ e₂ => p.everyOperand ++ (e₁.keptOperands ++ e₂.keptOperands)
  | .switch v cs => v.keptOperands ++ cs.keptOperands
  | .branches bs => bs.keptOperands

def Cases.keptOperands : Cases -> List Computation
  | .nil => []
  | .cons l p e rest => p.everyOperand ++ (l.keptOperands ++ (e.keptOperands ++ rest.keptOperands))
  | .foreign p rest => p.keptOperands ++ rest.keptOperands

def Branches.keptOperands : Branches -> List Computation
  | .nil => []
  | .cons l e rest => l.keptOperands ++ (e.keptOperands ++ rest.keptOperands)
  | .foreign p rest => p.keptOperands ++ rest.keptOperands

def Part.keptOperands : Part -> List Computation
  | .field l v => l.keptOperands ++ v.keptOperands
  | .fieldPattern l p => l.keptOperands ++ p.everyOperand
  | .case l p e => p.everyOperand ++ (l.keptOperands ++ e.keptOperands)
  | .branch l e => l.keptOperands ++ e.keptOperands
  | .labelled l _ => l.keptOperands
  | .stray _ => []

end

/-- Of all operands a number is reached by normalization, and the others are kept. -/
def Hoist.Divides (all : List Computation) (reached : Nat) (kept : List Computation) : Prop :=
  all.length = reached + kept.length

namespace Hoist.Divides

variable {as as' es es' : List Computation} {m n : Nat}

theorem pair (ha : Divides as m as') (he : Divides es n es') :
    Divides (as ++ es) (m + n) (as' ++ es') := by
  unfold Divides at ha he ⊢
  rw [List.length_append, List.length_append, ha, he]
  omega

theorem none : Divides [] 0 [] := rfl

theorem kept : Divides as 0 as := (Nat.zero_add _).symm

theorem beside (he : Divides es n es') : Divides (as ++ es) n (as ++ es') := by
  have h := pair (kept : Divides as 0 as) he
  rw [Nat.zero_add] at h
  exact h

theorem operand (he : Divides es n es') (e : Computation) : Divides (e :: es) (n + 1) es' := by
  unfold Divides at he ⊢
  rw [List.length_cons, he]
  omega

end Hoist.Divides

section Divides

open Hoist

mutual

theorem Value.divides : (v : Value) -> Divides v.everyOperand v.operandCount v.keptOperands
  | .number _ | .symbol _ | .pointer _ | .process _ | .variable _ | .stray _ => .none
  | .variant l p => l.divides.pair p.divides
  | .record fs => fs.divides
  | .extend b l v => b.divides.pair (l.divides.pair v.divides)
  | .extendBy b p => b.divides.pair p.divides
  | .box b => b.divides
  | .operand e => e.divides.operand e

theorem Fields.divides :
    (fs : Fields) -> Divides fs.everyOperand fs.operandCount fs.keptOperands
  | .nil => .none
  | .cons l v rest => l.divides.pair (v.divides.pair rest.divides)
  | .foreign p rest => p.divides.pair rest.divides

theorem Box.divides : (b : Box) -> Divides b.everyOperand b.operandCount b.keptOperands
  | .mk code _ _ => code.divides.beside
  | .stray _ => .none

theorem Computation.divides :
    (e : Computation) -> Divides e.everyOperand e.operandCount e.keptOperands
  | .hole | .stray _ => .none
  | .ret v | .returned v | .extract v | .get v | .link v => v.divides
  | .put a b | .assert a _ b => a.divides.pair b.divides
  | .nest v e | .spawn v e | .apply e v | .project e v => v.divides.pair e.divides
  | .lambda _ e => e.divides.beside
  | .bind _ e₁ e₂ | .bindBox _ e₁ e₂ => (e₁.divides.pair e₂.divides).beside
  | .switch v cs => v.divides.pair cs.divides
  | .branches bs => bs.divides

theorem Cases.divides :
    (cs : Cases) -> Divides cs.everyOperand cs.operandCount cs.keptOperands
  | .nil => .none
  | .cons l _ e rest => (l.divides.pair (e.divides.pair rest.divides)).beside
  | .foreign p rest => p.divides.pair rest.divides

theorem Branches.divides :
    (bs : Branches) -> Divides bs.everyOperand bs.operandCount bs.keptOperands
  | .nil => .none
  | .cons l e rest => l.divides.pair (e.divides.pair rest.divides)
  | .foreign p rest => p.divides.pair rest.divides

theorem Part.divides : (p : Part) -> Divides p.everyOperand p.operandCount p.keptOperands
  | .field l v => l.divides.pair v.divides
  | .fieldPattern l _ => l.divides.pair .kept
  | .case l _ e => (l.divides.pair e.divides).beside
  | .branch l e => l.divides.pair e.divides
  | .labelled l _ => l.divides
  | .stray _ => .none

end

end Divides

/-!
## Closing bindings
-/

def Binding.everyOperand (bs : List Binding) : List Computation :=
  bs.flatMap fun b => b.bound.everyOperand

theorem Binding.everyOperand_append (bs cs : List Binding) :
    Binding.everyOperand (bs ++ cs) = Binding.everyOperand bs ++ Binding.everyOperand cs :=
  List.flatMap_append

theorem Computation.everyOperand_close (e : Computation) (bs : List Binding) :
    (e.close bs).everyOperand.Perm (e.everyOperand ++ Binding.everyOperand bs) :=
  perm_close everyOperand (fun _ _ _ => rfl) e bs

/-!
## Hoisting keeps what it does not reach
-/

/-- The operands that are left in a term and in open bindings are those to be kept, in some order. -/
def Hoist.Spares (bs : List Binding) (left kept : List Computation) : Prop :=
  (left ++ Binding.everyOperand bs).Perm kept

namespace Hoist.Spares

variable {bs cs ds : List Binding} {as as' es es' os os' : List Computation}

theorem of_closed (h : as.Perm as') : Spares [] as as' :=
  (List.Perm.of_eq (List.append_nil as)).trans h

theorem none : Spares [] [] [] := of_closed (.refl _)

theorem pair (ha : Spares bs as as') (he : Spares cs es es') :
    Spares (bs ++ cs) (as ++ es) (as' ++ es') := by
  rw [Spares, Binding.everyOperand_append]
  exact (perm_regroup _ _ _ _).trans (List.Perm.append ha he)

theorem triple (ha : Spares bs as as') (he : Spares cs es es') (ho : Spares ds os os') :
    Spares (bs ++ cs ++ ds) (as ++ (es ++ os)) (as' ++ (es' ++ os')) := by
  rw [List.append_assoc]
  exact ha.pair (he.pair ho)

theorem pairClosed (ha : Spares bs as as') (he : Spares [] es es') :
    Spares bs (as ++ es) (as' ++ es') := by
  rw [← List.append_nil bs]
  exact ha.pair he

theorem tripleClosed (ha : Spares bs as as') (he : Spares [] es es') (ho : Spares ds os os') :
    Spares (bs ++ ds) (as ++ (es ++ os)) (as' ++ (es' ++ os')) :=
  ha.pair (he.pair ho)

theorem beside (he : Spares bs es es') : Spares bs (as ++ es) (as ++ es') :=
  (of_closed (.refl as)).pair he

theorem close {e : Computation} (h : Spares bs e.everyOperand as') :
    Spares [] (e.close bs).everyOperand as' :=
  of_closed ((e.everyOperand_close bs).trans h)

theorem operand {e : Computation} (h : Spares bs e.everyOperand as') (x : String) :
    Spares [⟨x, e.close bs⟩] [] as' := by
  have hbound : Binding.everyOperand [⟨x, e.close bs⟩] = (e.close bs).everyOperand :=
    List.flatMap_singleton _ _
  rw [Spares, List.nil_append, hbound]
  exact (e.everyOperand_close bs).trans h

end Hoist.Spares

section Spares

open Hoist

mutual

/-- Hoisting keeps exactly the operands in the patterns and captured boxes of a value. -/
theorem Value.Hoists.spares {v v' : Value} {ns : List String} {bs : List Binding} :
    v.Hoists False ns v' bs -> Spares bs v'.everyOperand v.keptOperands
  | .number _ | .symbol _ | .pointer _ | .process _ | .variable _ => .none
  | .variant hl hp => hl.spares.pair hp.spares
  | .record hfs => hfs.spares
  | .extend hb hl hv => hb.spares.triple hl.spares hv.spares
  | .box hb => hb.spares
  | .operand x he => he.spares.operand x

theorem Fields.Hoists.spares {fs fs' : Fields} {ns : List String} {bs : List Binding} :
    fs.Hoists False ns fs' bs -> Spares bs fs'.everyOperand fs.keptOperands
  | .nil => .none
  | .cons hl hv hrest => hl.spares.triple hv.spares hrest.spares

theorem Box.Hoists.spares {b b' : Box} {ns : List String} :
    b.Hoists False ns b' -> Spares [] b'.everyOperand b.keptOperands
  | .mk _ _ hcode => hcode.spares.close.beside

theorem Computation.Hoists.spares {e e' : Computation} {ns : List String} {bs : List Binding} :
    e.Hoists False ns e' bs -> Spares bs e'.everyOperand e.keptOperands
  | .hole => .none
  | .ret hv | .extract hv | .get hv | .link hv => hv.spares
  | .put ha hb | .assert _ ha hb => ha.spares.pair hb.spares
  | .nest hv he | .spawn hv he => hv.spares.pairClosed he.spares.close
  | .apply hv he | .project hv he => hv.spares.pair he.spares
  | .lambda _ he => he.spares.close.beside
  | .bind _ he₁ he₂ | .bindBox _ he₁ he₂ => (he₁.spares.close.pair he₂.spares.close).beside
  | .switch hv hcases => hv.spares.pair hcases.spares
  | .branches hbs => hbs.spares

theorem Cases.Hoists.spares {cs cs' : Cases} {ns : List String} {bs : List Binding} :
    cs.Hoists False ns cs' bs -> Spares bs cs'.everyOperand cs.keptOperands
  | .nil => .none
  | .cons _ hl he hrest => (hl.spares.tripleClosed he.spares.close hrest.spares).beside

theorem Branches.Hoists.spares {bs bs' : Branches} {ns : List String} {cs : List Binding} :
    bs.Hoists False ns bs' cs -> Spares cs bs'.everyOperand bs.keptOperands
  | .nil => .none
  | .cons hl he hrest => hl.spares.tripleClosed he.spares.close hrest.spares

end

end Spares

/-!
## Normalization
-/

namespace Computation

/-- After normalization of a well-sorted computation without return markers the operands at any
position are those that stood in its patterns and captured boxes, as they were.  The other ones, one
for each name that is drawn, are gone.  So no operand is left exactly if there was none in patterns
and captured boxes. -/
theorem operands_left_exactly (e e' : Computation) (supply rest : NameSupply)
    (he : e.passes .written) (h : e.normalize supply = .ok (e', rest)) :
    e'.everyOperand.Perm e.keptOperands ∧
      e'.everyOperand.length + e.operandCount = e.everyOperand.length ∧
      (e'.everyOperand = [] ↔ e.keptOperands = []) := by
  have hunmixed := e.passes_mono Screen.written_within_unmixed he
  rcases exists_of_normalize (.inr hunmixed) h with ⟨names, hoisted, bs, _, hhoists, rfl⟩
  have hperm : (hoisted.close bs).everyOperand.Perm e.keptOperands :=
    (hoisted.everyOperand_close bs).trans hhoists.spares
  refine ⟨hperm, ?_, ?_⟩
  · have hall : e.everyOperand.length = e.operandCount + e.keptOperands.length := e.divides
    rw [hperm.length_eq, hall, Nat.add_comm]
  · rw [← List.length_eq_zero_iff, hperm.length_eq, List.length_eq_zero_iff]

def operandAsLabel : Computation :=
  .bind (.fields (.cons (.operand (.ret (.symbol (.name "a")))) (.variable "x") .nil))
    (.ret (.record (.cons (.symbol (.name "a")) (.number 1) .nil)))
    (.ret (.operand (.ret (.variable "x"))))

theorem operandAsLabel_operands_left :
    operandAsLabel.passes .written ∧ operandAsLabel.operandCount = 1 ∧
      ∃ e', operandAsLabel.normalize (.listed ["t"]) = .ok (e', .listed []) ∧
        e'.everyOperand.Perm [.ret (.symbol (.name "a"))] ∧ e'.everyOperand.length + 1 = 2 ∧
        e'.everyOperand ≠ [] := by
  rcases operands_left_exactly operandAsLabel _ (.listed ["t"]) (.listed []) rfl rfl with
    ⟨hperm, hlength, hnone⟩
  refine ⟨rfl, rfl, _, rfl, hperm, hlength, ?_⟩
  intro hempty
  cases hnone.mp hempty

def operandInCapturedBox : Computation :=
  .bind .ignore (.ret (.operand (.ret (.number 2))))
    (.bindBox (.variable "f")
      (.ret (.box (.mk (.extract (.variable "k")) none
        (.cons "k" (.mk (.ret (.operand (.ret (.number 1)))) none .nil) .nil))))
      (.extract (.variable "f")))

/-- Normalization is not complete: an operand stays in a captured box and in the label of a pattern,
and the programs fail when they come to it. -/
theorem operandInCapturedBox_operand_left :
    operandInCapturedBox.passes .written ∧ operandAsLabel.passes .written ∧
      (∃ e', operandInCapturedBox.normalize (.counter "_t_" 0) = .ok (e', .counter "_t_" 1) ∧
        e'.everyOperand = [.ret (.number 1)]) ∧
      (∃ e', operandAsLabel.normalize (.counter "_t_" 0) = .ok (e', .counter "_t_" 1) ∧
        e'.everyOperand = [.ret (.symbol (.name "a"))]) ∧
      (∃ run r, World.execute {} 10 operandInCapturedBox = .ok run ∧
        run.world.processes.get? .anonymous = some (.failed r .operandLeft)) ∧
      (∃ run r, World.execute {} 10 operandAsLabel = .ok run ∧
        run.world.processes.get? .anonymous = some (.failed r .operandLeft)) ∧
      ¬ ∀ (e e' : Computation) (supply rest : NameSupply), e.passes .written ->
        e.normalize supply = .ok (e', rest) -> e'.everyOperand = [] := by
  refine ⟨rfl, rfl, ⟨_, rfl, rfl⟩, ⟨_, rfl, rfl⟩, ⟨_, _, rfl, rfl⟩, ⟨_, _, rfl, rfl⟩, ?_⟩
  intro hcomplete
  cases hcomplete operandInCapturedBox _ (.counter "_t_" 0) (.counter "_t_" 1) rfl rfl

end Computation

end PushValue
