import PushValue.Proofs.Contract
import PushValue.Proofs.Screen.Basic
import PushValue.Settings

/-!
# Normalization under a screen

Normalization of a term that passes a screen gives a term that passes it.  Names are
drawn from a supply that counts, which never ends, so normalization fails only at what
is out of place in a term and at a return marker.
-/

namespace PushValue

/-- The screens that let well-sorted terms without return markers through. -/
structure Screen.Normal (S : Screen) : Prop extends S.Strict where
  returned : S.returned = false

theorem Screen.normal_source : source.Normal where
  toStrict := strict_source
  returned := rfl

namespace Hoist

variable {α β : Type} {S : Screen}

/-- A step of normalization that draws from a counting supply, fails under no normal screen and
has a property otherwise. -/
def Yields (S : Screen) (holds : α -> Prop) (m : Hoist α) : Prop :=
  ∀ base index, Meets (fun _ => ¬ S.Normal)
    (fun out => holds out.1 ∧ ∃ index', out.2 = .counter base index')
    (m (.counter base index))

namespace Yields

variable {holds : α -> Prop}

theorem pure {a : α} (h : holds a) : Yields S holds (Pure.pure a : Hoist α) := by
  intro base index
  exact ⟨h, index, rfl⟩

theorem bind {after : β -> Prop} {m : Hoist α} {f : α -> Hoist β} (hm : Yields S holds m)
    (hf : ∀ a, holds a -> Yields S after (f a)) : Yields S after (m >>= f) := by
  intro base index
  apply Meets.bind (hm base index)
  rintro ⟨a, supply⟩ ⟨ha, index', rfl⟩
  exact hf a ha base index'

theorem throw {e : NormalizeError} (h : ¬ S.Normal) :
    Yields S holds (MonadExcept.throw e : Hoist α) := by
  intro base index
  exact h

theorem fresh : Yields S (fun _ => True) Hoist.fresh := by
  intro base index
  exact ⟨trivial, index + 1, rfl⟩

end Yields

end Hoist

section Refusals

variable {S : Screen}

theorem Screen.not_normal_of_stray {o : Object} (h : S.stray o) : ¬ S.Normal := by
  intro normal
  rw [normal.stray o] at h
  cases h

theorem Screen.not_normal_of_foreign (h : S.foreign) : ¬ S.Normal := by
  intro normal
  rw [normal.foreign] at h
  cases h

end Refusals

/-!
## Bindings
-/

def Binding.passes (S : Screen) (b : Binding) : Bool := b.bound.passes S

def Hoist.Passing {α : Type} (S : Screen) (passes : Screen -> α -> Bool)
    (out : α × List Binding) : Prop :=
  passes S out.1 ∧ out.2.all (Binding.passes S)

theorem Computation.passes_close {S : Screen} {bs : List Binding} {e : Computation}
    (h : Hoist.Passing S Computation.passes (e, bs)) : (e.close bs).passes S := by
  induction bs generalizing e with
  | nil => exact h.1
  | cons b rest ih =>
      rcases h with ⟨he, hbs⟩
      rw [List.all_cons, Bool.and_eq_true] at hbs
      apply ih
      refine ⟨?_, hbs.2⟩
      show (true && b.bound.passes S && e.passes S) = true
      rw [show b.bound.passes S = true from hbs.1, show e.passes S = true from he]
      rfl

theorem Hoist.all_append {S : Screen} {bs cs : List Binding}
    (hbs : bs.all (Binding.passes S)) (hcs : cs.all (Binding.passes S)) :
    (bs ++ cs).all (Binding.passes S) := by
  rw [List.all_append, hbs, hcs]
  rfl

/-!
## All sorts
-/

section Sorts

open Hoist

variable {S : Screen}

mutual

theorem Value.hoist_yields : (v : Value) -> v.passes S ->
    Yields S (Passing S Value.passes) v.hoist
  | .number _, h | .symbol _, h | .pointer _, h | .process _, h | .variable _, h =>
      Yields.pure ⟨h, rfl⟩
  | .variant l p, h => by
      simp only [Value.passes, Bool.and_eq_true] at h
      apply Yields.bind (l.hoist_yields h.1)
      rintro ⟨l', bs⟩ ⟨hl, hbs⟩
      apply Yields.bind (p.hoist_yields h.2)
      rintro ⟨p', cs⟩ ⟨hp, hcs⟩
      apply Yields.pure
      exact ⟨Bool.and_eq_true_iff.mpr ⟨hl, hp⟩, all_append hbs hcs⟩
  | .record fs, h => by
      apply Yields.bind (fs.hoist_yields h)
      rintro ⟨fs', bs⟩ hfs
      exact Yields.pure hfs
  | .extend b l v, h => by
      simp only [Value.passes, Bool.and_eq_true] at h
      apply Yields.bind (b.hoist_yields h.1.1)
      rintro ⟨b', bs⟩ ⟨hb, hbs⟩
      apply Yields.bind (l.hoist_yields h.1.2)
      rintro ⟨l', cs⟩ ⟨hl, hcs⟩
      apply Yields.bind (v.hoist_yields h.2)
      rintro ⟨v', ds⟩ ⟨hv, hds⟩
      apply Yields.pure
      refine ⟨?_, all_append (all_append hbs hcs) hds⟩
      simp only [Value.passes, Bool.and_eq_true]
      exact ⟨⟨hb, hl⟩, hv⟩
  | .extendBy b p, h => by
      simp only [Value.passes, Bool.and_eq_true] at h
      apply Yields.bind (b.hoist_yields h.1.2)
      intro _ _
      apply Yields.bind (p.hoistLabel_yields h.2)
      intro _ _
      exact Yields.throw (Screen.not_normal_of_foreign h.1.1)
  | .box b, h => by
      apply Yields.bind (b.hoist_yields h)
      intro b' hb
      exact Yields.pure ⟨hb, rfl⟩
  | .operand e, h => by
      simp only [Value.passes, Bool.and_eq_true] at h
      apply Yields.bind (e.hoist_yields h.2)
      rintro ⟨e', bs⟩ he
      apply Yields.bind Yields.fresh
      intro x _
      apply Yields.pure
      refine ⟨rfl, ?_⟩
      rw [List.all_cons, Bool.and_eq_true]
      exact ⟨Computation.passes_close he, rfl⟩
  | .stray _, h => Yields.throw (Screen.not_normal_of_stray h)

theorem Fields.hoist_yields : (fs : Fields) -> fs.passes S ->
    Yields S (Passing S Fields.passes) fs.hoist
  | .nil, _ => Yields.pure ⟨rfl, rfl⟩
  | .cons l v rest, h => by
      simp only [Fields.passes, Bool.and_eq_true] at h
      apply Yields.bind (l.hoist_yields h.1.1)
      rintro ⟨l', bs⟩ ⟨hl, hbs⟩
      apply Yields.bind (v.hoist_yields h.1.2)
      rintro ⟨v', cs⟩ ⟨hv, hcs⟩
      apply Yields.bind (rest.hoist_yields h.2)
      rintro ⟨rest', ds⟩ ⟨hrest, hds⟩
      apply Yields.pure
      refine ⟨?_, all_append (all_append hbs hcs) hds⟩
      simp only [Fields.passes, Bool.and_eq_true]
      exact ⟨⟨hl, hv⟩, hrest⟩
  | .foreign p rest, h => by
      simp only [Fields.passes, Bool.and_eq_true] at h
      apply Yields.bind (p.hoistLabel_yields h.1.2)
      intro _ _
      exact Yields.throw (Screen.not_normal_of_foreign h.1.1)

theorem Box.hoist_yields : (b : Box) -> b.passes S ->
    Yields S (fun b' => b'.passes S) b.hoist
  | .mk code self captured, h => by
      simp only [Box.passes, Bool.and_eq_true] at h
      apply Yields.bind (code.hoist_yields h.1)
      rintro ⟨code', bs⟩ hcode
      apply Yields.pure
      exact Bool.and_eq_true_iff.mpr ⟨Computation.passes_close hcode, h.2⟩
  | .stray _, h => Yields.throw (Screen.not_normal_of_stray h)

theorem Computation.hoist_yields : (e : Computation) -> e.passes S ->
    Yields S (Passing S Computation.passes) e.hoist
  | .hole, h => Yields.pure ⟨h, rfl⟩
  | .returned v, h => by
      simp only [Computation.passes, Bool.and_eq_true] at h
      apply Yields.throw
      intro normal
      rw [normal.returned] at h
      cases h.1
  | .ret v, h | .extract v, h | .get v, h | .link v, h => by
      apply Yields.bind (v.hoist_yields h)
      rintro ⟨v', bs⟩ hv
      exact Yields.pure hv
  | .put a b, h | .assert a _ b, h => by
      simp only [Computation.passes, Bool.and_eq_true] at h
      apply Yields.bind (a.hoist_yields h.1)
      rintro ⟨a', bs⟩ ⟨ha, hbs⟩
      apply Yields.bind (b.hoist_yields h.2)
      rintro ⟨b', cs⟩ ⟨hb, hcs⟩
      apply Yields.pure
      exact ⟨Bool.and_eq_true_iff.mpr ⟨ha, hb⟩, all_append hbs hcs⟩
  | .nest v e, h => by
      simp only [Computation.passes, Bool.and_eq_true] at h
      apply Yields.bind (v.hoist_yields h.1)
      rintro ⟨v', bs⟩ ⟨hv, hbs⟩
      apply Yields.bind (e.hoist_yields h.2)
      rintro ⟨e', cs⟩ he
      apply Yields.pure
      exact ⟨Bool.and_eq_true_iff.mpr ⟨hv, Computation.passes_close he⟩, hbs⟩
  | .spawn v e, h => by
      simp only [Computation.passes, Bool.and_eq_true] at h
      apply Yields.bind (v.hoist_yields h.1.2)
      rintro ⟨v', bs⟩ ⟨hv, hbs⟩
      apply Yields.bind (e.hoist_yields h.2)
      rintro ⟨e', cs⟩ he
      apply Yields.pure
      refine ⟨?_, hbs⟩
      simp only [Computation.passes, Bool.and_eq_true]
      exact ⟨⟨h.1.1, hv⟩, Computation.passes_close he⟩
  | .apply e v, h | .project e v, h => by
      simp only [Computation.passes, Bool.and_eq_true] at h
      apply Yields.bind (v.hoist_yields h.2)
      rintro ⟨v', bs⟩ ⟨hv, hbs⟩
      apply Yields.bind (e.hoist_yields h.1)
      rintro ⟨e', cs⟩ ⟨he, hcs⟩
      apply Yields.pure
      exact ⟨Bool.and_eq_true_iff.mpr ⟨he, hv⟩, all_append hbs hcs⟩
  | .lambda p e, h => by
      simp only [Computation.passes, Bool.and_eq_true] at h
      apply Yields.bind (e.hoist_yields h.2)
      rintro ⟨e', bs⟩ he
      apply Yields.pure
      exact ⟨Bool.and_eq_true_iff.mpr ⟨h.1, Computation.passes_close he⟩, rfl⟩
  | .bind p e₁ e₂, h | .bindBox p e₁ e₂, h => by
      simp only [Computation.passes, Bool.and_eq_true] at h
      apply Yields.bind (e₁.hoist_yields h.1.2)
      rintro ⟨e₁', bs⟩ he₁
      apply Yields.bind (e₂.hoist_yields h.2)
      rintro ⟨e₂', cs⟩ he₂
      apply Yields.pure
      refine ⟨?_, rfl⟩
      simp only [Computation.passes, Bool.and_eq_true]
      exact ⟨⟨h.1.1, Computation.passes_close he₁⟩, Computation.passes_close he₂⟩
  | .switch v cases, h => by
      simp only [Computation.passes, Bool.and_eq_true] at h
      apply Yields.bind (v.hoist_yields h.1)
      rintro ⟨v', bs⟩ ⟨hv, hbs⟩
      apply Yields.bind (cases.hoist_yields h.2)
      rintro ⟨cases', cs⟩ ⟨hcases, hcs⟩
      apply Yields.pure
      exact ⟨Bool.and_eq_true_iff.mpr ⟨hv, hcases⟩, all_append hbs hcs⟩
  | .branches alternatives, h => by
      apply Yields.bind (alternatives.hoist_yields h)
      rintro ⟨alternatives', bs⟩ hbs
      exact Yields.pure hbs
  | .stray _, h => Yields.throw (Screen.not_normal_of_stray h)

theorem Cases.hoist_yields : (cs : Cases) -> cs.passes S ->
    Yields S (Passing S Cases.passes) cs.hoist
  | .nil, _ => Yields.pure ⟨rfl, rfl⟩
  | .cons l p e rest, h => by
      simp only [Cases.passes, Bool.and_eq_true] at h
      apply Yields.bind (l.hoist_yields h.1.1.1)
      rintro ⟨l', bs⟩ ⟨hl, hbs⟩
      apply Yields.bind (e.hoist_yields h.1.2)
      rintro ⟨e', cs⟩ he
      apply Yields.bind (rest.hoist_yields h.2)
      rintro ⟨rest', ds⟩ ⟨hrest, hds⟩
      apply Yields.pure
      refine ⟨?_, all_append hbs hds⟩
      simp only [Cases.passes, Bool.and_eq_true]
      exact ⟨⟨⟨hl, h.1.1.2⟩, Computation.passes_close he⟩, hrest⟩
  | .foreign p rest, h => by
      simp only [Cases.passes, Bool.and_eq_true] at h
      apply Yields.bind (p.hoistLabel_yields h.1.2)
      intro _ _
      exact Yields.throw (Screen.not_normal_of_foreign h.1.1)

theorem Branches.hoist_yields : (bs : Branches) -> bs.passes S ->
    Yields S (Passing S Branches.passes) bs.hoist
  | .nil, _ => Yields.pure ⟨rfl, rfl⟩
  | .cons l e rest, h => by
      simp only [Branches.passes, Bool.and_eq_true] at h
      apply Yields.bind (l.hoist_yields h.1.1)
      rintro ⟨l', bs⟩ ⟨hl, hbs⟩
      apply Yields.bind (e.hoist_yields h.1.2)
      rintro ⟨e', cs⟩ he
      apply Yields.bind (rest.hoist_yields h.2)
      rintro ⟨rest', ds⟩ ⟨hrest, hds⟩
      apply Yields.pure
      refine ⟨?_, all_append hbs hds⟩
      simp only [Branches.passes, Bool.and_eq_true]
      exact ⟨⟨hl, Computation.passes_close he⟩, hrest⟩
  | .foreign p rest, h => by
      simp only [Branches.passes, Bool.and_eq_true] at h
      apply Yields.bind (p.hoistBranch_yields h.1.1 h.1.2)
      rintro ⟨l', e', bs⟩ ⟨hl, he, hbs⟩
      apply Yields.bind (rest.hoist_yields h.2)
      rintro ⟨rest', ds⟩ ⟨hrest, hds⟩
      apply Yields.pure
      refine ⟨?_, all_append hbs hds⟩
      simp only [Branches.passes, Bool.and_eq_true]
      exact ⟨⟨hl, he⟩, hrest⟩

theorem Part.hoistLabel_yields : (p : Part) -> p.passes S ->
    Yields S (Passing S Value.passes) p.hoistLabel
  | .field l _, h | .fieldPattern l _, h | .branch l _, h | .labelled l _, h => by
      simp only [Part.passes, Bool.and_eq_true] at h
      exact l.hoist_yields h.1
  | .case l _ _, h => by
      simp only [Part.passes, Bool.and_eq_true] at h
      exact l.hoist_yields h.1.1
  | .stray _, h => Yields.throw (Screen.not_normal_of_stray h)

theorem Part.hoistBranch_yields (hforeign : S.foreign) : (p : Part) -> p.passes S ->
    Yields S (fun out => out.1.passes S ∧ out.2.1.passes S ∧ out.2.2.all (Binding.passes S))
      p.hoistBranch
  | .case l _ e, h => by
      simp only [Part.passes, Bool.and_eq_true] at h
      apply Yields.bind (l.hoist_yields h.1.1)
      rintro ⟨l', bs⟩ ⟨hl, hbs⟩
      apply Yields.bind (e.hoist_yields h.2)
      rintro ⟨e', cs⟩ he
      exact Yields.pure ⟨hl, Computation.passes_close he, hbs⟩
  | .branch l e, h => by
      simp only [Part.passes, Bool.and_eq_true] at h
      apply Yields.bind (l.hoist_yields h.1)
      rintro ⟨l', bs⟩ ⟨hl, hbs⟩
      apply Yields.bind (e.hoist_yields h.2)
      rintro ⟨e', cs⟩ he
      exact Yields.pure ⟨hl, Computation.passes_close he, hbs⟩
  | .field l _, h | .fieldPattern l _, h | .labelled l _, h => by
      simp only [Part.passes, Bool.and_eq_true] at h
      apply Yields.bind (l.hoist_yields h.1)
      intro _ _
      exact Yields.throw (Screen.not_normal_of_foreign hforeign)
  | .stray _, h => Yields.throw (Screen.not_normal_of_stray h)

end

end Sorts

/-!
## Worlds of normalized computations
-/

theorem World.exists_of_ofComputation {settings : Settings} {e : Computation} {world : World}
    (h : World.ofComputation settings e = .ok world) :
    ∃ e' bs supply, e.hoist (.counter settings.nameBase 0) = .ok ((e', bs), supply) ∧
      world = initial (e'.close bs) := by
  unfold ofComputation Computation.normalize at h
  rw [StateT.run] at h
  cases hoisted : e.hoist (.counter settings.nameBase 0) with
  | error err =>
      rw [hoisted] at h
      cases h
  | ok out =>
      rcases out with ⟨⟨e', bs⟩, supply⟩
      rw [hoisted] at h
      cases h
      exact ⟨e', bs, supply, rfl, rfl⟩

theorem World.passes_of_ofComputation {S : Screen} {settings : Settings} {e : Computation}
    {world : World} (he : e.passes S) (h : World.ofComputation settings e = .ok world) :
    ∃ body, world = initial body ∧ body.passes S := by
  rcases exists_of_ofComputation h with ⟨e', bs, supply, hoisted, rfl⟩
  have hyields := e.hoist_yields he settings.nameBase 0
  rw [hoisted] at hyields
  exact ⟨e'.close bs, rfl, Computation.passes_close hyields.1⟩

/-- Under a normal screen normalization succeeds, and what it makes passes. -/
theorem World.exists_ofComputation {S : Screen} (normal : S.Normal) (settings : Settings)
    {e : Computation} (he : e.passes S) :
    ∃ e', World.ofComputation settings e = .ok (initial e') ∧ e'.passes S := by
  have hyields := e.hoist_yields he settings.nameBase 0
  cases hoisted : e.hoist (.counter settings.nameBase 0) with
  | error err =>
      rw [hoisted] at hyields
      exact absurd normal hyields
  | ok out =>
      rcases out with ⟨⟨e', bs⟩, supply⟩
      rw [hoisted] at hyields
      refine ⟨e'.close bs, ?_, Computation.passes_close hyields.1⟩
      unfold ofComputation Computation.normalize
      rw [StateT.run, hoisted]
      rfl

end PushValue
