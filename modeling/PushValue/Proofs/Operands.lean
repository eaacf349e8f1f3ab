import PushValue.Proofs.Normalize.Hoisting
import PushValue.Proofs.Reference

/-!
# No operand is left

Normalization moves operands out of all the places that it reaches, and the machine makes none.
It does not reach into patterns and among captured boxes.  A program without operands in these
places therefore never meets one while it runs.
-/

namespace PushValue

/-!
## What hoisting leaves

A term passes a screen once it is hoisted if its patterns and captured boxes, which stay as they are,
pass it, and so does the rest apart from operands.  Terms that hoisting refuses do not.
-/

mutual

def Value.passesHoisted (S : Screen) : Value -> Bool
  | .number _ | .variable _ => true
  | .symbol s => S.symbol s
  | .pointer s => S.pointer s
  | .process s => S.process s
  | .variant l p => l.passesHoisted S && p.passesHoisted S
  | .record fs => fs.passesHoisted S
  | .extend b l v => b.passesHoisted S && l.passesHoisted S && v.passesHoisted S
  | .box b => b.passesHoisted S
  | .operand e => e.passesHoisted S
  | .extendBy _ _ | .stray _ => false

def Fields.passesHoisted (S : Screen) : Fields -> Bool
  | .nil => true
  | .cons l v rest => l.passesHoisted S && v.passesHoisted S && rest.passesHoisted S
  | .foreign _ _ => false

def Box.passesHoisted (S : Screen) : Box -> Bool
  | .mk code _ captured => code.passesHoisted S && captured.passes S
  | .stray _ => false

def Computation.passesHoisted (S : Screen) : Computation -> Bool
  | .ret v | .get v | .link v | .extract v => v.passesHoisted S
  | .put a b | .assert a _ b => a.passesHoisted S && b.passesHoisted S
  | .nest v e => v.passesHoisted S && e.passesHoisted S
  | .spawn v e => S.spawn && v.passesHoisted S && e.passesHoisted S
  | .apply e v | .project e v => e.passesHoisted S && v.passesHoisted S
  | .lambda p e => p.passes S && e.passesHoisted S
  | .bind p e₁ e₂ | .bindBox p e₁ e₂ => p.passes S && e₁.passesHoisted S && e₂.passesHoisted S
  | .switch v cs => v.passesHoisted S && cs.passesHoisted S
  | .branches bs => bs.passesHoisted S
  | .hole => S.hole
  | .returned _ | .stray _ => false

def Cases.passesHoisted (S : Screen) : Cases -> Bool
  | .nil => true
  | .cons l p e rest =>
      l.passesHoisted S && p.passes S && e.passesHoisted S && rest.passesHoisted S
  | .foreign _ _ => false

def Branches.passesHoisted (S : Screen) : Branches -> Bool
  | .nil => true
  | .cons l e rest => l.passesHoisted S && e.passesHoisted S && rest.passesHoisted S
  | .foreign p rest => p.passesHoistedBranch S && rest.passesHoisted S

/-- A part among branches loses its pattern. -/
def Part.passesHoistedBranch (S : Screen) : Part -> Bool
  | .case l _ e | .branch l e => l.passesHoisted S && e.passesHoisted S
  | .field _ _ | .fieldPattern _ _ | .labelled _ _ | .stray _ => false

end

section Passing

open Hoist

variable {mixed : Prop} {S : Screen}

mutual

theorem Value.Hoists.passing {v v' : Value} {ns : List String} {bs : List Binding} :
    v.Hoists mixed ns v' bs -> v.passesHoisted S -> Passing S Value.passes (v', bs)
  | .number _, h | .symbol _, h | .pointer _, h | .process _, h | .variable _, h => ⟨h, rfl⟩
  | .variant hl hp, h => by
      simp only [Value.passesHoisted, Bool.and_eq_true] at h
      rcases hl.passing h.1 with ⟨hl, hbs⟩
      rcases hp.passing h.2 with ⟨hp, hcs⟩
      exact ⟨Bool.and_eq_true_iff.mpr ⟨hl, hp⟩, all_append hbs hcs⟩
  | .record hfs, h => hfs.passing h
  | .extend hb hl hv, h => by
      simp only [Value.passesHoisted, Bool.and_eq_true] at h
      rcases hb.passing h.1.1 with ⟨hb, hbs⟩
      rcases hl.passing h.1.2 with ⟨hl, hcs⟩
      rcases hv.passing h.2 with ⟨hv, hds⟩
      refine ⟨?_, all_append (all_append hbs hcs) hds⟩
      simp only [Value.passes, Bool.and_eq_true]
      exact ⟨⟨hb, hl⟩, hv⟩
  | .box hb, h => ⟨hb.passing h, rfl⟩
  | .operand _ he, h => by
      refine ⟨rfl, ?_⟩
      rw [List.all_cons, Bool.and_eq_true]
      exact ⟨Computation.passes_close (he.passing h), rfl⟩

theorem Fields.Hoists.passing {fs fs' : Fields} {ns : List String} {bs : List Binding} :
    fs.Hoists mixed ns fs' bs -> fs.passesHoisted S -> Passing S Fields.passes (fs', bs)
  | .nil, _ => ⟨rfl, rfl⟩
  | .cons hl hv hrest, h => by
      simp only [Fields.passesHoisted, Bool.and_eq_true] at h
      rcases hl.passing h.1.1 with ⟨hl, hbs⟩
      rcases hv.passing h.1.2 with ⟨hv, hcs⟩
      rcases hrest.passing h.2 with ⟨hrest, hds⟩
      refine ⟨?_, all_append (all_append hbs hcs) hds⟩
      simp only [Fields.passes, Bool.and_eq_true]
      exact ⟨⟨hl, hv⟩, hrest⟩

theorem Box.Hoists.passing {b b' : Box} {ns : List String} :
    b.Hoists mixed ns b' -> b.passesHoisted S -> b'.passes S
  | .mk _ _ hcode, h => by
      simp only [Box.passesHoisted, Bool.and_eq_true] at h
      exact Bool.and_eq_true_iff.mpr ⟨Computation.passes_close (hcode.passing h.1), h.2⟩

theorem Computation.Hoists.passing {e e' : Computation} {ns : List String} {bs : List Binding} :
    e.Hoists mixed ns e' bs -> e.passesHoisted S -> Passing S Computation.passes (e', bs)
  | .hole, h => ⟨h, rfl⟩
  | .ret hv, h | .extract hv, h | .get hv, h | .link hv, h => hv.passing h
  | .put ha hb, h | .assert _ ha hb, h => by
      simp only [Computation.passesHoisted, Bool.and_eq_true] at h
      rcases ha.passing h.1 with ⟨ha, hbs⟩
      rcases hb.passing h.2 with ⟨hb, hcs⟩
      exact ⟨Bool.and_eq_true_iff.mpr ⟨ha, hb⟩, all_append hbs hcs⟩
  | .nest hv he, h => by
      simp only [Computation.passesHoisted, Bool.and_eq_true] at h
      rcases hv.passing h.1 with ⟨hv, hbs⟩
      have he := Computation.passes_close (he.passing h.2)
      exact ⟨Bool.and_eq_true_iff.mpr ⟨hv, he⟩, hbs⟩
  | .spawn hv he, h => by
      simp only [Computation.passesHoisted, Bool.and_eq_true] at h
      rcases hv.passing h.1.2 with ⟨hv, hbs⟩
      have he := Computation.passes_close (he.passing h.2)
      refine ⟨?_, hbs⟩
      simp only [Computation.passes, Bool.and_eq_true]
      exact ⟨⟨h.1.1, hv⟩, he⟩
  | .apply hv he, h | .project hv he, h => by
      simp only [Computation.passesHoisted, Bool.and_eq_true] at h
      rcases hv.passing h.2 with ⟨hv, hbs⟩
      rcases he.passing h.1 with ⟨he, hcs⟩
      exact ⟨Bool.and_eq_true_iff.mpr ⟨he, hv⟩, all_append hbs hcs⟩
  | .lambda _ he, h => by
      simp only [Computation.passesHoisted, Bool.and_eq_true] at h
      have he := Computation.passes_close (he.passing h.2)
      exact ⟨Bool.and_eq_true_iff.mpr ⟨h.1, he⟩, rfl⟩
  | .bind _ he₁ he₂, h | .bindBox _ he₁ he₂, h => by
      simp only [Computation.passesHoisted, Bool.and_eq_true] at h
      have he₁ := Computation.passes_close (he₁.passing h.1.2)
      have he₂ := Computation.passes_close (he₂.passing h.2)
      refine ⟨?_, rfl⟩
      simp only [Computation.passes, Bool.and_eq_true]
      exact ⟨⟨h.1.1, he₁⟩, he₂⟩
  | .switch hv hcases, h => by
      simp only [Computation.passesHoisted, Bool.and_eq_true] at h
      rcases hv.passing h.1 with ⟨hv, hbs⟩
      rcases hcases.passing h.2 with ⟨hcases, hcs⟩
      exact ⟨Bool.and_eq_true_iff.mpr ⟨hv, hcases⟩, all_append hbs hcs⟩
  | .branches hbs, h => hbs.passing h

theorem Cases.Hoists.passing {cs cs' : Cases} {ns : List String} {bs : List Binding} :
    cs.Hoists mixed ns cs' bs -> cs.passesHoisted S -> Passing S Cases.passes (cs', bs)
  | .nil, _ => ⟨rfl, rfl⟩
  | .cons _ hl he hrest, h => by
      simp only [Cases.passesHoisted, Bool.and_eq_true] at h
      rcases hl.passing h.1.1.1 with ⟨hl, hbs⟩
      have he := Computation.passes_close (he.passing h.1.2)
      rcases hrest.passing h.2 with ⟨hrest, hds⟩
      refine ⟨?_, all_append hbs hds⟩
      simp only [Cases.passes, Bool.and_eq_true]
      exact ⟨⟨⟨hl, h.1.1.2⟩, he⟩, hrest⟩

theorem Branches.Hoists.passing {bs bs' : Branches} {ns : List String} {cs : List Binding} :
    bs.Hoists mixed ns bs' cs -> bs.passesHoisted S -> Passing S Branches.passes (bs', cs)
  | .nil, _ => ⟨rfl, rfl⟩
  | .cons hl he hrest, h => by
      simp only [Branches.passesHoisted, Bool.and_eq_true] at h
      rcases hl.passing h.1.1 with ⟨hl, hbs⟩
      have he := Computation.passes_close (he.passing h.1.2)
      rcases hrest.passing h.2 with ⟨hrest, hds⟩
      refine ⟨?_, all_append hbs hds⟩
      simp only [Branches.passes, Bool.and_eq_true]
      exact ⟨⟨hl, he⟩, hrest⟩
  | .foreign _ hp hrest, h => by
      simp only [Branches.passesHoisted, Bool.and_eq_true] at h
      rcases hp.passing h.1 with ⟨hl, he, hbs⟩
      rcases hrest.passing h.2 with ⟨hrest, hds⟩
      refine ⟨?_, all_append hbs hds⟩
      simp only [Branches.passes, Bool.and_eq_true]
      exact ⟨⟨hl, he⟩, hrest⟩

theorem Part.Hoists.passing {p : Part} {ns : List String} {l : Value} {e : Computation}
    {bs : List Binding} : p.Hoists mixed ns l e bs -> p.passesHoistedBranch S ->
      l.passes S ∧ e.passes S ∧ bs.all (Binding.passes S)
  | .case _ hl he, h | .branch hl he, h => by
      simp only [Part.passesHoistedBranch, Bool.and_eq_true] at h
      rcases hl.passing h.1 with ⟨hl, hbs⟩
      exact ⟨hl, Computation.passes_close (he.passing h.2), hbs⟩

end

end Passing

theorem World.passes_of_passesHoisted {S : Screen} {settings : Settings} {e : Computation}
    {world : World} (he : e.passesHoisted S) (h : World.ofComputation settings e = .ok world) :
    ∃ body, world = initial body ∧ body.passes S := by
  rcases exists_of_ofComputation h with ⟨e', bs, supply, hoisted, rfl⟩
  rcases e.hoist_draws (.inl trivial) _ _ _ hoisted with ⟨names, _hgives, hhoists⟩
  exact ⟨e'.close bs, rfl, Computation.passes_close (hhoists.passing he)⟩

/-!
## Runs
-/

/-- Terms without operands, also among what is out of place. -/
def Screen.settled : Screen := { without .operand with operand := false }

def Guard.operands : Guard where
  screen _ := .settled
  fault f := f ≠ .operandLeft
  mono _ := .refl _
  hole _ := rfl
  foreign _ := rfl
  within _ _ _ := Screen.without_within (by decide)
  pointer _ _ hs _ := hs
  process _ _ hs _ := hs
  inner := by
    intro L f hf _ heq
    rw [heq] at hf
    cases hf
  duplicateName := by
    intro s h
    cases h
  undefinedEntry := by
    intro L s hs
    right
    intro h
    cases h
  noSuchProcess := by
    intro L s hs
    right
    intro h
    cases h

namespace World

/-- A program that has no operand in a pattern and among captured boxes has none at all while it
runs, not even in a world that a broken round leaves: there is none in the store and in the
computation, the environment, the frames and the traces of any process, or in what it returns, and
no process has failed for an operand that was left. -/
theorem no_operand_left (settings : Settings) (e : Computation) (he : e.passesHoisted .settled)
    (world : World) (hworld : ofComputation settings e = .ok world) (n : Nat) :
    (∀ key v, (world.after n).store.get? key = some v -> v.passes .settled) ∧
      (∀ name p, (world.after n).processes.get? name = some p -> p.passesWhole .settled) ∧
      ∀ name r f, (world.after n).processes.get? name = some (.failed r f) ->
        f ≠ .operandLeft := by
  rcases passes_of_passesHoisted he hworld with ⟨body, rfl, hbody⟩
  have hholds := Guard.operands.holds_after_initial hbody n (.inl ⟨fun _ hv => hv, fun _ hp => hp⟩)
  refine ⟨hholds.1, ?_, ?_⟩
  · intro name p hget
    exact (hholds.2 name p hget).1
  · intro name r f hget
    exact (hholds.2 name _ hget).2 r f rfl

def operandsEverywhere : Computation :=
  .bind (.fields (.cons (.symbol (.name "l")) (.variable "x") .nil))
    (.ret (.record (.cons (.symbol (.name "l"))
      (.operand (.put (.symbol (.name "a")) (.operand (.ret (.number 1))))) .nil)))
    (.bind .ignore
      (.spawn (.symbol (.name "p")) (.link (.operand (.ret (.symbol (.name "a"))))))
      (.bindBox (.variable "f")
        (.ret (.box (.mk (.get (.operand (.get (.operand (.ret (.variable "y")))))) none .nil)))
        (.get (.operand (.get (.variable "x"))))))

theorem operandsEverywhere_no_operand_left :
    operandsEverywhere.passesHoisted .settled ∧
      ∃ world, ofComputation {} operandsEverywhere = .ok world ∧
        (∃ r, (world.after 17).processes.get? .anonymous =
            some (.failed r (.notPointer (.number 1))) ∧
          r.passes .settled ∧ Fault.notPointer (.number 1) ≠ .operandLeft) ∧
        ∃ ts, (world.after 17).processes.get? (.name "p") =
            some (.halted (.pointer (.name "a")) ts) ∧
          (Stage.halted (.pointer (.name "a")) ts).passes .settled := by
  have hnone := no_operand_left {} operandsEverywhere rfl _ rfl 17
  refine ⟨rfl, _, rfl, ⟨_, rfl, ?_, ?_⟩, _, rfl, ?_⟩
  · exact hnone.2.1 .anonymous _ rfl
  · exact hnone.2.2 .anonymous _ _ rfl
  · exact hnone.2.1 (.name "p") _ rfl

end World

end PushValue
