import PushValue.Proofs.Normalize.Hoisting
import PushValue.Term.Operand

/-!
# Normal forms

Normalization leaves no operand, and a term without operands it leaves alone: to normalize
what was normalized gives the same term back and draws no name.  The search for
operands and the hoisting of operands go through a term independently of each other, and they agree:
names are drawn exactly when an operand is found.
-/

namespace PushValue

/-!
## Terms in normal form
-/

def Value.Normal (v : Value) : Prop := v.hasOperand = false ∧ v.hoist = pure (v, [])

def Fields.Normal (fs : Fields) : Prop := fs.hasOperand = false ∧ fs.hoist = pure (fs, [])

def Box.Normal (b : Box) : Prop := b.hasOperand = false ∧ b.hoist = pure b

def Computation.Normal (e : Computation) : Prop := e.hasOperand = false ∧ e.hoist = pure (e, [])

def Cases.Normal (cs : Cases) : Prop := cs.hasOperand = false ∧ cs.hoist = pure (cs, [])

def Branches.Normal (bs : Branches) : Prop := bs.hasOperand = false ∧ bs.hoist = pure (bs, [])

theorem Computation.Normal.bind {e₁ e₂ : Computation} (he₁ : e₁.Normal) (he₂ : e₂.Normal)
    (p : Pattern) : (Computation.bind p e₁ e₂).Normal := by
  constructor
  · simp [hasOperand, he₁.1, he₂.1]
  · rw [hoist, he₁.2, he₂.2]
    rfl

theorem Computation.Normal.close {e : Computation} {bs : List Binding} (he : e.Normal)
    (hbs : ∀ b ∈ bs, b.bound.Normal) : (e.close bs).Normal := by
  induction bs generalizing e with
  | nil => exact he
  | cons b rest ih =>
      rw [List.forall_mem_cons] at hbs
      exact ih (hbs.1.bind he _) hbs.2

section Results

variable {mixed : Prop}

mutual

theorem Value.Hoists.normal {v v' : Value} {ns : List String} {bs : List Binding} :
    v.Hoists mixed ns v' bs -> v'.Normal ∧ ∀ b ∈ bs, b.bound.Normal
  | .number n | .symbol s | .pointer s | .process s | .variable x => ⟨⟨rfl, rfl⟩, by simp⟩
  | .variant hl hp => by
      rcases hl.normal with ⟨hl, hbs⟩
      rcases hp.normal with ⟨hp, hcs⟩
      refine ⟨⟨?_, ?_⟩, List.forall_mem_append.mpr ⟨hbs, hcs⟩⟩
      · simp [Value.hasOperand, hl.1, hp.1]
      · rw [Value.hoist, hl.2, hp.2]
        rfl
  | .record hfs => by
      rcases hfs.normal with ⟨hfs, hbs⟩
      refine ⟨⟨hfs.1, ?_⟩, hbs⟩
      rw [Value.hoist, hfs.2]
      rfl
  | .extend hb hl hv => by
      rcases hb.normal with ⟨hb, hbs⟩
      rcases hl.normal with ⟨hl, hcs⟩
      rcases hv.normal with ⟨hv, hds⟩
      refine ⟨⟨?_, ?_⟩, List.forall_mem_append.mpr ⟨List.forall_mem_append.mpr ⟨hbs, hcs⟩, hds⟩⟩
      · simp [Value.hasOperand, hb.1, hl.1, hv.1]
      · rw [Value.hoist, hb.2, hl.2, hv.2]
        rfl
  | .box hb => by
      refine ⟨⟨hb.normal.1, ?_⟩, by simp⟩
      rw [Value.hoist, hb.normal.2]
      rfl
  | .operand x he => by
      rcases he.normal with ⟨he, hbs⟩
      exact ⟨⟨rfl, rfl⟩, List.forall_mem_singleton.mpr (he.close hbs)⟩

theorem Fields.Hoists.normal {fs fs' : Fields} {ns : List String} {bs : List Binding} :
    fs.Hoists mixed ns fs' bs -> fs'.Normal ∧ ∀ b ∈ bs, b.bound.Normal
  | .nil => ⟨⟨rfl, rfl⟩, by simp⟩
  | .cons hl hv hrest => by
      rcases hl.normal with ⟨hl, hbs⟩
      rcases hv.normal with ⟨hv, hcs⟩
      rcases hrest.normal with ⟨hrest, hds⟩
      refine ⟨⟨?_, ?_⟩, List.forall_mem_append.mpr ⟨List.forall_mem_append.mpr ⟨hbs, hcs⟩, hds⟩⟩
      · simp [Fields.hasOperand, hl.1, hv.1, hrest.1]
      · rw [Fields.hoist, hl.2, hv.2, hrest.2]
        rfl

theorem Box.Hoists.normal {b b' : Box} {ns : List String} : b.Hoists mixed ns b' -> b'.Normal
  | .mk self captured hcode => by
      have hcode := hcode.normal.1.close hcode.normal.2
      refine ⟨hcode.1, ?_⟩
      rw [Box.hoist, hcode.2]
      rfl

theorem Computation.Hoists.normal {e e' : Computation} {ns : List String} {bs : List Binding} :
    e.Hoists mixed ns e' bs -> e'.Normal ∧ ∀ b ∈ bs, b.bound.Normal
  | .hole => ⟨⟨rfl, rfl⟩, by simp⟩
  | .ret hv | .extract hv | .get hv | .link hv => by
      rcases hv.normal with ⟨hv, hbs⟩
      refine ⟨⟨hv.1, ?_⟩, hbs⟩
      rw [Computation.hoist, hv.2]
      rfl
  | .put ha hb | .assert equal ha hb => by
      rcases ha.normal with ⟨ha, hbs⟩
      rcases hb.normal with ⟨hb, hcs⟩
      refine ⟨⟨?_, ?_⟩, List.forall_mem_append.mpr ⟨hbs, hcs⟩⟩
      · simp [Computation.hasOperand, ha.1, hb.1]
      · rw [Computation.hoist, ha.2, hb.2]
        rfl
  | .nest hv he | .spawn hv he => by
      rcases hv.normal with ⟨hv, hbs⟩
      have he := he.normal.1.close he.normal.2
      refine ⟨⟨?_, ?_⟩, hbs⟩
      · simp [Computation.hasOperand, hv.1, he.1]
      · rw [Computation.hoist, hv.2, he.2]
        rfl
  | .apply hv he | .project hv he => by
      rcases hv.normal with ⟨hv, hbs⟩
      rcases he.normal with ⟨he, hcs⟩
      refine ⟨⟨?_, ?_⟩, List.forall_mem_append.mpr ⟨hbs, hcs⟩⟩
      · simp [Computation.hasOperand, hv.1, he.1]
      · rw [Computation.hoist, hv.2, he.2]
        rfl
  | .lambda p he => by
      have he := he.normal.1.close he.normal.2
      refine ⟨⟨he.1, ?_⟩, by simp⟩
      rw [Computation.hoist, he.2]
      rfl
  | .bind p he₁ he₂ => by
      have he₁ := he₁.normal.1.close he₁.normal.2
      have he₂ := he₂.normal.1.close he₂.normal.2
      exact ⟨he₁.bind he₂ p, by simp⟩
  | .bindBox p he₁ he₂ => by
      have he₁ := he₁.normal.1.close he₁.normal.2
      have he₂ := he₂.normal.1.close he₂.normal.2
      refine ⟨⟨?_, ?_⟩, by simp⟩
      · simp [Computation.hasOperand, he₁.1, he₂.1]
      · rw [Computation.hoist, he₁.2, he₂.2]
        rfl
  | .switch hv hcases => by
      rcases hv.normal with ⟨hv, hbs⟩
      rcases hcases.normal with ⟨hcases, hcs⟩
      refine ⟨⟨?_, ?_⟩, List.forall_mem_append.mpr ⟨hbs, hcs⟩⟩
      · simp [Computation.hasOperand, hv.1, hcases.1]
      · rw [Computation.hoist, hv.2, hcases.2]
        rfl
  | .branches hbs => by
      rcases hbs.normal with ⟨hbs, hcs⟩
      refine ⟨⟨hbs.1, ?_⟩, hcs⟩
      rw [Computation.hoist, hbs.2]
      rfl

theorem Cases.Hoists.normal {cs cs' : Cases} {ns : List String} {bs : List Binding} :
    cs.Hoists mixed ns cs' bs -> cs'.Normal ∧ ∀ b ∈ bs, b.bound.Normal
  | .nil => ⟨⟨rfl, rfl⟩, by simp⟩
  | .cons p hl he hrest => by
      rcases hl.normal with ⟨hl, hbs⟩
      have he := he.normal.1.close he.normal.2
      rcases hrest.normal with ⟨hrest, hds⟩
      refine ⟨⟨?_, ?_⟩, List.forall_mem_append.mpr ⟨hbs, hds⟩⟩
      · simp [Cases.hasOperand, hl.1, he.1, hrest.1]
      · rw [Cases.hoist, hl.2, he.2, hrest.2]
        rfl

theorem Branches.Hoists.normal {bs bs' : Branches} {ns : List String} {cs : List Binding} :
    bs.Hoists mixed ns bs' cs -> bs'.Normal ∧ ∀ b ∈ cs, b.bound.Normal
  | .nil => ⟨⟨rfl, rfl⟩, by simp⟩
  | .cons hl he hrest => by
      rcases hl.normal with ⟨hl, hbs⟩
      have he := he.normal.1.close he.normal.2
      rcases hrest.normal with ⟨hrest, hds⟩
      refine ⟨⟨?_, ?_⟩, List.forall_mem_append.mpr ⟨hbs, hds⟩⟩
      · simp [Branches.hasOperand, hl.1, he.1, hrest.1]
      · rw [Branches.hoist, hl.2, he.2, hrest.2]
        rfl
  | .foreign hmixed hp hrest => by
      rcases hp.normal with ⟨hl, he, hbs⟩
      rcases hrest.normal with ⟨hrest, hds⟩
      refine ⟨⟨?_, ?_⟩, List.forall_mem_append.mpr ⟨hbs, hds⟩⟩
      · simp [Branches.hasOperand, hl.1, he.1, hrest.1]
      · rw [Branches.hoist, hl.2, he.2, hrest.2]
        rfl

theorem Part.Hoists.normal {p : Part} {ns : List String} {l : Value} {e : Computation}
    {bs : List Binding} :
    p.Hoists mixed ns l e bs -> l.Normal ∧ e.Normal ∧ ∀ b ∈ bs, b.bound.Normal
  | .case q hl he | .branch hl he =>
      ⟨hl.normal.1, he.normal.1.close he.normal.2, hl.normal.2⟩

end

end Results

/-!
## Names and operands
-/

/-- How hoisting a term agrees with the search for operands in it.  If nothing is mixed, the term
stays the same unless a name is drawn. -/
structure Hoist.Agrees {α : Type} (mixed : Prop) (found : Bool) (ns : List String)
    (bs : List Binding) (a a' : α) : Prop where
  names : found = false ↔ ns = []
  bindings : ns = [] -> bs = []
  term : ¬ mixed -> ns = [] -> a' = a

namespace Hoist.Agrees

variable {α β γ δ : Type} {mixed : Prop} {found found₁ found₂ : Bool} {ns ms ks : List String}
  {bs cs ds : List Binding} {a a' : α} {b b' : β} {c c' : γ}

theorem still (a : α) : Agrees mixed false [] [] a a := by
  constructor <;> simp

theorem map (ha : Agrees mixed found ns bs a a') (f : α -> β) :
    Agrees mixed found ns bs (f a) (f a') where
  names := ha.names
  bindings := ha.bindings
  term := by
    intro hunmixed hnone
    rw [ha.term hunmixed hnone]

theorem pair (ha : Agrees mixed found ns bs a a') (hb : Agrees mixed found₁ ms cs b b')
    (f : α -> β -> γ) :
    Agrees mixed (found || found₁) (ns ++ ms) (bs ++ cs) (f a b) (f a' b') where
  names := by rw [Bool.or_eq_false_iff, ha.names, hb.names, List.append_eq_nil_iff]
  bindings := by
    intro hnone
    rcases List.append_eq_nil_iff.mp hnone with ⟨hns, hms⟩
    rw [ha.bindings hns, hb.bindings hms, List.append_nil]
  term := by
    intro hunmixed hnone
    rcases List.append_eq_nil_iff.mp hnone with ⟨hns, hms⟩
    rw [ha.term hunmixed hns, hb.term hunmixed hms]

theorem swap (ha : Agrees mixed (found || found₁) ns bs a a') :
    Agrees mixed (found₁ || found) ns bs a a' := by
  rw [Bool.or_comm]
  exact ha

theorem triple (ha : Agrees mixed found ns bs a a') (hb : Agrees mixed found₁ ms cs b b')
    (hc : Agrees mixed found₂ ks ds c c') (f : α -> β -> γ -> δ) :
    Agrees mixed (found || found₁ || found₂) (ns ++ (ms ++ ks)) (bs ++ cs ++ ds)
      (f a b c) (f a' b' c') := by
  rw [← List.append_assoc]
  exact (ha.pair hb Prod.mk).pair hc fun ab c => f ab.1 ab.2 c

theorem closed {e e' : Computation} (he : Agrees mixed found ns bs e e') :
    Agrees mixed found ns [] e (e'.close bs) where
  names := he.names
  bindings _ := rfl
  term := by
    intro hunmixed hnone
    rw [he.bindings hnone, he.term hunmixed hnone, Computation.close_nil]

theorem pairClosed {e e' : Computation} (ha : Agrees mixed found ns bs a a')
    (he : Agrees mixed found₁ ms cs e e') (f : α -> Computation -> γ) :
    Agrees mixed (found || found₁) (ns ++ ms) bs (f a e) (f a' (e'.close cs)) := by
  have hpair := ha.pair he.closed f
  rw [List.append_nil] at hpair
  exact hpair

theorem tripleClosed {e e' : Computation} (ha : Agrees mixed found ns bs a a')
    (he : Agrees mixed found₁ ms cs e e') (hc : Agrees mixed found₂ ks ds c c')
    (f : α -> Computation -> γ -> δ) :
    Agrees mixed (found || found₁ || found₂) (ns ++ (ms ++ ks)) (bs ++ ds)
      (f a e c) (f a' (e'.close cs) c') := by
  have htriple := ha.triple he.closed hc f
  rw [List.append_nil] at htriple
  exact htriple

/-- Where terms are mixed nothing is said about what becomes of them. -/
theorem recast (ha : Agrees mixed found ns bs a a') (hmixed : mixed) :
    Agrees mixed found ns bs b b' where
  names := ha.names
  bindings := ha.bindings
  term hunmixed := absurd hmixed hunmixed

end Hoist.Agrees

section Agreement

open Hoist

variable {mixed : Prop}

mutual

theorem Value.Hoists.agrees {v v' : Value} {ns : List String} {bs : List Binding} :
    v.Hoists mixed ns v' bs -> Agrees mixed v.hasOperand ns bs v v'
  | .number n | .symbol s | .pointer s | .process s | .variable x => .still _
  | .variant hl hp => hl.agrees.pair hp.agrees Value.variant
  | .record hfs => hfs.agrees.map Value.record
  | .extend hb hl hv => hb.agrees.triple hl.agrees hv.agrees Value.extend
  | .box hb => hb.agrees.map Value.box
  | .operand x he => by
      constructor <;> simp [Value.hasOperand]

theorem Fields.Hoists.agrees {fs fs' : Fields} {ns : List String} {bs : List Binding} :
    fs.Hoists mixed ns fs' bs -> Agrees mixed fs.hasOperand ns bs fs fs'
  | .nil => .still _
  | .cons hl hv hrest => hl.agrees.triple hv.agrees hrest.agrees Fields.cons

theorem Box.Hoists.agrees {b b' : Box} {ns : List String} :
    b.Hoists mixed ns b' -> Agrees mixed b.hasOperand ns [] b b'
  | .mk self captured hcode => hcode.agrees.closed.map fun code => Box.mk code self captured

theorem Computation.Hoists.agrees {e e' : Computation} {ns : List String} {bs : List Binding} :
    e.Hoists mixed ns e' bs -> Agrees mixed e.hasOperand ns bs e e'
  | .hole => .still _
  | .ret hv => hv.agrees.map Computation.ret
  | .extract hv => hv.agrees.map Computation.extract
  | .get hv => hv.agrees.map Computation.get
  | .link hv => hv.agrees.map Computation.link
  | .put ha hb => ha.agrees.pair hb.agrees Computation.put
  | .assert equal ha hb => ha.agrees.pair hb.agrees fun a b => Computation.assert a equal b
  | .nest hv he => hv.agrees.pairClosed he.agrees Computation.nest
  | .spawn hv he => hv.agrees.pairClosed he.agrees Computation.spawn
  | .apply hv he => (hv.agrees.pair he.agrees fun v e => Computation.apply e v).swap
  | .project hv he => (hv.agrees.pair he.agrees fun v e => Computation.project e v).swap
  | .lambda p he => he.agrees.closed.map (Computation.lambda p)
  | .bind p he₁ he₂ => he₁.agrees.closed.pair he₂.agrees.closed (Computation.bind p)
  | .bindBox p he₁ he₂ => he₁.agrees.closed.pair he₂.agrees.closed (Computation.bindBox p)
  | .switch hv hcases => hv.agrees.pair hcases.agrees Computation.switch
  | .branches hbs => hbs.agrees.map Computation.branches

theorem Cases.Hoists.agrees {cs cs' : Cases} {ns : List String} {bs : List Binding} :
    cs.Hoists mixed ns cs' bs -> Agrees mixed cs.hasOperand ns bs cs cs'
  | .nil => .still _
  | .cons p hl he hrest =>
      hl.agrees.tripleClosed he.agrees hrest.agrees fun l e rest => Cases.cons l p e rest

theorem Branches.Hoists.agrees {bs bs' : Branches} {ns : List String} {cs : List Binding} :
    bs.Hoists mixed ns bs' cs -> Agrees mixed bs.hasOperand ns cs bs bs'
  | .nil => .still _
  | .cons hl he hrest => hl.agrees.tripleClosed he.agrees hrest.agrees Branches.cons
  | .foreign hmixed hp hrest => (hp.agrees.pair hrest.agrees fun _ rest => rest).recast hmixed

theorem Part.Hoists.agrees {p : Part} {ns : List String} {l : Value} {e : Computation}
    {bs : List Binding} : p.Hoists mixed ns l e bs -> Agrees mixed p.hasOperand ns bs () ()
  | .case q hl he | .branch hl he => hl.agrees.pairClosed he.agrees fun _ _ => ()

end

end Agreement

/-!
## Normalization
-/

namespace Computation

theorem Normal.normalize_eq {e : Computation} (he : e.Normal) (supply : NameSupply) :
    e.normalize supply = .ok (e, supply) := by
  unfold normalize
  rw [he.2]
  rfl

/-- Normalization that succeeds leaves no operand, and to normalize its result changes nothing and
draws no name, from whatever supply.  An operand is found in a computation exactly when
normalization draws a name, and exactly when it changes the computation, if no part of it is out of
place. -/
theorem normalize_normal_form (e e' : Computation) (supply rest : NameSupply)
    (h : e.normalize supply = .ok (e', rest)) :
    e'.hasOperand = false ∧
      (∀ supply₂, e'.normalize supply₂ = .ok (e', supply₂)) ∧
      (∃ names, supply.Gives names rest ∧ (e.hasOperand = false ↔ names = [])) ∧
      (e.passes .unmixed -> (e.hasOperand = false ↔ e' = e)) := by
  -- The rules for mixed terms are there if and only if something is mixed.
  have hrules : ¬ e.passes .unmixed ∨ e.passes .unmixed := (Decidable.em _).symm
  rcases exists_of_normalize hrules h with ⟨names, hoisted, bs, hgives, hhoists, rfl⟩
  have hnormal := hhoists.normal.1.close hhoists.normal.2
  have hagrees := hhoists.agrees.closed
  refine ⟨hnormal.1, hnormal.normalize_eq, ⟨names, hgives, hagrees.names⟩, ?_⟩
  intro hunmixed
  constructor
  · intro hfree
    exact hagrees.term (not_not_intro hunmixed) (hagrees.names.mp hfree)
  · intro heq
    rw [← heq]
    exact hnormal.1

def operandInOperand : Computation :=
  .put (.operand (.ret (.symbol (.name "a"))))
    (.operand (.get (.operand (.ret (.pointer (.name "b"))))))

theorem operandInOperand_normal_form :
    ∃ e', operandInOperand.normalize (.listed ["x", "y", "z", "w"]) = .ok (e', .listed ["w"]) ∧
      e'.hasOperand = false ∧ e'.normalize (.listed []) = .ok (e', .listed []) ∧
      (operandInOperand.hasOperand = false ↔ e' = operandInOperand) := by
  have h := normalize_normal_form operandInOperand _ (.listed ["x", "y", "z", "w"]) _ rfl
  exact ⟨_, rfl, h.1, h.2.1 (.listed []), h.2.2.2 rfl⟩

end Computation

end PushValue
