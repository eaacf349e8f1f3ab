import PushValue.Proofs.Normalize.Supply
import PushValue.Proofs.Renaming.Run
import PushValue.Proofs.Screen.Normalize

/-!
# Bases of fresh names

Normalization names what it hoists by a base and a number.  Nothing that a program does depends on
the base, as long as the program spells no such name itself.  Under two bases normalization comes
to renamed computations, and renamed worlds go through the same rounds, so the runs differ in the
drawn names only.
-/

namespace PushValue

open NameSupply (numbered)

/-!
## Names under two bases
-/

/-- A name that is drawn under one base belongs to the one drawn at the same index under the other.
All other names belong to themselves. -/
inductive Rebased (base base' : String) : String -> String -> Prop
  | drawn (i : Int) : Rebased base base' (numbered base i) (numbered base' i)
  | spelled {x : String} (hx : ∀ i : Int, x ≠ numbered base i ∧ x ≠ numbered base' i) :
      Rebased base base' x x

section

variable {base base' : String}

theorem NameSupply.ne_numbered_of_length_le {x : String} (h : x.length ≤ base.length) (i : Int) :
    x ≠ numbered base i := by
  intro heq
  have hdigits : 0 < (toString i).length := by
    cases i with
    | ofNat n => exact Nat.length_repr_pos
    | negSucc n =>
        show 0 < ("-" ++ Nat.repr (n + 1)).length
        rw [String.length_append]
        exact Nat.add_pos_right _ Nat.length_repr_pos
  have hlength : x.length = base.length + (toString i).length := by
    rw [heq, numbered, String.length_append]
  omega

theorem Rebased.biUnique : Relator.BiUnique (Rebased base base') := by
  constructor
  · intro x y z hx hy
    cases hx with
    | drawn i =>
        generalize hz : numbered base' i = z at hy
        cases hy with
        | drawn j => rw [NameSupply.numbered_injective hz]
        | spelled hown => exact absurd hz.symm (hown i).2
    | spelled hown =>
        cases hy with
        | drawn j => exact absurd rfl (hown j).2
        | spelled => rfl
  · intro x y z hy hz
    cases hy with
    | drawn i =>
        generalize hx : numbered base i = x at hz
        cases hz with
        | drawn j => rw [NameSupply.numbered_injective hx]
        | spelled hown => exact absurd hx.symm (hown i).1
    | spelled hown =>
        cases hz with
        | drawn j => exact absurd rfl (hown j).1
        | spelled => rfl

end

/-!
## Hoisting under two bases
-/

structure Binding.Renamed (R : String -> String -> Prop) (b b' : Binding) : Prop where
  name : R b.name b'.name
  bound : b.bound.Renamed R b'.bound

namespace Hoist

variable {α α' β β' : Type} {base base' : String} {holds : α -> α' -> Prop}

/-- Two steps of normalization that draw from counters at the same index: both fail in the same
way, or their results belong together and the counters are at the same index again. -/
def Alongside (base base' : String) (holds : α -> α' -> Prop) (m : Hoist α) (m' : Hoist α') :
    Prop :=
  ∀ i : Int, Tally Eq
    (fun out out' =>
      holds out.1 out'.1 ∧ ∃ j, out.2 = .counter base j ∧ out'.2 = .counter base' j)
    (m (.counter base i)) (m' (.counter base' i))

namespace Alongside

theorem pure {a : α} {a' : α'} (h : holds a a') :
    Alongside base base' holds (Pure.pure a) (Pure.pure a') :=
  fun i => .ok ⟨h, i, rfl, rfl⟩

theorem throw (err : NormalizeError) :
    Alongside base base' holds (MonadExcept.throw err) (MonadExcept.throw err) :=
  fun _ => .error rfl

theorem fresh : Alongside base base' (Rebased base base') Hoist.fresh Hoist.fresh :=
  fun i => .ok ⟨.drawn i, i + 1, rfl, rfl⟩

theorem bind {after : β -> β' -> Prop} {m : Hoist α} {m' : Hoist α'} {f : α -> Hoist β}
    {f' : α' -> Hoist β'} (hm : Alongside base base' holds m m')
    (hf : ∀ a a', holds a a' -> Alongside base base' after (f a) (f' a')) :
    Alongside base base' after (m >>= f) (m' >>= f') := by
  intro i
  apply Tally.bind (hm i)
  rintro ⟨a, supply⟩ ⟨a', supply'⟩ ⟨ha, j, rfl, rfl⟩
  exact hf a a' ha j

end Alongside

def Twins (R : String -> String -> Prop) (rel : α -> α' -> Prop) (out : α × List Binding)
    (out' : α' × List Binding) : Prop :=
  rel out.1 out'.1 ∧ List.Forall₂ (Binding.Renamed R) out.2 out'.2

end Hoist

theorem Computation.Renamed.close {R : String -> String -> Prop} {bs bs' : List Binding}
    {e e' : Computation} (h : Hoist.Twins R (Computation.Renamed R) (e, bs) (e', bs')) :
    (e.close bs).Renamed R (e'.close bs') := by
  have he : e.Renamed R e' := h.1
  have hbs : List.Forall₂ (Binding.Renamed R) bs bs' := h.2
  clear h
  induction hbs generalizing e e' with
  | nil => exact he
  | cons hb _ ih => exact ih (.bind (.variable hb.name) hb.bound he)

section

open Hoist

variable {base base' : String}

mutual

theorem Value.Renamed.hoist {v v' : Value} : v.Renamed (Rebased base base') v' ->
    Alongside base base' (Twins (Rebased base base') (Value.Renamed (Rebased base base')))
      v.hoist v'.hoist
  | .number n => .pure ⟨.number n, .nil⟩
  | .symbol s => .pure ⟨.symbol s, .nil⟩
  | .pointer s => .pure ⟨.pointer s, .nil⟩
  | .process s => .pure ⟨.process s, .nil⟩
  | .variable hx => .pure ⟨.variable hx, .nil⟩
  | .variant hl hp => by
      rw [Value.hoist, Value.hoist]
      refine hl.hoist.bind fun ⟨l, bs⟩ ⟨l', bs'⟩ hl => ?_
      refine hp.hoist.bind fun ⟨p, cs⟩ ⟨p', cs'⟩ hp => ?_
      exact .pure ⟨.variant hl.1 hp.1, List.rel_append hl.2 hp.2⟩
  | .record hfs => by
      rw [Value.hoist, Value.hoist]
      refine hfs.hoist.bind fun ⟨fs, bs⟩ ⟨fs', bs'⟩ hfs => ?_
      exact .pure ⟨.record hfs.1, hfs.2⟩
  | .extend hb hl hv => by
      rw [Value.hoist, Value.hoist]
      refine hb.hoist.bind fun ⟨b, bs⟩ ⟨b', bs'⟩ hb => ?_
      refine hl.hoist.bind fun ⟨l, cs⟩ ⟨l', cs'⟩ hl => ?_
      refine hv.hoist.bind fun ⟨v, ds⟩ ⟨v', ds'⟩ hv => ?_
      exact .pure ⟨.extend hb.1 hl.1 hv.1, List.rel_append (List.rel_append hb.2 hl.2) hv.2⟩
  | .box hb => by
      rw [Value.hoist, Value.hoist]
      refine hb.hoist.bind fun b b' hb => ?_
      exact .pure ⟨.box hb, .nil⟩
  | .operand he => by
      rw [Value.hoist, Value.hoist]
      refine he.hoist.bind fun ⟨e, bs⟩ ⟨e', bs'⟩ he => ?_
      refine Alongside.fresh.bind fun x x' hx => ?_
      exact .pure ⟨.variable hx, .cons ⟨hx, .close he⟩ .nil⟩

theorem Fields.Renamed.hoist {fs fs' : Fields} : fs.Renamed (Rebased base base') fs' ->
    Alongside base base' (Twins (Rebased base base') (Fields.Renamed (Rebased base base')))
      fs.hoist fs'.hoist
  | .nil => .pure ⟨.nil, .nil⟩
  | .cons hl hv hrest => by
      rw [Fields.hoist, Fields.hoist]
      refine hl.hoist.bind fun ⟨l, bs⟩ ⟨l', bs'⟩ hl => ?_
      refine hv.hoist.bind fun ⟨v, cs⟩ ⟨v', cs'⟩ hv => ?_
      refine hrest.hoist.bind fun ⟨rest, ds⟩ ⟨rest', ds'⟩ hrest => ?_
      exact .pure ⟨.cons hl.1 hv.1 hrest.1, List.rel_append (List.rel_append hl.2 hv.2) hrest.2⟩

theorem Box.Renamed.hoist {b b' : Box} : b.Renamed (Rebased base base') b' ->
    Alongside base base' (Box.Renamed (Rebased base base')) b.hoist b'.hoist
  | .mk hcode hself hcaptured => by
      rw [Box.hoist, Box.hoist]
      refine hcode.hoist.bind fun ⟨code, bs⟩ ⟨code', bs'⟩ hcode => ?_
      exact .pure (.mk (.close hcode) hself hcaptured)

theorem Computation.Renamed.hoist {e e' : Computation} : e.Renamed (Rebased base base') e' ->
    Alongside base base' (Twins (Rebased base base') (Computation.Renamed (Rebased base base')))
      e.hoist e'.hoist
  | .hole => .pure ⟨.hole, .nil⟩
  | .returned _ => .throw .returnMarker
  | .ret hv => by
      rw [Computation.hoist, Computation.hoist]
      refine hv.hoist.bind fun ⟨v, bs⟩ ⟨v', bs'⟩ hv => ?_
      exact .pure ⟨.ret hv.1, hv.2⟩
  | .extract hv => by
      rw [Computation.hoist, Computation.hoist]
      refine hv.hoist.bind fun ⟨v, bs⟩ ⟨v', bs'⟩ hv => ?_
      exact .pure ⟨.extract hv.1, hv.2⟩
  | .get hv => by
      rw [Computation.hoist, Computation.hoist]
      refine hv.hoist.bind fun ⟨v, bs⟩ ⟨v', bs'⟩ hv => ?_
      exact .pure ⟨.get hv.1, hv.2⟩
  | .link hv => by
      rw [Computation.hoist, Computation.hoist]
      refine hv.hoist.bind fun ⟨v, bs⟩ ⟨v', bs'⟩ hv => ?_
      exact .pure ⟨.link hv.1, hv.2⟩
  | .put hs hv => by
      rw [Computation.hoist, Computation.hoist]
      refine hs.hoist.bind fun ⟨s, bs⟩ ⟨s', bs'⟩ hs => ?_
      refine hv.hoist.bind fun ⟨v, cs⟩ ⟨v', cs'⟩ hv => ?_
      exact .pure ⟨.put hs.1 hv.1, List.rel_append hs.2 hv.2⟩
  | .assert equal ha hb => by
      rw [Computation.hoist, Computation.hoist]
      refine ha.hoist.bind fun ⟨a, bs⟩ ⟨a', bs'⟩ ha => ?_
      refine hb.hoist.bind fun ⟨b, cs⟩ ⟨b', cs'⟩ hb => ?_
      exact .pure ⟨.assert equal ha.1 hb.1, List.rel_append ha.2 hb.2⟩
  | .nest hv he => by
      rw [Computation.hoist, Computation.hoist]
      refine hv.hoist.bind fun ⟨v, bs⟩ ⟨v', bs'⟩ hv => ?_
      refine he.hoist.bind fun ⟨e, cs⟩ ⟨e', cs'⟩ he => ?_
      exact .pure ⟨.nest hv.1 (.close he), hv.2⟩
  | .spawn hv he => by
      rw [Computation.hoist, Computation.hoist]
      refine hv.hoist.bind fun ⟨v, bs⟩ ⟨v', bs'⟩ hv => ?_
      refine he.hoist.bind fun ⟨e, cs⟩ ⟨e', cs'⟩ he => ?_
      exact .pure ⟨.spawn hv.1 (.close he), hv.2⟩
  | .apply he hv => by
      rw [Computation.hoist, Computation.hoist]
      refine hv.hoist.bind fun ⟨v, bs⟩ ⟨v', bs'⟩ hv => ?_
      refine he.hoist.bind fun ⟨e, cs⟩ ⟨e', cs'⟩ he => ?_
      exact .pure ⟨.apply he.1 hv.1, List.rel_append hv.2 he.2⟩
  | .project he hv => by
      rw [Computation.hoist, Computation.hoist]
      refine hv.hoist.bind fun ⟨v, bs⟩ ⟨v', bs'⟩ hv => ?_
      refine he.hoist.bind fun ⟨e, cs⟩ ⟨e', cs'⟩ he => ?_
      exact .pure ⟨.project he.1 hv.1, List.rel_append hv.2 he.2⟩
  | .lambda hp he => by
      rw [Computation.hoist, Computation.hoist]
      refine he.hoist.bind fun ⟨e, bs⟩ ⟨e', bs'⟩ he => ?_
      exact .pure ⟨.lambda hp (.close he), .nil⟩
  | .bind hp he₁ he₂ => by
      rw [Computation.hoist, Computation.hoist]
      refine he₁.hoist.bind fun ⟨e₁, bs⟩ ⟨e₁', bs'⟩ he₁ => ?_
      refine he₂.hoist.bind fun ⟨e₂, cs⟩ ⟨e₂', cs'⟩ he₂ => ?_
      exact .pure ⟨.bind hp (.close he₁) (.close he₂), .nil⟩
  | .bindBox hp hbox he₁ he₂ => by
      rw [Computation.hoist, Computation.hoist]
      refine he₁.hoist.bind fun ⟨e₁, bs⟩ ⟨e₁', bs'⟩ he₁ => ?_
      refine he₂.hoist.bind fun ⟨e₂, cs⟩ ⟨e₂', cs'⟩ he₂ => ?_
      exact .pure ⟨.bindBox hp hbox (.close he₁) (.close he₂), .nil⟩
  | .switch hv hcs => by
      rw [Computation.hoist, Computation.hoist]
      refine hv.hoist.bind fun ⟨v, bs⟩ ⟨v', bs'⟩ hv => ?_
      refine hcs.hoist.bind fun ⟨cases, cs⟩ ⟨cases', cs'⟩ hcs => ?_
      exact .pure ⟨.switch hv.1 hcs.1, List.rel_append hv.2 hcs.2⟩
  | .branches hbs => by
      rw [Computation.hoist, Computation.hoist]
      refine hbs.hoist.bind fun ⟨bs, cs⟩ ⟨bs', cs'⟩ hbs => ?_
      exact .pure ⟨.branches hbs.1, hbs.2⟩

theorem Cases.Renamed.hoist {cs cs' : Cases} : cs.Renamed (Rebased base base') cs' ->
    Alongside base base' (Twins (Rebased base base') (Cases.Renamed (Rebased base base')))
      cs.hoist cs'.hoist
  | .nil => .pure ⟨.nil, .nil⟩
  | .cons hl hp he hrest => by
      rw [Cases.hoist, Cases.hoist]
      refine hl.hoist.bind fun ⟨l, bs⟩ ⟨l', bs'⟩ hl => ?_
      refine he.hoist.bind fun ⟨e, cs⟩ ⟨e', cs'⟩ he => ?_
      refine hrest.hoist.bind fun ⟨rest, ds⟩ ⟨rest', ds'⟩ hrest => ?_
      exact .pure ⟨.cons hl.1 hp (.close he) hrest.1, List.rel_append hl.2 hrest.2⟩

theorem Branches.Renamed.hoist {bs bs' : Branches} : bs.Renamed (Rebased base base') bs' ->
    Alongside base base' (Twins (Rebased base base') (Branches.Renamed (Rebased base base')))
      bs.hoist bs'.hoist
  | .nil => .pure ⟨.nil, .nil⟩
  | .cons hl he hrest => by
      rw [Branches.hoist, Branches.hoist]
      refine hl.hoist.bind fun ⟨l, bs⟩ ⟨l', bs'⟩ hl => ?_
      refine he.hoist.bind fun ⟨e, cs⟩ ⟨e', cs'⟩ he => ?_
      refine hrest.hoist.bind fun ⟨rest, ds⟩ ⟨rest', ds'⟩ hrest => ?_
      exact .pure ⟨.cons hl.1 (.close he) hrest.1, List.rel_append hl.2 hrest.2⟩

end

end

theorem Computation.Renamed.normalize {base base' : String} {e e' : Computation}
    (h : e.Renamed (Rebased base base') e') (i : Int) :
    Tally Eq (fun out out' => out.1.Renamed (Rebased base base') out'.1)
      (e.normalize (.counter base i)) (e'.normalize (.counter base' i)) := by
  unfold Computation.normalize
  refine Tally.bind (h.hoist i) fun ⟨⟨e, bs⟩, _⟩ ⟨⟨e', bs'⟩, _⟩ hout => ?_
  exact Tally.ok (.close hout.1)

/-!
## What shows of a process
-/

/-- What shows of a process without its names and values: how far it is in its lifecycle, the kind
of its fault and the symbol for which it waits. -/
structure Standing where
  stage : Option Kind
  fault : Option Kind := none
  awaited : Option Symbol := none
deriving DecidableEq

def Object.kind? : Object -> Option Kind
  | .node k _ => some k
  | .scalar _ => none

def Stage.standing (p : Stage) : Standing where
  stage := p.toObject.kind?
  fault :=
    match p with
    | .failed _ f => f.toObject.kind?
    | _ => none
  awaited :=
    match p with
    | .awaitingEntry _ s | .awaitingHalt _ s => some s
    | _ => none

section

variable {R : String -> String -> Prop}

theorem Fault.Renamed.kind? {f f' : Fault} (h : f.Renamed R f') :
    f.toObject.kind? = f'.toObject.kind? := by
  cases h <;> rfl

theorem Stage.Renamed.standing {p p' : Stage} (h : p.Renamed R p') : p.standing = p'.standing := by
  cases h with
  | failed _ hf => exact congrArg (fun k => Standing.mk (some .failedStage) k none) hf.kind?
  | _ => rfl

theorem Processes.Renamed.standing {table table' : Processes} (h : table.Renamed R table')
    (name : Symbol) :
    (table.get? name).map Stage.standing = (table'.get? name).map Stage.standing := by
  have hfound := h name
  generalize table.get? name = found, table'.get? name = found' at hfound ⊢
  cases hfound with
  | none => rfl
  | some hp => exact congrArg some hp.standing

end

namespace World

theorem renamed_ofComputation {settings settings' : Settings} {e e' : Computation}
    (he : e.Renamed (Rebased settings.nameBase settings'.nameBase) e') :
    Tally Eq (World.Renamed (Rebased settings.nameBase settings'.nameBase))
      (ofComputation settings e) (ofComputation settings' e') := by
  unfold ofComputation
  refine Tally.bind (he.normalize 0) fun ⟨e, _⟩ ⟨e', _⟩ he => ?_
  exact Tally.ok (.initial he)

/-- The base of the drawn names cannot be observed.  A well-sorted program without holes and return
markers that spells no name of the form of a drawn one goes through the same rounds under both
bases, with worlds that differ in the drawn names only.  So its runs end in the same way after the
same number of rounds, with the same store keys and with every process at the same point. -/
theorem base_unobservable (settings settings' : Settings) (e : Computation)
    (he : e.passes .source)
    (hspelled : ∀ x ∈ e.spelled, ∀ i : Int,
      x ≠ numbered settings.nameBase i ∧ x ≠ numbered settings'.nameBase i) :
    ∃ world world', ofComputation settings e = .ok world ∧
      ofComputation settings' e = .ok world' ∧
      (∀ n, (world.after n).Renamed (Rebased settings.nameBase settings'.nameBase)
          (world'.after n) ∧
        (world.after n).round.result = (world'.after n).round.result) ∧
      ∀ limit attempts,
        let run := world.run limit attempts
        let run' := world'.run limit attempts
        run.ending = run'.ending ∧ run.world.store.keys = run'.world.store.keys ∧
          ∀ name, (run.world.processes.get? name).map Stage.standing =
            (run'.world.processes.get? name).map Stage.standing := by
  rcases exists_ofComputation Screen.normal_source settings he with ⟨body, hworld, _⟩
  rcases exists_ofComputation Screen.normal_source settings' he with ⟨body', hworld', _⟩
  have hself : e.Renamed (Rebased settings.nameBase settings'.nameBase) e :=
    e.renamed_self Screen.strict_source he fun x hx => .spelled (hspelled x hx)
  have hrenamed : (initial body).Renamed (Rebased settings.nameBase settings'.nameBase)
      (initial body') := by
    have htally := renamed_ofComputation hself
    rw [hworld, hworld'] at htally
    cases htally with
    | ok h => exact h
  refine ⟨initial body, initial body', hworld, hworld', ?_, ?_⟩
  · intro n
    have hafter := World.Renamed.after Rebased.biUnique hrenamed n
    exact ⟨hafter, (hafter.round Rebased.biUnique).result⟩
  · intro limit attempts
    have hrun := World.Renamed.run Rebased.biUnique hrenamed limit attempts
    exact ⟨hrun.ending, Table.keys_congr hrun.world.store.contains,
      Processes.Renamed.standing hrun.world.processes⟩

def spawnBoxWithOperands : Computation :=
  .bindBox (.variable "b")
    (.ret (.box (.mk
      (.put (.operand (.ret (.symbol (.name "k")))) (.operand (.ret (.number 1))))
      (some "f") .nil)))
    (.bind (.variable "_t_")
      (.spawn (.operand (.ret (.symbol (.name "a")))) (.extract (.variable "b")))
      (.bind (.variable "q") (.link (.variable "_t_"))
        (.assert (.operand (.get (.operand (.ret (.variable "q"))))) true (.number 1))))

theorem spawnBoxWithOperands_base_unobservable :
    spawnBoxWithOperands.passes .source ∧
      ∃ world world', ofComputation {} spawnBoxWithOperands = .ok world ∧
        ofComputation { nameBase := "fresh" } spawnBoxWithOperands = .ok world' ∧
        (∀ n, (world.after n).Renamed (Rebased "_t_" "fresh") (world'.after n) ∧
          (world.after n).round.result = (world'.after n).round.result) ∧
        ∀ limit attempts,
          let run := world.run limit attempts
          let run' := world'.run limit attempts
          run.ending = run'.ending ∧ run.world.store.keys = run'.world.store.keys ∧
            ∀ name, (run.world.processes.get? name).map Stage.standing =
              (run'.world.processes.get? name).map Stage.standing := by
  have hshort : ∀ x ∈ spawnBoxWithOperands.spelled, x.length ≤ 3 := by decide
  refine ⟨rfl, base_unobservable {} { nameBase := "fresh" } spawnBoxWithOperands rfl
    fun x hx i => ⟨?_, ?_⟩⟩
  · exact NameSupply.ne_numbered_of_length_le (hshort x hx) i
  · exact NameSupply.ne_numbered_of_length_le ((hshort x hx).trans (by decide)) i

end World

end PushValue
