import PushValue.Proofs.Ground.Resolve
import PushValue.Proofs.Normalize.NormalForm
import PushValue.Proofs.Normalize.Placing
import PushValue.Proofs.Normalize.Supply
import PushValue.Proofs.Sequencing

/-!
# Asserting that a value equals itself

The two sides of an assertion are normalized one after the other, with names from one supply, and
what is left of them is compared as it stands.  If a ground value has no operand in the code of its
boxes, both sides stay the same and are equal.  Otherwise each side gets names of its own.  Then
the two sides differ, although they were the same value.

That they differ is seen by counting: every name that is drawn for a term is used once more in
what hoisting leaves than in the term.  The names may well be in use before, so it is not enough
to look for them.
-/

namespace PushValue

/-!
## Uses of names
-/

/-- Hoisting a term that is seen as `P` leaves one that is seen as `Q`, where each drawn name is
used once more. -/
def Hoist.Adds (t : String) (ns : List String) (bs : List Binding) (P Q : Sightings) : Prop :=
  (Q ++ Binding.sightings t bs).uses = P.uses + ns.count t

namespace Hoist.Adds

variable {t : String} {ns ms ks : List String} {bs cs ds : List Binding}
  {P P' Q Q' S S' : Sightings}

theorem still (h : Q.uses = P.uses) : Adds t [] [] P Q := h

theorem pair (hP : Adds t ns bs P P') (hQ : Adds t ms cs Q Q') :
    Adds t (ns ++ ms) (bs ++ cs) (P ++ Q) (P' ++ Q') := by
  unfold Adds at hP hQ ⊢
  rw [Binding.sightings_append, List.count_append]
  simp only [Sightings.uses_append] at hP hQ ⊢
  omega

theorem triple (hP : Adds t ns bs P P') (hQ : Adds t ms cs Q Q') (hS : Adds t ks ds S S') :
    Adds t (ns ++ (ms ++ ks)) (bs ++ cs ++ ds) (P ++ Q ++ S) (P' ++ Q' ++ S') := by
  rw [← List.append_assoc]
  exact (hP.pair hQ).pair hS

theorem pairClosed (hP : Adds t ns bs P P') (hQ : Adds t ms [] Q Q') :
    Adds t (ns ++ ms) bs (P ++ Q) (P' ++ Q') := by
  rw [← List.append_nil bs]
  exact hP.pair hQ

theorem tripleClosed (hP : Adds t ns bs P P') (hQ : Adds t ms [] Q Q') (hS : Adds t ks ds S S') :
    Adds t (ns ++ (ms ++ ks)) (bs ++ ds) (P ++ Q ++ S) (P' ++ Q' ++ S') := by
  rw [← List.append_assoc]
  exact (hP.pairClosed hQ).pair hS

theorem closed {e : Computation} (h : Adds t ns bs P (e.sightings t)) :
    Adds t ns [] P ((e.close bs).sightings t) := by
  unfold Adds at h ⊢
  rw [Binding.sightings, Sightings.append_empty, Computation.uses_close]
  exact h

theorem operand {e : Computation} (h : Adds t ns [] P (e.sightings t)) (x : String) :
    Adds t (ns ++ [x]) [⟨x, e⟩] P ((Value.variable x).sightings t) := by
  unfold Adds at h ⊢
  rw [Sightings.uses_append, Value.uses_variable, Binding.sightings_cons, h, List.count_append]
  omega

end Hoist.Adds

theorem Pattern.uses_sightingsAt (t : String) (p : Pattern) (e₁ e₂ e₁' e₂' : Computation) :
    (p.sightingsAt t e₁ e₂).uses = (p.sightingsAt t e₁' e₂').uses := by
  unfold sightingsAt
  split <;> rfl

section Adding

open Hoist

variable {t : String}

mutual

theorem Value.Hoists.adds {v v' : Value} {ns : List String} {bs : List Binding} :
    v.Hoists False ns v' bs -> Adds t ns bs (v.sightings t) (v'.sightings t)
  | .number _ | .symbol _ | .pointer _ | .process _ | .variable _ => .still rfl
  | .variant hl hp => hl.adds.pair hp.adds
  | .record hfs => hfs.adds
  | .extend hb hl hv => hb.adds.triple hl.adds hv.adds
  | .box hb => hb.adds
  | .operand x he => he.adds.closed.operand x

theorem Fields.Hoists.adds {fs fs' : Fields} {ns : List String} {bs : List Binding} :
    fs.Hoists False ns fs' bs -> Adds t ns bs (fs.sightings t) (fs'.sightings t)
  | .nil => .still rfl
  | .cons hl hv hrest => hl.adds.triple hv.adds hrest.adds

theorem Box.Hoists.adds {b b' : Box} {ns : List String} :
    b.Hoists False ns b' -> Adds t ns [] (b.sightings t) (b'.sightings t)
  | .mk _ _ hcode => (Adds.still rfl).pair hcode.adds.closed

theorem Computation.Hoists.adds {e e' : Computation} {ns : List String} {bs : List Binding} :
    e.Hoists False ns e' bs -> Adds t ns bs (e.sightings t) (e'.sightings t)
  | .hole => .still rfl
  | .ret hv | .extract hv | .get hv | .link hv => hv.adds
  | .put ha hb | .assert _ ha hb => ha.adds.pair hb.adds
  | .nest hv he | .spawn hv he => hv.adds.pairClosed he.adds.closed
  | .apply hv he | .project hv he => hv.adds.pair he.adds
  | .lambda _ he => (Adds.still rfl).pair he.adds.closed
  | .bind p he₁ he₂ =>
      (Adds.still (p.uses_sightingsAt t _ _ _ _)).pair (he₁.adds.closed.pair he₂.adds.closed)
  | .bindBox _ he₁ he₂ => (Adds.still rfl).pair (he₁.adds.closed.pair he₂.adds.closed)
  | .switch hv hcases => hv.adds.pair hcases.adds
  | .branches hbs => hbs.adds

theorem Cases.Hoists.adds {cs cs' : Cases} {ns : List String} {bs : List Binding} :
    cs.Hoists False ns cs' bs -> Adds t ns bs (cs.sightings t) (cs'.sightings t)
  | .nil => .still rfl
  | .cons _ hl he hrest =>
      (Adds.still rfl).pair (hl.adds.tripleClosed he.adds.closed hrest.adds)

theorem Branches.Hoists.adds {bs bs' : Branches} {ns : List String} {cs : List Binding} :
    bs.Hoists False ns bs' cs -> Adds t ns cs (bs.sightings t) (bs'.sightings t)
  | .nil => .still rfl
  | .cons hl he hrest => hl.adds.tripleClosed he.adds.closed hrest.adds
  -- A part that becomes a branch loses its pattern, and the names that are used there with it.
  | .foreign hmixed _ _ => hmixed.elim

end

end Adding

/-!
## Copies of a ground value
-/

section Ground

variable {mixed : Prop}

mutual

theorem Value.Hoists.ground {v v' : Value} {ns : List String} {bs : List Binding} :
    v.Hoists mixed ns v' bs -> v.isGround -> v'.isGround ∧ bs = []
  | .number _, _ | .symbol _, _ | .pointer _, _ | .process _, _ | .box _, _ => ⟨rfl, rfl⟩
  | .variable _, h | .operand _ _, h => by cases h
  | .variant hl hp, h => by
      have h := Bool.and_eq_true_iff.mp h
      rcases hl.ground h.1 with ⟨hl', rfl⟩
      rcases hp.ground h.2 with ⟨hp', rfl⟩
      exact ⟨Bool.and_eq_true_iff.mpr ⟨hl', hp'⟩, rfl⟩
  | .record hfs, h => hfs.ground h
  | .extend hb hl hv, h => by
      simp only [Value.isGround, Bool.and_eq_true] at h ⊢
      rcases hb.ground h.1.1 with ⟨hb', rfl⟩
      rcases hl.ground h.1.2 with ⟨hl', rfl⟩
      rcases hv.ground h.2 with ⟨hv', rfl⟩
      exact ⟨⟨⟨hb', hl'⟩, hv'⟩, rfl⟩

theorem Fields.Hoists.ground {fs fs' : Fields} {ns : List String} {bs : List Binding} :
    fs.Hoists mixed ns fs' bs -> fs.isGround -> fs'.isGround ∧ bs = []
  | .nil, _ => ⟨rfl, rfl⟩
  | .cons hl hv hrest, h => by
      simp only [Fields.isGround, Bool.and_eq_true] at h ⊢
      rcases hl.ground h.1.1 with ⟨hl', rfl⟩
      rcases hv.ground h.1.2 with ⟨hv', rfl⟩
      rcases hrest.ground h.2 with ⟨hrest', rfl⟩
      exact ⟨⟨⟨hl', hv'⟩, hrest'⟩, rfl⟩

end

end Ground

/-- Two copies of a value that are hoisted with names of their own are equal exactly if there is no
operand in the value. -/
theorem Value.Hoists.copies_eq_iff {v a b : Value} {ns ms : List String}
    (ha : v.Hoists False ns a []) (hb : v.Hoists False ms b []) (hnames : (ns ++ ms).Nodup) :
    a = b ↔ v.hasOperand = false := by
  constructor
  · intro hab
    rw [ha.agrees.names, List.eq_nil_iff_forall_not_mem]
    intro t ht
    -- The name is used as often in the one copy as in the other, so it is drawn for both.
    have hcount : ns.count t = ms.count t := by
      have huses : (a.sightings t).uses = (v.sightings t).uses + ns.count t := ha.adds
      have huses' : (b.sightings t).uses = (v.sightings t).uses + ms.count t := hb.adds
      rw [hab] at huses
      exact Nat.add_left_cancel (huses.symm.trans huses')
    have ht' : t ∈ ms := List.count_pos_iff.mp (hcount ▸ List.count_pos_iff.mpr ht)
    exact (List.nodup_append.mp hnames).2.2 t ht t ht' rfl
  · intro hnone
    have hns := ha.agrees.names.mp hnone
    have hms := hb.agrees.names.mp hnone
    rw [ha.agrees.term id hns, hb.agrees.term id hms]

/-!
## Running the assertion
-/

theorem Running.step_assert {a b : Value} (equal : Bool) (ha : a.isGround) (hb : b.isGround)
    (store : Store) :
    (start (.assert a equal b) .empty).step store =
      if (a == b) = equal then
        .moved store ⟨.returned .unit, .empty, [], [.ret .unit]⟩
      else ⟨.failed (.fault (.assertionFailed a equal b)), store,
        start (.assert a equal b) .empty⟩ := by
  have hresolve := a.resolve_eq_self ha
  have hresolve' := b.resolve_eq_self hb
  simp only [start, step, Computation.head, Attempt.proceed_ok, reduce, hresolve, hresolve']
  rfl

namespace World

/-- A run of an assertion that holds: the process halts with the unit record, and nothing is
stored. -/
def AssertionHolds (world : World) : Prop :=
  world.EndsAfter 3 ∧ world.after 3 = solo {} (.halted .unit [.ret .unit])

/-- A run of an assertion that fails: the fault has the values of both sides. -/
def AssertionFails (a : Value) (equal : Bool) (b : Value) (world : World) : Prop :=
  world.EndsAfter 2 ∧ world.after 2 =
    solo {} (.failed (Running.start (.assert a equal b) .empty) (.assertionFailed a equal b))

variable {a b : Value} {equal : Bool}

theorem assertionHolds_initial (hlive : (initial (.assert a equal b)).passes .live)
    (ha : a.isGround) (hb : b.isGround) (hequal : (a == b) = equal) :
    (initial (.assert a equal b)).AssertionHolds := by
  have hstep := Running.step_assert equal ha hb {}
  rw [if_pos hequal] at hstep
  have htwo : (initial (.assert a equal b)).after 2 =
      solo {} (.running ⟨.returned .unit, .empty, [], [.ret .unit]⟩) := by
    rw [after, after_one, round_solo_moved hstep]
  have hthree : (initial (.assert a equal b)).after 3 =
      solo {} (.halted .unit [.ret .unit]) := by
    have hreturn : Running.step {} ⟨.returned .unit, .empty, [], [.ret .unit]⟩ =
        ⟨.signal (.halt .unit), {}, ⟨.returned .unit, .empty, [], [.ret .unit]⟩⟩ := rfl
    rw [after, htwo, round_solo_halted hreturn]
  refine ⟨endsAfter_of_isAtRest hlive ?_ ?_, hthree⟩
  · intro n hn
    apply isAtRest_eq_false_of_le hlive (n := 2) _ (by omega)
    rw [htwo, isAtRest_running]
  · rw [hthree]
    rfl

theorem assertionFails_initial (hlive : (initial (.assert a equal b)).passes .live)
    (ha : a.isGround) (hb : b.isGround) (hequal : (a == b) ≠ equal) :
    (initial (.assert a equal b)).AssertionFails a equal b := by
  have hstep := Running.step_assert equal ha hb {}
  rw [if_neg hequal] at hstep
  have htwo : (initial (.assert a equal b)).after 2 = solo {}
      (.failed (Running.start (.assert a equal b) .empty) (.assertionFailed a equal b)) := by
    rw [after, after_one, round_solo_failed hstep]
  refine ⟨endsAfter_of_isAtRest hlive ?_ ?_, htwo⟩
  · intro n hn
    apply isAtRest_eq_false_of_le hlive (n := 1) _ (by omega)
    rw [after_one, isAtRest_running]
  · rw [htwo]
    rfl

theorem exists_copies (settings : Settings) {v : Value} (hv : v.passes .source)
    (hground : v.isGround) :
    ∃ a b, a.isGround ∧ b.isGround ∧ (a = b ↔ v.hasOperand = false) ∧
      (v.hasOperand = false -> a = v) ∧
      ∀ equal, ofComputation settings (.assert v equal v) = .ok (initial (.assert a equal b)) ∧
        (initial (.assert a equal b)).passes .live := by
  have hwritten := v.passes_mono Screen.source_within_written hv
  have hside : Hoist.Serves v.operandCount fun ns => ∃ a bs, v.Hoists False ns a bs :=
    v.exists_hoists hwritten
  have hsides : Hoist.Serves (v.operandCount + v.operandCount) fun names =>
      ∃ ns ms, names = ns ++ ms ∧ (∃ a bs, v.Hoists False ns a bs) ∧
        ∃ b cs, v.Hoists False ms b cs :=
    hside.pair hside fun ns ms ha hb => ⟨ns, ms, rfl, ha, hb⟩
  rcases hsides _ (NameSupply.length_numberedFrom settings.nameBase 0 _) with
    ⟨ns, ms, hnames, ⟨a, bs, ha⟩, b, cs, hb⟩
  rcases ha.ground hground with ⟨haground, rfl⟩
  rcases hb.ground hground with ⟨hbground, rfl⟩
  have hgives := NameSupply.gives_counter settings.nameBase 0 (v.operandCount + v.operandCount)
  have hnodup := NameSupply.nodup_numberedFrom settings.nameBase 0
    (v.operandCount + v.operandCount)
  rw [hnames] at hgives hnodup
  refine ⟨a, b, haground, hbground, ha.copies_eq_iff hb hnodup, ?_, ?_⟩
  · intro hnone
    exact ha.agrees.term id (ha.agrees.names.mp hnone)
  · intro equal
    have hworld : ofComputation settings (.assert v equal v) =
        .ok (initial (.assert a equal b)) := by
      rw [ofComputation, (Computation.Hoists.assert equal ha hb).normalize_eq hgives]
      rfl
    have hassert : (Computation.assert v equal v).passes .source :=
      Bool.and_eq_true_iff.mpr ⟨hv, hv⟩
    rcases passes_of_ofComputation hassert hworld with ⟨body, hbody, hpasses⟩
    refine ⟨hworld, ?_⟩
    rw [hbody]
    exact live_initial hpasses

/-- A ground value without operands in the code of its boxes equals itself: the assertion that it
does halts with the unit record and leaves nothing in the store, and the assertion that it does not
fails.  With an operand there it is the other way round, since each side of the assertion draws
names of its own. -/
theorem assert_self (settings : Settings) (v : Value) (hv : v.passes .source)
    (hground : v.isGround) :
    ∃ same other, ofComputation settings (.assert v true v) = .ok same ∧
      ofComputation settings (.assert v false v) = .ok other ∧
      (v.hasOperand = false -> same.AssertionHolds ∧ other.AssertionFails v false v) ∧
      (v.hasOperand = true -> other.AssertionHolds ∧
        ∃ a b, a ≠ b ∧ same.AssertionFails a true b) := by
  rcases exists_copies settings hv hground with ⟨a, b, ha, hb, heq, hself, hworld⟩
  refine ⟨_, _, (hworld true).1, (hworld false).1, ?_, ?_⟩
  · intro hnone
    have hab := heq.mpr hnone
    have hbeq : (a == b) = true := beq_iff_eq.mpr hab
    constructor
    · exact assertionHolds_initial (hworld true).2 ha hb hbeq
    · have hfails := assertionFails_initial (hworld false).2 ha hb
        (by rw [hbeq]; exact Bool.false_ne_true.symm)
      rw [← hab, hself hnone] at hfails ⊢
      exact hfails
  · intro hsome
    have hne : a ≠ b := by
      intro hab
      rw [heq.mp hab] at hsome
      cases hsome
    have hbeq : (a == b) = false := beq_eq_false_iff_ne.mpr hne
    refine ⟨assertionHolds_initial (hworld false).2 ha hb hbeq, a, b, hne, ?_⟩
    exact assertionFails_initial (hworld true).2 ha hb (by rw [hbeq]; exact Bool.false_ne_true)

def recordWithBox : Value :=
  .extend (.record (.cons (.symbol (.name "a")) (.variant (.symbol (.name "b")) (.number 1)) .nil))
    (.symbol (.name "c"))
    (.box (.mk (.bind (.variable "x") (.put (.symbol (.name "d")) (.variable "f")) (.extract
      (.variable "k"))) (some "f")
      (.cons "k" (.mk (.ret (.operand (.ret (.number 2)))) none .nil) .nil)))

def boxWithNestedOperands : Value :=
  .variant (.symbol (.name "a")) (.box (.mk (.put (.symbol (.name "b"))
    (.operand (.get (.operand (.ret (.variable "_t_0")))))) none .nil))

theorem assert_self_with_boxes :
    recordWithBox.passes .source ∧ recordWithBox.isGround ∧ recordWithBox.hasOperand = false ∧
      boxWithNestedOperands.passes .source ∧ boxWithNestedOperands.isGround ∧
      boxWithNestedOperands.hasOperand = true ∧
      (∃ same other, ofComputation {} (.assert recordWithBox true recordWithBox) = .ok same ∧
        ofComputation {} (.assert recordWithBox false recordWithBox) = .ok other ∧
        same.AssertionHolds ∧ other.AssertionFails recordWithBox false recordWithBox) ∧
      ∃ same other,
        ofComputation {} (.assert boxWithNestedOperands true boxWithNestedOperands) = .ok same ∧
        ofComputation {} (.assert boxWithNestedOperands false boxWithNestedOperands) = .ok other ∧
        other.AssertionHolds ∧ ∃ a b, a ≠ b ∧ same.AssertionFails a true b := by
  rcases assert_self {} recordWithBox rfl rfl with ⟨same, other, hsame, hother, hwithout, _⟩
  rcases assert_self {} boxWithNestedOperands rfl rfl with
    ⟨same', other', hsame', hother', _, hwith⟩
  exact ⟨rfl, rfl, rfl, rfl, rfl, rfl, ⟨same, other, hsame, hother, hwithout rfl⟩,
    same', other', hsame', hother', hwith rfl⟩

def boxReturningOperand : Value := .box (.mk (.ret (.operand (.ret (.number 1)))) none .nil)

def boxReturningBound (x : String) : Value :=
  .box (.mk (.bind (.variable x) (.ret (.number 1)) (.ret (.variable x))) none .nil)

/-- A box with an operand in its code is not equal to itself. -/
theorem boxReturningOperand_unlike_itself :
    boxReturningOperand.passes .source ∧ boxReturningOperand.isGround ∧
      ∃ same other,
        ofComputation {} (.assert boxReturningOperand true boxReturningOperand) = .ok same ∧
        ofComputation {} (.assert boxReturningOperand false boxReturningOperand) = .ok other ∧
        same.AssertionFails (boxReturningBound "_t_0") true (boxReturningBound "_t_1") ∧
        other.AssertionHolds := by
  refine ⟨rfl, rfl, initial (.assert (boxReturningBound "_t_0") true (boxReturningBound "_t_1")),
    initial (.assert (boxReturningBound "_t_0") false (boxReturningBound "_t_1")), rfl, rfl, ?_, ?_⟩
  · exact assertionFails_initial (live_initial rfl) rfl rfl (by decide)
  · exact assertionHolds_initial (live_initial rfl) rfl rfl (by decide)

end World

end PushValue
