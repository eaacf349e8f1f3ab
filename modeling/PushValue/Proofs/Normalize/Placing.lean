import Mathlib.Data.List.Nodup
import PushValue.Proofs.Normalize.Hoisting
import PushValue.Proofs.Normalize.Rewriting

/-!
# Where drawn names stand

Every name that normalization draws is bound once, by a binding around the place where the
operand was, and used once, in that place.

A hoisted term with open bindings stands on the way there.  What is to be said of it is kept
by every rule of hoisting, and the only rules with work in them are that for an operand and
the closing of bindings around a computation.
-/

namespace PushValue

def Binding.sightings (t : String) : List Binding -> Sightings
  | [] => {}
  | b :: rest => b.bound.sightings t ++ sightings t rest

/-- A binding of a name with one use of the name in its body. -/
def Binder.Encloses (t : String) : Binder -> Prop
  | .bind _ body => (body.sightings t).uses = 1
  | .other => False

def Sightings.Enclosed (t : String) (P : Sightings) : Prop := ∀ s ∈ P.binders, s.Encloses t

namespace Sightings

variable {t : String} {P Q : Sightings}

theorem enclosed_append_iff : (P ++ Q).Enclosed t ↔ P.Enclosed t ∧ Q.Enclosed t := by
  unfold Enclosed
  rw [binders_append]
  exact List.forall_mem_append

theorem Enclosed.append (hP : P.Enclosed t) (hQ : Q.Enclosed t) : (P ++ Q).Enclosed t :=
  enclosed_append_iff.mpr ⟨hP, hQ⟩

theorem enclosed_of_unbound (h : P.binders = []) : P.Enclosed t := by
  unfold Enclosed
  rw [h]
  exact List.forall_mem_nil _

end Sightings

namespace Binding

variable {t : String}

theorem sightings_cons (b : Binding) (bs : List Binding) :
    Binding.sightings t (b :: bs) = b.bound.sightings t ++ Binding.sightings t bs := rfl

theorem sightings_append (bs cs : List Binding) :
    Binding.sightings t (bs ++ cs) = Binding.sightings t bs ++ Binding.sightings t cs := by
  induction bs with
  | nil => exact (Sightings.empty_append _).symm
  | cons b rest ih =>
      rw [List.cons_append, sightings_cons, ih, sightings_cons, Sightings.append_assoc]

end Binding

/-!
## Closing bindings
-/

theorem Pattern.sightingsAt_variable (t x : String) (e₁ e₂ : Computation) :
    (Pattern.variable x).sightingsAt t e₁ e₂ =
      if x = t then { binders := [.bind e₁ e₂] } else {} := by
  unfold sightingsAt
  by_cases hx : x = t
  · rw [hx, if_pos rfl, if_pos rfl]
  · have hpattern : Pattern.variable x ≠ .variable t := by
      intro heq
      exact hx (Pattern.variable.inj heq)
    rw [if_neg hpattern, sightings, if_neg hx, if_neg hx]

namespace Computation

variable {t : String}

theorem uses_bind (b : Binding) (e : Computation) :
    ((Computation.bind (.variable b.name) b.bound e).sightings t).uses =
      (b.bound.sightings t).uses + (e.sightings t).uses := by
  have hpattern : ((Pattern.variable b.name).sightingsAt t b.bound e).uses = 0 := by
    rw [Pattern.sightingsAt_variable]
    split <;> rfl
  rw [sightings_bind, Sightings.uses_append, hpattern, Sightings.uses_append, Nat.zero_add]

theorem uses_close (e : Computation) (bs : List Binding) :
    ((e.close bs).sightings t).uses = (e.sightings t ++ Binding.sightings t bs).uses := by
  induction bs generalizing e with
  | nil => rfl
  | cons b rest ih =>
      rw [close_cons, ih, Binding.sightings_cons]
      simp only [Sightings.uses_append, uses_bind]
      omega

theorem binders_close (e : Computation) (bs : List Binding) :
    ((e.close bs).sightings t).binders.length =
      (e.sightings t ++ Binding.sightings t bs).binders.length +
        (bs.map Binding.name).count t := by
  induction bs generalizing e with
  | nil =>
      rw [close_nil, Binding.sightings, Sightings.append_empty]
      rfl
  | cons b rest ih =>
      have hpattern : ((Pattern.variable b.name).sightingsAt t b.bound e).binders.length =
          if b.name = t then 1 else 0 := by
        rw [Pattern.sightingsAt_variable]
        split <;> rfl
      have hcount : ((b :: rest).map Binding.name).count t =
          (rest.map Binding.name).count t + if b.name = t then 1 else 0 := by
        rw [List.map_cons, List.count_cons]
        simp only [beq_iff_eq]
      rw [close_cons, ih, sightings_bind, Binding.sightings_cons, hcount]
      simp only [Sightings.binders_append, List.length_append, hpattern]
      omega

/-- Closing bindings encloses the use of a name that they bind, if there is one use and it is not
in what they bind. -/
theorem enclosed_close {e : Computation} {bs : List Binding}
    (h : (e.sightings t ++ Binding.sightings t bs).Enclosed t)
    (hused : t ∈ bs.map Binding.name ->
      (e.sightings t).uses = 1 ∧ (Binding.sightings t bs).Unused) :
    ((e.close bs).sightings t).Enclosed t := by
  induction bs generalizing e with
  | nil => exact (Sightings.enclosed_append_iff.mp h).1
  | cons b rest ih =>
      rw [Binding.sightings_cons, Sightings.enclosed_append_iff,
        Sightings.enclosed_append_iff] at h
      rcases h with ⟨he, hb, hrest⟩
      rw [close_cons]
      refine ih ?_ ?_
      · have hpattern : ((Pattern.variable b.name).sightingsAt t b.bound e).Enclosed t := by
          rw [Pattern.sightingsAt_variable]
          split
          next hname =>
            have hmem : t ∈ (b :: rest).map Binding.name := by
              rw [List.map_cons, hname]
              exact List.mem_cons_self
            exact List.forall_mem_singleton.mpr (hused hmem).1
          next => exact Sightings.enclosed_of_unbound rfl
        rw [sightings_bind]
        exact (hpattern.append (hb.append he)).append hrest
      · intro hname
        rcases hused (List.mem_cons_of_mem _ hname) with ⟨huses, hunused⟩
        have hbound : (b.bound.sightings t).uses = 0 := hunused.left
        rw [uses_bind, hbound, huses]
        exact ⟨rfl, hunused.right⟩

end Computation

/-!
## Names find their places
-/

def Sightings.Absent (P : Sightings) : Prop := P.uses = 0 ∧ P.binders = []

namespace Sightings

variable {P Q : Sightings}

theorem absent_append_iff : (P ++ Q).Absent ↔ P.Absent ∧ Q.Absent := by
  unfold Absent
  rw [uses_append, binders_append, Nat.add_eq_zero_iff, List.append_eq_nil_iff]
  exact and_and_and_comm

theorem Absent.left (h : (P ++ Q).Absent) : P.Absent := (absent_append_iff.mp h).1

theorem Absent.right (h : (P ++ Q).Absent) : Q.Absent := (absent_append_iff.mp h).2

end Sightings

theorem Pattern.ne_variable_of_absent {t : String} {p : Pattern} {e₁ e₂ : Computation}
    (h : (p.sightingsAt t e₁ e₂).Absent) : p ≠ .variable t := by
  intro hp
  rw [sightingsAt, if_pos hp] at h
  cases h.2

theorem Pattern.absent_sightingsAt {t : String} {p : Pattern} {e₁ e₂ : Computation}
    (h : (p.sightingsAt t e₁ e₂).Absent) (e₁' e₂' : Computation) :
    (p.sightingsAt t e₁' e₂').Absent := by
  have hp := ne_variable_of_absent h
  rw [sightingsAt, if_neg hp] at h ⊢
  exact h

theorem Value.uses_variable (x t : String) :
    ((Value.variable x).sightings t).uses = [x].count t := by
  rw [Value.sightings, List.count_singleton]
  simp only [beq_iff_eq]
  split <;> rfl

/-- What is seen of a name after hoisting a term without it, when the given names are drawn and
the given bindings are left open. -/
structure Hoist.Placed (t : String) (ns : List String) (bs : List Binding) (P : Sightings) :
    Prop where
  /-- Each drawn name is used once. -/
  uses : (P ++ Binding.sightings t bs).uses = ns.count t
  /-- Each drawn name is bound once. -/
  binders : (P ++ Binding.sightings t bs).binders.length + (bs.map Binding.name).count t =
    ns.count t
  /-- The name of an open binding is used outside of what is bound. -/
  used : t ∈ bs.map Binding.name -> 1 ≤ P.uses
  enclosed : ns.Nodup -> (P ++ Binding.sightings t bs).Enclosed t

namespace Hoist.Placed

variable {t : String} {ns ms ks : List String} {bs cs ds : List Binding} {P Q S : Sightings}

theorem of_closed (huses : P.uses = ns.count t) (hbinders : P.binders.length = ns.count t)
    (henclosed : ns.Nodup -> P.Enclosed t) : Placed t ns [] P where
  uses := huses
  binders := by
    rw [Binding.sightings, Sightings.append_empty]
    exact hbinders
  used hname := by cases hname
  enclosed := by
    rw [Binding.sightings, Sightings.append_empty]
    exact henclosed

theorem still (h : P.Absent) : Placed t [] [] P := by
  apply of_closed h.1
  · rw [h.2]
    rfl
  · intro _
    exact Sightings.enclosed_of_unbound h.2

theorem pair (hP : Placed t ns bs P) (hQ : Placed t ms cs Q) :
    Placed t (ns ++ ms) (bs ++ cs) (P ++ Q) where
  uses := by
    have huses := hP.uses
    have huses' := hQ.uses
    rw [Binding.sightings_append, List.count_append]
    simp only [Sightings.uses_append] at huses huses' ⊢
    omega
  binders := by
    have hbinders := hP.binders
    have hbinders' := hQ.binders
    rw [Binding.sightings_append, List.map_append, List.count_append, List.count_append]
    simp only [Sightings.binders_append, List.length_append] at hbinders hbinders' ⊢
    omega
  used := by
    intro hname
    rw [List.map_append] at hname
    rcases List.mem_append.mp hname with hname | hname
    · exact Nat.le_add_right_of_le (hP.used hname)
    · exact Nat.le_add_left_of_le (hQ.used hname)
  enclosed := by
    intro hnames
    rcases List.nodup_append.mp hnames with ⟨hnames, hnames', _⟩
    rcases Sightings.enclosed_append_iff.mp (hP.enclosed hnames) with ⟨hP, hbs⟩
    rcases Sightings.enclosed_append_iff.mp (hQ.enclosed hnames') with ⟨hQ, hcs⟩
    rw [Binding.sightings_append]
    exact (hP.append hQ).append (hbs.append hcs)

theorem triple (hP : Placed t ns bs P) (hQ : Placed t ms cs Q) (hS : Placed t ks ds S) :
    Placed t (ns ++ (ms ++ ks)) (bs ++ cs ++ ds) (P ++ Q ++ S) := by
  rw [← List.append_assoc]
  exact (hP.pair hQ).pair hS

theorem pairClosed (hP : Placed t ns bs P) (hQ : Placed t ms [] Q) :
    Placed t (ns ++ ms) bs (P ++ Q) := by
  rw [← List.append_nil bs]
  exact hP.pair hQ

theorem tripleClosed (hP : Placed t ns bs P) (hQ : Placed t ms [] Q) (hS : Placed t ks ds S) :
    Placed t (ns ++ (ms ++ ks)) (bs ++ ds) (P ++ Q ++ S) := by
  rw [← List.append_assoc]
  exact (hP.pairClosed hQ).pair hS

theorem operand {e : Computation} (h : Placed t ns [] (e.sightings t)) (x : String) :
    Placed t (ns ++ [x]) [⟨x, e⟩] ((Value.variable x).sightings t) := by
  have huse := Value.uses_variable x t
  have hbound : ((Value.variable x).sightings t).binders = [] := by
    rw [Value.sightings]
    split <;> rfl
  have hsightings : Binding.sightings t [⟨x, e⟩] = e.sightings t ++ Binding.sightings t [] := rfl
  constructor
  case uses =>
    rw [hsightings, Sightings.uses_append, h.uses, huse, List.count_append, Nat.add_comm]
  case binders =>
    have hbinders : (e.sightings t ++ Binding.sightings t []).binders.length = ns.count t :=
      h.binders
    rw [hsightings, Sightings.binders_append, hbound, List.nil_append, hbinders, List.count_append]
    rfl
  case used =>
    intro hname
    rw [huse]
    exact List.one_le_count_iff.mpr hname
  case enclosed =>
    intro hnames
    have hdrawn := (List.nodup_append.mp hnames).1
    exact (Sightings.enclosed_of_unbound hbound).append (h.enclosed hdrawn)

theorem apart (h : Placed t ns bs P) (hnames : ns.Nodup) (hname : t ∈ bs.map Binding.name) :
    P.uses = 1 ∧ (Binding.sightings t bs).Unused := by
  have huses := h.uses
  have hused := h.used hname
  have honce : ns.count t ≤ 1 := List.nodup_iff_count_le_one.mp hnames t
  rw [Sightings.uses_append] at huses
  unfold Sightings.Unused
  omega

/-- Where no binding is open, a drawn name is used once and bound once, around its use. -/
theorem once (h : Placed t ns [] P) (hnames : ns.Nodup) (ht : t ∈ ns) :
    ∃ bound body, P.binders = [.bind bound body] ∧ P.uses = 1 ∧ (body.sightings t).uses = 1 := by
  have hcount : ns.count t = 1 := List.count_eq_one_of_mem hnames ht
  rcases h with ⟨huses, hbinders, _, henclosed⟩
  rw [Binding.sightings, Sightings.append_empty] at huses hbinders henclosed
  rcases List.length_eq_one_iff.mp (hbinders.trans hcount) with ⟨s, hs⟩
  have hencloses : s.Encloses t := henclosed hnames s (hs ▸ List.mem_singleton_self s)
  cases s with
  | bind bound body => exact ⟨bound, body, hs, huses.trans hcount, hencloses⟩
  | other => cases hencloses

theorem closed {e : Computation} (h : Placed t ns bs (e.sightings t)) :
    Placed t ns [] ((e.close bs).sightings t) := by
  apply of_closed
  · rw [Computation.uses_close]
    exact h.uses
  · rw [Computation.binders_close]
    exact h.binders
  · intro hnames
    exact Computation.enclosed_close (h.enclosed hnames) (h.apart hnames)

end Hoist.Placed

section Placing

open Hoist

variable {mixed : Prop} {t : String}

mutual

theorem Value.Hoists.placed {v v' : Value} {ns : List String} {bs : List Binding} :
    v.Hoists mixed ns v' bs -> (v.sightings t).Absent -> Placed t ns bs (v'.sightings t)
  | .number _, h | .symbol _, h | .pointer _, h | .process _, h | .variable _, h => .still h
  | .variant hl hp, h => (hl.placed h.left).pair (hp.placed h.right)
  | .record hfs, h => hfs.placed h
  | .extend hb hl hv, h =>
      (hb.placed h.left.left).triple (hl.placed h.left.right) (hv.placed h.right)
  | .box hb, h => hb.placed h
  | .operand x he, h => (he.placed h).closed.operand x

theorem Fields.Hoists.placed {fs fs' : Fields} {ns : List String} {bs : List Binding} :
    fs.Hoists mixed ns fs' bs -> (fs.sightings t).Absent -> Placed t ns bs (fs'.sightings t)
  | .nil, h => .still h
  | .cons hl hv hrest, h =>
      (hl.placed h.left.left).triple (hv.placed h.left.right) (hrest.placed h.right)

theorem Box.Hoists.placed {b b' : Box} {ns : List String} :
    b.Hoists mixed ns b' -> (b.sightings t).Absent -> Placed t ns [] (b'.sightings t)
  | .mk _ _ hcode, h => (Placed.still h.left).pair (hcode.placed h.right).closed

theorem Computation.Hoists.placed {e e' : Computation} {ns : List String} {bs : List Binding} :
    e.Hoists mixed ns e' bs -> (e.sightings t).Absent -> Placed t ns bs (e'.sightings t)
  | .hole, h => .still h
  | .ret hv, h | .extract hv, h | .get hv, h | .link hv, h => hv.placed h
  | .put ha hb, h | .assert _ ha hb, h => (ha.placed h.left).pair (hb.placed h.right)
  | .nest hv he, h | .spawn hv he, h => (hv.placed h.left).pairClosed (he.placed h.right).closed
  | .apply hv he, h | .project hv he, h => (hv.placed h.left).pair (he.placed h.right)
  | .lambda _ he, h => (Placed.still h.left).pair (he.placed h.right).closed
  | .bind _ he₁ he₂, h =>
      (Placed.still (Pattern.absent_sightingsAt h.left _ _)).pair
        ((he₁.placed h.right.left).closed.pair (he₂.placed h.right.right).closed)
  | .bindBox _ he₁ he₂, h =>
      (Placed.still h.left).pair
        ((he₁.placed h.right.left).closed.pair (he₂.placed h.right.right).closed)
  | .switch hv hcases, h => (hv.placed h.left).pair (hcases.placed h.right)
  | .branches hbs, h => hbs.placed h

theorem Cases.Hoists.placed {cs cs' : Cases} {ns : List String} {bs : List Binding} :
    cs.Hoists mixed ns cs' bs -> (cs.sightings t).Absent -> Placed t ns bs (cs'.sightings t)
  | .nil, h => .still h
  | .cons _ hl he hrest, h =>
      (Placed.still h.left).pair ((hl.placed h.right.left.left).tripleClosed
        (he.placed h.right.left.right).closed (hrest.placed h.right.right))

theorem Branches.Hoists.placed {bs bs' : Branches} {ns : List String} {cs : List Binding} :
    bs.Hoists mixed ns bs' cs -> (bs.sightings t).Absent -> Placed t ns cs (bs'.sightings t)
  | .nil, h => .still h
  | .cons hl he hrest, h =>
      (hl.placed h.left.left).tripleClosed (he.placed h.left.right).closed (hrest.placed h.right)
  | .foreign _ hp hrest, h => (hp.placed h.left).pair (hrest.placed h.right)

theorem Part.Hoists.placed {p : Part} {ns : List String} {l : Value} {e : Computation}
    {bs : List Binding} : p.Hoists mixed ns l e bs -> (p.sightings t).Absent ->
      Placed t ns bs (l.sightings t ++ e.sightings t)
  | .case _ hl he, h => (hl.placed h.left.left).pairClosed (he.placed h.right).closed
  | .branch hl he, h => (hl.placed h.left).pairClosed (he.placed h.right).closed

end

end Placing

end PushValue
