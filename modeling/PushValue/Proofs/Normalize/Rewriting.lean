import PushValue.Term.Basic

/-!
# Names in terms and rewriting

Two tools for what normalization does to the variables of a term.  One looks for a name
everywhere in a term and tells how often it is used and where it is bound.  The other
rewrites a term from the inside out, with a say in what becomes of variables and of
bindings: substitution is rewriting that leaves the bindings alone, and inlining puts what a
binding binds back into the place of its variable.
-/

namespace PushValue

/-!
## Sightings of a name
-/

/-- A place where a pattern binds a name: a binding of the name alone, or any other pattern. -/
inductive Binder where
  | bind (bound body : Computation)
  | other

/-- What is seen of a name in a term: the number of its uses as a variable, and its binders. -/
structure Sightings where
  uses : Nat := 0
  binders : List Binder := []

instance : Append Sightings where
  append P Q := ⟨P.uses + Q.uses, P.binders ++ Q.binders⟩

namespace Sightings

theorem uses_append (P Q : Sightings) : (P ++ Q).uses = P.uses + Q.uses := rfl

theorem binders_append (P Q : Sightings) : (P ++ Q).binders = P.binders ++ Q.binders := rfl

theorem empty_append (P : Sightings) : {} ++ P = P :=
  congrArg (Sightings.mk · P.binders) (Nat.zero_add P.uses)

theorem append_empty (P : Sightings) : P ++ {} = P :=
  congrArg (Sightings.mk P.uses) (List.append_nil P.binders)

theorem append_assoc (P Q S : Sightings) : P ++ Q ++ S = P ++ (Q ++ S) := by
  show Sightings.mk _ _ = .mk _ _
  rw [Sightings.mk.injEq]
  exact ⟨Nat.add_assoc _ _ _, List.append_assoc _ _ _⟩

end Sightings

mutual

def Value.sightings (t : String) : Value -> Sightings
  | .number _ | .symbol _ | .pointer _ | .process _ | .stray _ => {}
  | .variable x => if x = t then { uses := 1 } else {}
  | .variant l p => l.sightings t ++ p.sightings t
  | .record fs => fs.sightings t
  | .extend b l v => b.sightings t ++ l.sightings t ++ v.sightings t
  | .extendBy b p => b.sightings t ++ p.sightings t
  | .box b => b.sightings t
  | .operand e => e.sightings t

def Fields.sightings (t : String) : Fields -> Sightings
  | .nil => {}
  | .cons l v rest => l.sightings t ++ v.sightings t ++ rest.sightings t
  | .foreign p rest => p.sightings t ++ rest.sightings t

def Box.sightings (t : String) : Box -> Sightings
  | .mk code _ captured => captured.sightings t ++ code.sightings t
  | .stray _ => {}

def Boxes.sightings (t : String) : Boxes -> Sightings
  | .nil => {}
  | .cons _ b rest => b.sightings t ++ rest.sightings t

def Pattern.sightings (t : String) : Pattern -> Sightings
  | .ignore | .stray _ => {}
  | .variable x => if x = t then { binders := [.other] } else {}
  | .fields ps => ps.sightings t
  | .variant l p => l.sightings t ++ p.sightings t
  | .variantBy p => p.sightings t

def FieldPatterns.sightings (t : String) : FieldPatterns -> Sightings
  | .nil => {}
  | .cons l p rest => l.sightings t ++ p.sightings t ++ rest.sightings t
  | .foreign p rest => p.sightings t ++ rest.sightings t

def Computation.sightings (t : String) : Computation -> Sightings
  | .ret v | .returned v | .get v | .link v | .extract v => v.sightings t
  | .put a b | .assert a _ b => a.sightings t ++ b.sightings t
  | .nest v e | .spawn v e | .apply e v | .project e v => v.sightings t ++ e.sightings t
  | .lambda p e => p.sightings t ++ e.sightings t
  | .bind p e₁ e₂ =>
      (if p = .variable t then { binders := [.bind e₁ e₂] } else p.sightings t) ++
        (e₁.sightings t ++ e₂.sightings t)
  | .bindBox p e₁ e₂ => p.sightings t ++ (e₁.sightings t ++ e₂.sightings t)
  | .switch v cs => v.sightings t ++ cs.sightings t
  | .branches bs => bs.sightings t
  | .hole | .stray _ => {}

def Cases.sightings (t : String) : Cases -> Sightings
  | .nil => {}
  | .cons l p e rest =>
      p.sightings t ++ (l.sightings t ++ e.sightings t ++ rest.sightings t)
  | .foreign p rest => p.sightings t ++ rest.sightings t

def Branches.sightings (t : String) : Branches -> Sightings
  | .nil => {}
  | .cons l e rest => l.sightings t ++ e.sightings t ++ rest.sightings t
  | .foreign p rest => p.sightings t ++ rest.sightings t

def Part.sightings (t : String) : Part -> Sightings
  | .field l v => l.sightings t ++ v.sightings t
  | .fieldPattern l p => l.sightings t ++ p.sightings t
  | .case l p e => l.sightings t ++ p.sightings t ++ e.sightings t
  | .branch l e => l.sightings t ++ e.sightings t
  | .labelled l _ => l.sightings t
  | .stray _ => {}

end

def Pattern.sightingsAt (t : String) (p : Pattern) (bound body : Computation) : Sightings :=
  if p = .variable t then { binders := [.bind bound body] } else p.sightings t

theorem Computation.sightings_bind (t : String) (p : Pattern) (e₁ e₂ : Computation) :
    (Computation.bind p e₁ e₂).sightings t =
      p.sightingsAt t e₁ e₂ ++ (e₁.sightings t ++ e₂.sightings t) := rfl

/-!
## Rewriting
-/

/-- What becomes of variables, and of bindings once their parts are rewritten. -/
structure Rewriting where
  atVariable : String -> Value
  atBinding : Pattern -> Computation -> Computation -> Computation

mutual

def Value.rewrite (R : Rewriting) : Value -> Value
  | .variable x => R.atVariable x
  | .variant l p => .variant (l.rewrite R) (p.rewrite R)
  | .record fs => .record (fs.rewrite R)
  | .extend b l v => .extend (b.rewrite R) (l.rewrite R) (v.rewrite R)
  | .extendBy b p => .extendBy (b.rewrite R) p
  | .box b => .box (b.rewrite R)
  | .operand e => .operand (e.rewrite R)
  | .number n => .number n
  | .symbol s => .symbol s
  | .pointer s => .pointer s
  | .process s => .process s
  | .stray o => .stray o

def Fields.rewrite (R : Rewriting) : Fields -> Fields
  | .nil => .nil
  | .cons l v rest => .cons (l.rewrite R) (v.rewrite R) (rest.rewrite R)
  | .foreign p rest => .foreign p (rest.rewrite R)

/-- Captured boxes stay as they are, like patterns and foreign parts. -/
def Box.rewrite (R : Rewriting) : Box -> Box
  | .mk code self captured => .mk (code.rewrite R) self captured
  | .stray o => .stray o

def Computation.rewrite (R : Rewriting) : Computation -> Computation
  | .ret v => .ret (v.rewrite R)
  | .returned v => .returned (v.rewrite R)
  | .get v => .get (v.rewrite R)
  | .link v => .link (v.rewrite R)
  | .extract v => .extract (v.rewrite R)
  | .put a b => .put (a.rewrite R) (b.rewrite R)
  | .assert a equal b => .assert (a.rewrite R) equal (b.rewrite R)
  | .nest v e => .nest (v.rewrite R) (e.rewrite R)
  | .spawn v e => .spawn (v.rewrite R) (e.rewrite R)
  | .apply e v => .apply (e.rewrite R) (v.rewrite R)
  | .project e v => .project (e.rewrite R) (v.rewrite R)
  | .lambda p e => .lambda p (e.rewrite R)
  | .bind p e₁ e₂ => R.atBinding p (e₁.rewrite R) (e₂.rewrite R)
  | .bindBox p e₁ e₂ => .bindBox p (e₁.rewrite R) (e₂.rewrite R)
  | .switch v cs => .switch (v.rewrite R) (cs.rewrite R)
  | .branches bs => .branches (bs.rewrite R)
  | .hole => .hole
  | .stray o => .stray o

def Cases.rewrite (R : Rewriting) : Cases -> Cases
  | .nil => .nil
  | .cons l p e rest => .cons (l.rewrite R) p (e.rewrite R) (rest.rewrite R)
  | .foreign p rest => .foreign p (rest.rewrite R)

def Branches.rewrite (R : Rewriting) : Branches -> Branches
  | .nil => .nil
  | .cons l e rest => .cons (l.rewrite R) (e.rewrite R) (rest.rewrite R)
  | .foreign p rest => .foreign p (rest.rewrite R)

end

namespace Rewriting

def subst (σ : String -> Value) : Rewriting where
  atVariable := σ
  atBinding := .bind

def replace (t : String) (v : Value) : Rewriting :=
  subst fun x => if x = t then v else .variable x

/-- Removes the bindings of the given names.  What such a binding binds becomes an operand in the
place of its variable. -/
def inline (names : List String) : Rewriting where
  atVariable := .variable
  atBinding
    | .variable t, bound, body =>
        if t ∈ names then body.rewrite (replace t (.operand bound))
        else .bind (.variable t) bound body
    | p, bound, body => .bind p bound body

end Rewriting

/-!
## Substitution
-/

def Sightings.Unused (P : Sightings) : Prop := P.uses = 0

namespace Sightings

variable {P Q : Sightings}

theorem unused_append_iff : (P ++ Q).Unused ↔ P.Unused ∧ Q.Unused := Nat.add_eq_zero_iff

theorem Unused.left (h : (P ++ Q).Unused) : P.Unused := (unused_append_iff.mp h).1

theorem Unused.right (h : (P ++ Q).Unused) : Q.Unused := (unused_append_iff.mp h).2

theorem Unused.append (hP : P.Unused) (hQ : Q.Unused) : (P ++ Q).Unused :=
  unused_append_iff.mpr ⟨hP, hQ⟩

end Sightings

/-- Whether a name is used in a pattern does not depend on what the pattern is bound to. -/
theorem Pattern.unused_sightingsAt {t : String} {p : Pattern} {e₁ e₂ : Computation}
    (h : (p.sightingsAt t e₁ e₂).Unused) (e₁' e₂' : Computation) :
    (p.sightingsAt t e₁' e₂').Unused := by
  unfold sightingsAt at h ⊢
  split
  · rfl
  next hp =>
    rw [if_neg hp] at h
    exact h

theorem Value.unused_variable {x t : String} (h : x ≠ t) :
    ((Value.variable x).sightings t).Unused := by
  rw [sightings, if_neg h]
  rfl

/-- A substitution moves no name that is seen in use. -/
def Unmoved (σ : String -> Value) (seen : String -> Sightings) : Prop :=
  ∀ t, σ t ≠ .variable t -> (seen t).Unused

namespace Unmoved

variable {σ : String -> Value} {P Q : String -> Sightings}

theorem left (h : Unmoved σ fun t => P t ++ Q t) : Unmoved σ P :=
  fun t ht => (h t ht).left

theorem right (h : Unmoved σ fun t => P t ++ Q t) : Unmoved σ Q :=
  fun t ht => (h t ht).right

end Unmoved

section Substitution

open Rewriting

variable {σ : String -> Value}

mutual

/-- A substitution that moves no variable of a term leaves the term alone. -/
theorem Value.rewrite_unmoved : (v : Value) -> (Unmoved σ fun t => v.sightings t) ->
    v.rewrite (subst σ) = v
  | .number _, _ | .symbol _, _ | .pointer _, _ | .process _, _ | .stray _, _ => rfl
  | .variable x, h => by
      by_cases hmoved : σ x = .variable x
      · exact hmoved
      · have hunused : ((Value.variable x).sightings x).Unused := h x hmoved
        rw [Value.sightings, if_pos rfl] at hunused
        cases hunused
  | .variant l p, h => by
      rw [Value.rewrite, l.rewrite_unmoved h.left, p.rewrite_unmoved h.right]
  | .record fs, h => by rw [Value.rewrite, fs.rewrite_unmoved h]
  | .extend b l v, h => by
      rw [Value.rewrite, b.rewrite_unmoved h.left.left, l.rewrite_unmoved h.left.right,
        v.rewrite_unmoved h.right]
  | .extendBy b p, h => by rw [Value.rewrite, b.rewrite_unmoved h.left]
  | .box b, h => by rw [Value.rewrite, b.rewrite_unmoved h]
  | .operand e, h => by rw [Value.rewrite, e.rewrite_unmoved h]

theorem Fields.rewrite_unmoved : (fs : Fields) -> (Unmoved σ fun t => fs.sightings t) ->
    fs.rewrite (subst σ) = fs
  | .nil, _ => rfl
  | .cons l v rest, h => by
      rw [Fields.rewrite, l.rewrite_unmoved h.left.left, v.rewrite_unmoved h.left.right,
        rest.rewrite_unmoved h.right]
  | .foreign p rest, h => by rw [Fields.rewrite, rest.rewrite_unmoved h.right]

theorem Box.rewrite_unmoved : (b : Box) -> (Unmoved σ fun t => b.sightings t) ->
    b.rewrite (subst σ) = b
  | .mk code self captured, h => by rw [Box.rewrite, code.rewrite_unmoved h.right]
  | .stray _, _ => rfl

theorem Computation.rewrite_unmoved : (e : Computation) -> (Unmoved σ fun t => e.sightings t) ->
    e.rewrite (subst σ) = e
  | .hole, _ | .stray _, _ => rfl
  | .ret v, h | .returned v, h | .get v, h | .link v, h | .extract v, h => by
      rw [Computation.rewrite, v.rewrite_unmoved h]
  | .put a b, h | .assert a _ b, h => by
      rw [Computation.rewrite, a.rewrite_unmoved h.left, b.rewrite_unmoved h.right]
  | .nest v e, h | .spawn v e, h | .apply e v, h | .project e v, h => by
      rw [Computation.rewrite, v.rewrite_unmoved h.left, e.rewrite_unmoved h.right]
  | .lambda p e, h => by rw [Computation.rewrite, e.rewrite_unmoved h.right]
  | .bind p e₁ e₂, h => by
      rw [Computation.rewrite, e₁.rewrite_unmoved h.right.left, e₂.rewrite_unmoved h.right.right]
      rfl
  | .bindBox p e₁ e₂, h => by
      rw [Computation.rewrite, e₁.rewrite_unmoved h.right.left, e₂.rewrite_unmoved h.right.right]
  | .switch v cs, h => by
      rw [Computation.rewrite, v.rewrite_unmoved h.left, cs.rewrite_unmoved h.right]
  | .branches bs, h => by rw [Computation.rewrite, bs.rewrite_unmoved h]

theorem Cases.rewrite_unmoved : (cs : Cases) -> (Unmoved σ fun t => cs.sightings t) ->
    cs.rewrite (subst σ) = cs
  | .nil, _ => rfl
  | .cons l p e rest, h => by
      rw [Cases.rewrite, l.rewrite_unmoved h.right.left.left, e.rewrite_unmoved h.right.left.right,
        rest.rewrite_unmoved h.right.right]
  | .foreign p rest, h => by rw [Cases.rewrite, rest.rewrite_unmoved h.right]

theorem Branches.rewrite_unmoved : (bs : Branches) -> (Unmoved σ fun t => bs.sightings t) ->
    bs.rewrite (subst σ) = bs
  | .nil, _ => rfl
  | .cons l e rest, h => by
      rw [Branches.rewrite, l.rewrite_unmoved h.left.left, e.rewrite_unmoved h.left.right,
        rest.rewrite_unmoved h.right]
  | .foreign p rest, h => by rw [Branches.rewrite, rest.rewrite_unmoved h.right]

end

variable {τ : String -> Value}

mutual

theorem Value.rewrite_rewrite : (v : Value) -> (v.rewrite (subst σ)).rewrite (subst τ) =
    v.rewrite (subst fun x => (σ x).rewrite (subst τ))
  | .number _ | .symbol _ | .pointer _ | .process _ | .stray _ | .variable _ => rfl
  | .variant l p => by simp only [Value.rewrite, l.rewrite_rewrite, p.rewrite_rewrite]
  | .record fs => by simp only [Value.rewrite, fs.rewrite_rewrite]
  | .extend b l v => by
      simp only [Value.rewrite, b.rewrite_rewrite, l.rewrite_rewrite, v.rewrite_rewrite]
  | .extendBy b p => by simp only [Value.rewrite, b.rewrite_rewrite]
  | .box b => by simp only [Value.rewrite, b.rewrite_rewrite]
  | .operand e => by simp only [Value.rewrite, e.rewrite_rewrite]

theorem Fields.rewrite_rewrite : (fs : Fields) -> (fs.rewrite (subst σ)).rewrite (subst τ) =
    fs.rewrite (subst fun x => (σ x).rewrite (subst τ))
  | .nil => rfl
  | .cons l v rest => by
      simp only [Fields.rewrite, l.rewrite_rewrite, v.rewrite_rewrite, rest.rewrite_rewrite]
  | .foreign p rest => by simp only [Fields.rewrite, rest.rewrite_rewrite]

theorem Box.rewrite_rewrite : (b : Box) -> (b.rewrite (subst σ)).rewrite (subst τ) =
    b.rewrite (subst fun x => (σ x).rewrite (subst τ))
  | .mk code self captured => by simp only [Box.rewrite, code.rewrite_rewrite]
  | .stray _ => rfl

theorem Computation.rewrite_rewrite : (e : Computation) ->
    (e.rewrite (subst σ)).rewrite (subst τ) =
      e.rewrite (subst fun x => (σ x).rewrite (subst τ))
  | .hole | .stray _ => rfl
  | .ret v | .returned v | .get v | .link v | .extract v => by
      simp only [Computation.rewrite, v.rewrite_rewrite]
  | .put a b | .assert a _ b => by
      simp only [Computation.rewrite, a.rewrite_rewrite, b.rewrite_rewrite]
  | .nest v e | .spawn v e | .apply e v | .project e v => by
      simp only [Computation.rewrite, v.rewrite_rewrite, e.rewrite_rewrite]
  | .lambda p e => by simp only [Computation.rewrite, e.rewrite_rewrite]
  | .bind p e₁ e₂ => by
      show Computation.bind p _ _ = .bind p _ _
      rw [e₁.rewrite_rewrite, e₂.rewrite_rewrite]
  | .bindBox p e₁ e₂ => by
      simp only [Computation.rewrite, e₁.rewrite_rewrite, e₂.rewrite_rewrite]
  | .switch v cs => by simp only [Computation.rewrite, v.rewrite_rewrite, cs.rewrite_rewrite]
  | .branches bs => by simp only [Computation.rewrite, bs.rewrite_rewrite]

theorem Cases.rewrite_rewrite : (cs : Cases) -> (cs.rewrite (subst σ)).rewrite (subst τ) =
    cs.rewrite (subst fun x => (σ x).rewrite (subst τ))
  | .nil => rfl
  | .cons l p e rest => by
      simp only [Cases.rewrite, l.rewrite_rewrite, e.rewrite_rewrite, rest.rewrite_rewrite]
  | .foreign p rest => by simp only [Cases.rewrite, rest.rewrite_rewrite]

theorem Branches.rewrite_rewrite : (bs : Branches) -> (bs.rewrite (subst σ)).rewrite (subst τ) =
    bs.rewrite (subst fun x => (σ x).rewrite (subst τ))
  | .nil => rfl
  | .cons l e rest => by
      simp only [Branches.rewrite, l.rewrite_rewrite, e.rewrite_rewrite, rest.rewrite_rewrite]
  | .foreign p rest => by simp only [Branches.rewrite, rest.rewrite_rewrite]

end

end Substitution

/-!
## Rewriting that brings no use of a name
-/

structure Rewriting.Spares (R : Rewriting) (t : String) : Prop where
  atVariable : ∀ x, x ≠ t -> ((R.atVariable x).sightings t).Unused
  atBinding : ∀ p e₁ e₂, ((Computation.bind p e₁ e₂).sightings t).Unused ->
    ((R.atBinding p e₁ e₂).sightings t).Unused

section Spared

variable {R : Rewriting} {t : String}

mutual

theorem Value.unused_rewrite (hR : R.Spares t) : (v : Value) -> (v.sightings t).Unused ->
    ((v.rewrite R).sightings t).Unused
  | .number _, h | .symbol _, h | .pointer _, h | .process _, h | .stray _, h => h
  | .variable x, h => by
      apply hR.atVariable x
      intro heq
      rw [Value.sightings, if_pos heq] at h
      cases h
  | .variant l p, h => (l.unused_rewrite hR h.left).append (p.unused_rewrite hR h.right)
  | .record fs, h => fs.unused_rewrite hR h
  | .extend b l v, h =>
      ((b.unused_rewrite hR h.left.left).append (l.unused_rewrite hR h.left.right)).append
        (v.unused_rewrite hR h.right)
  | .extendBy b _, h => (b.unused_rewrite hR h.left).append h.right
  | .box b, h => b.unused_rewrite hR h
  | .operand e, h => e.unused_rewrite hR h

theorem Fields.unused_rewrite (hR : R.Spares t) : (fs : Fields) -> (fs.sightings t).Unused ->
    ((fs.rewrite R).sightings t).Unused
  | .nil, h => h
  | .cons l v rest, h =>
      ((l.unused_rewrite hR h.left.left).append (v.unused_rewrite hR h.left.right)).append
        (rest.unused_rewrite hR h.right)
  | .foreign _ rest, h => h.left.append (rest.unused_rewrite hR h.right)

theorem Box.unused_rewrite (hR : R.Spares t) : (b : Box) -> (b.sightings t).Unused ->
    ((b.rewrite R).sightings t).Unused
  | .mk code _ _, h => h.left.append (code.unused_rewrite hR h.right)
  | .stray _, h => h

theorem Computation.unused_rewrite (hR : R.Spares t) : (e : Computation) ->
    (e.sightings t).Unused -> ((e.rewrite R).sightings t).Unused
  | .hole, h | .stray _, h => h
  | .ret v, h | .returned v, h | .get v, h | .link v, h | .extract v, h => v.unused_rewrite hR h
  | .put a b, h | .assert a _ b, h =>
      (a.unused_rewrite hR h.left).append (b.unused_rewrite hR h.right)
  | .nest v e, h | .spawn v e, h | .apply e v, h | .project e v, h =>
      (v.unused_rewrite hR h.left).append (e.unused_rewrite hR h.right)
  | .lambda _ e, h => h.left.append (e.unused_rewrite hR h.right)
  | .bind _ e₁ e₂, h => by
      apply hR.atBinding
      exact (Pattern.unused_sightingsAt h.left _ _).append
        ((e₁.unused_rewrite hR h.right.left).append (e₂.unused_rewrite hR h.right.right))
  | .bindBox _ e₁ e₂, h =>
      h.left.append ((e₁.unused_rewrite hR h.right.left).append
        (e₂.unused_rewrite hR h.right.right))
  | .switch v cs, h => (v.unused_rewrite hR h.left).append (cs.unused_rewrite hR h.right)
  | .branches bs, h => bs.unused_rewrite hR h

theorem Cases.unused_rewrite (hR : R.Spares t) : (cs : Cases) -> (cs.sightings t).Unused ->
    ((cs.rewrite R).sightings t).Unused
  | .nil, h => h
  | .cons l _ e rest, h =>
      h.left.append (((l.unused_rewrite hR h.right.left.left).append
        (e.unused_rewrite hR h.right.left.right)).append (rest.unused_rewrite hR h.right.right))
  | .foreign _ rest, h => h.left.append (rest.unused_rewrite hR h.right)

theorem Branches.unused_rewrite (hR : R.Spares t) : (bs : Branches) ->
    (bs.sightings t).Unused -> ((bs.rewrite R).sightings t).Unused
  | .nil, h => h
  | .cons l e rest, h =>
      ((l.unused_rewrite hR h.left.left).append (e.unused_rewrite hR h.left.right)).append
        (rest.unused_rewrite hR h.right)
  | .foreign _ rest, h => h.left.append (rest.unused_rewrite hR h.right)

end

end Spared

namespace Rewriting

variable {t : String}

theorem spares_subst {σ : String -> Value} (h : ∀ x, x ≠ t -> ((σ x).sightings t).Unused) :
    (subst σ).Spares t where
  atVariable := h
  atBinding _ _ _ hunused := hunused

theorem spares_replace {x : String} {v : Value} (hv : (v.sightings t).Unused) :
    (replace x v).Spares t := by
  apply spares_subst
  intro y hy
  split
  · exact hv
  · exact Value.unused_variable hy

theorem spares_inline (names : List String) : (inline names).Spares t where
  atVariable _ hx := Value.unused_variable hx
  atBinding := by
    intro p e₁ e₂ hunused
    have hbound : ((Value.operand e₁).sightings t).Unused := hunused.right.left
    cases p with
    | «variable» x =>
        show (Computation.sightings t (if x ∈ names then _ else _)).Unused
        split
        · exact e₂.unused_rewrite (spares_replace hbound) hunused.right.right
        · exact hunused
    | _ => exact hunused

end Rewriting

end PushValue
