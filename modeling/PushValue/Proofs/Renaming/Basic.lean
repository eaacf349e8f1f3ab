import Mathlib.Logic.Relator
import PushValue.Proofs.Screen.Basic

/-!
# Renaming

Two terms are renamings of each other when they differ only in their names, and names that
stand in the same place belong together.  Which names belong together is told by a relation.
It need not be a function on all names: the names that normalization draws from one supply
belong to those drawn from another, and the names that a program spells belong to themselves.

The names of boxes are not drawn from a supply.  They order the boxes of a scope, and are the
same on both sides.

The rules cover terms in which nothing is out of place.
-/

namespace PushValue

mutual

inductive Value.Renamed (R : String -> String -> Prop) : Value -> Value -> Prop
  | number (n : Int) : Value.Renamed R (.number n) (.number n)
  | symbol (s : Symbol) : Value.Renamed R (.symbol s) (.symbol s)
  | pointer (s : Symbol) : Value.Renamed R (.pointer s) (.pointer s)
  | process (s : Symbol) : Value.Renamed R (.process s) (.process s)
  | variable {x x' : String} (hx : R x x') : Value.Renamed R (.variable x) (.variable x')
  | variant {l l' p p' : Value} (hl : Value.Renamed R l l') (hp : Value.Renamed R p p') :
      Value.Renamed R (.variant l p) (.variant l' p')
  | record {fs fs' : Fields} (hfs : Fields.Renamed R fs fs') :
      Value.Renamed R (.record fs) (.record fs')
  | extend {b b' l l' v v' : Value} (hb : Value.Renamed R b b') (hl : Value.Renamed R l l')
      (hv : Value.Renamed R v v') : Value.Renamed R (.extend b l v) (.extend b' l' v')
  | box {b b' : Box} (hb : Box.Renamed R b b') : Value.Renamed R (.box b) (.box b')
  | operand {e e' : Computation} (he : Computation.Renamed R e e') :
      Value.Renamed R (.operand e) (.operand e')

inductive Fields.Renamed (R : String -> String -> Prop) : Fields -> Fields -> Prop
  | nil : Fields.Renamed R .nil .nil
  | cons {l l' v v' : Value} {rest rest' : Fields} (hl : Value.Renamed R l l')
      (hv : Value.Renamed R v v') (hrest : Fields.Renamed R rest rest') :
      Fields.Renamed R (.cons l v rest) (.cons l' v' rest')

inductive Box.Renamed (R : String -> String -> Prop) : Box -> Box -> Prop
  | mk {code code' : Computation} {self self' : Option String} {captured captured' : Boxes}
      (hcode : Computation.Renamed R code code') (hself : Option.Rel R self self')
      (hcaptured : Boxes.Renamed R captured captured') :
      Box.Renamed R (.mk code self captured) (.mk code' self' captured')

inductive Boxes.Renamed (R : String -> String -> Prop) : Boxes -> Boxes -> Prop
  | nil : Boxes.Renamed R .nil .nil
  | cons {x : String} {b b' : Box} {rest rest' : Boxes} (hx : R x x) (hb : Box.Renamed R b b')
      (hrest : Boxes.Renamed R rest rest') :
      Boxes.Renamed R (.cons x b rest) (.cons x b' rest')

inductive Pattern.Renamed (R : String -> String -> Prop) : Pattern -> Pattern -> Prop
  | ignore : Pattern.Renamed R .ignore .ignore
  | variable {x x' : String} (hx : R x x') : Pattern.Renamed R (.variable x) (.variable x')
  | fields {ps ps' : FieldPatterns} (hps : FieldPatterns.Renamed R ps ps') :
      Pattern.Renamed R (.fields ps) (.fields ps')
  | variant {l l' : Value} {p p' : Pattern} (hl : Value.Renamed R l l')
      (hp : Pattern.Renamed R p p') : Pattern.Renamed R (.variant l p) (.variant l' p')

inductive FieldPatterns.Renamed (R : String -> String -> Prop) :
    FieldPatterns -> FieldPatterns -> Prop
  | nil : FieldPatterns.Renamed R .nil .nil
  | cons {l l' : Value} {p p' : Pattern} {rest rest' : FieldPatterns}
      (hl : Value.Renamed R l l') (hp : Pattern.Renamed R p p')
      (hrest : FieldPatterns.Renamed R rest rest') :
      FieldPatterns.Renamed R (.cons l p rest) (.cons l' p' rest')

inductive Computation.Renamed (R : String -> String -> Prop) : Computation -> Computation -> Prop
  | hole : Computation.Renamed R .hole .hole
  | returned {v v' : Value} (hv : Value.Renamed R v v') :
      Computation.Renamed R (.returned v) (.returned v')
  | ret {v v' : Value} (hv : Value.Renamed R v v') : Computation.Renamed R (.ret v) (.ret v')
  | extract {v v' : Value} (hv : Value.Renamed R v v') :
      Computation.Renamed R (.extract v) (.extract v')
  | get {v v' : Value} (hv : Value.Renamed R v v') : Computation.Renamed R (.get v) (.get v')
  | link {v v' : Value} (hv : Value.Renamed R v v') : Computation.Renamed R (.link v) (.link v')
  | put {s s' v v' : Value} (hs : Value.Renamed R s s') (hv : Value.Renamed R v v') :
      Computation.Renamed R (.put s v) (.put s' v')
  | assert {a a' b b' : Value} (equal : Bool) (ha : Value.Renamed R a a')
      (hb : Value.Renamed R b b') : Computation.Renamed R (.assert a equal b) (.assert a' equal b')
  | nest {v v' : Value} {e e' : Computation} (hv : Value.Renamed R v v')
      (he : Computation.Renamed R e e') : Computation.Renamed R (.nest v e) (.nest v' e')
  | spawn {v v' : Value} {e e' : Computation} (hv : Value.Renamed R v v')
      (he : Computation.Renamed R e e') : Computation.Renamed R (.spawn v e) (.spawn v' e')
  | apply {e e' : Computation} {v v' : Value} (he : Computation.Renamed R e e')
      (hv : Value.Renamed R v v') : Computation.Renamed R (.apply e v) (.apply e' v')
  | project {e e' : Computation} {v v' : Value} (he : Computation.Renamed R e e')
      (hv : Value.Renamed R v v') : Computation.Renamed R (.project e v) (.project e' v')
  | lambda {p p' : Pattern} {e e' : Computation} (hp : Pattern.Renamed R p p')
      (he : Computation.Renamed R e e') : Computation.Renamed R (.lambda p e) (.lambda p' e')
  | bind {p p' : Pattern} {e₁ e₁' e₂ e₂' : Computation} (hp : Pattern.Renamed R p p')
      (he₁ : Computation.Renamed R e₁ e₁') (he₂ : Computation.Renamed R e₂ e₂') :
      Computation.Renamed R (.bind p e₁ e₂) (.bind p' e₁' e₂')
  /-- The name that is bound to a box is the same on both sides. -/
  | bindBox {p p' : Pattern} {e₁ e₁' e₂ e₂' : Computation} (hp : Pattern.Renamed R p p')
      (hbox : ∀ x, p = .variable x -> R x x) (he₁ : Computation.Renamed R e₁ e₁')
      (he₂ : Computation.Renamed R e₂ e₂') :
      Computation.Renamed R (.bindBox p e₁ e₂) (.bindBox p' e₁' e₂')
  | switch {v v' : Value} {cs cs' : Cases} (hv : Value.Renamed R v v')
      (hcs : Cases.Renamed R cs cs') : Computation.Renamed R (.switch v cs) (.switch v' cs')
  | branches {bs bs' : Branches} (hbs : Branches.Renamed R bs bs') :
      Computation.Renamed R (.branches bs) (.branches bs')

inductive Cases.Renamed (R : String -> String -> Prop) : Cases -> Cases -> Prop
  | nil : Cases.Renamed R .nil .nil
  | cons {l l' : Value} {p p' : Pattern} {e e' : Computation} {rest rest' : Cases}
      (hl : Value.Renamed R l l') (hp : Pattern.Renamed R p p')
      (he : Computation.Renamed R e e') (hrest : Cases.Renamed R rest rest') :
      Cases.Renamed R (.cons l p e rest) (.cons l' p' e' rest')

inductive Branches.Renamed (R : String -> String -> Prop) : Branches -> Branches -> Prop
  | nil : Branches.Renamed R .nil .nil
  | cons {l l' : Value} {e e' : Computation} {rest rest' : Branches}
      (hl : Value.Renamed R l l') (he : Computation.Renamed R e e')
      (hrest : Branches.Renamed R rest rest') :
      Branches.Renamed R (.cons l e rest) (.cons l' e' rest')

end

/-!
## Comparing renamed terms

Under a relation that pairs each name with one other at most, a term has one renaming at most.
The same holds of the relation turned round, so two terms are equal exactly when their renamings
are, and whatever the machine compares, it finds the same on both sides.
-/

variable {R : String -> String -> Prop}

theorem self_unique (hR : Relator.RightUnique R) {self self' self'' : Option String}
    (h : Option.Rel R self self') (h' : Option.Rel R self self'') : self' = self'' := by
  cases h with
  | none =>
      cases h'
      rfl
  | some hx =>
      cases h' with
      | some hy => rw [hR hx hy]

mutual

theorem Value.Renamed.unique (hR : Relator.RightUnique R) {v v' v'' : Value} :
    v.Renamed R v' -> v.Renamed R v'' -> v' = v''
  | .number _, .number _ | .symbol _, .symbol _ | .pointer _, .pointer _
  | .process _, .process _ => rfl
  | .variable hx, .variable hy => by rw [hR hx hy]
  | .variant hl hp, .variant hm hq => by rw [hl.unique hR hm, hp.unique hR hq]
  | .record hfs, .record hgs => by rw [hfs.unique hR hgs]
  | .extend hb hl hv, .extend hc hm hw => by rw [hb.unique hR hc, hl.unique hR hm, hv.unique hR hw]
  | .box hb, .box hc => by rw [hb.unique hR hc]
  | .operand he, .operand hf => by rw [he.unique hR hf]
termination_by structural h => h

theorem Fields.Renamed.unique (hR : Relator.RightUnique R) {fs fs' fs'' : Fields} :
    fs.Renamed R fs' -> fs.Renamed R fs'' -> fs' = fs''
  | .nil, .nil => rfl
  | .cons hl hv hrest, .cons hm hw hmore => by
      rw [hl.unique hR hm, hv.unique hR hw, hrest.unique hR hmore]
termination_by structural h => h

theorem Box.Renamed.unique (hR : Relator.RightUnique R) {b b' b'' : Box} :
    b.Renamed R b' -> b.Renamed R b'' -> b' = b''
  | .mk hcode hself hcaptured, .mk hcode' hself' hcaptured' => by
      rw [hcode.unique hR hcode', self_unique hR hself hself', hcaptured.unique hR hcaptured']
termination_by structural h => h

theorem Boxes.Renamed.unique (hR : Relator.RightUnique R) {bs bs' bs'' : Boxes} :
    bs.Renamed R bs' -> bs.Renamed R bs'' -> bs' = bs''
  | .nil, .nil => rfl
  | .cons _ hb hrest, .cons _ hc hmore => by rw [hb.unique hR hc, hrest.unique hR hmore]
termination_by structural h => h

theorem Pattern.Renamed.unique (hR : Relator.RightUnique R) {p p' p'' : Pattern} :
    p.Renamed R p' -> p.Renamed R p'' -> p' = p''
  | .ignore, .ignore => rfl
  | .variable hx, .variable hy => by rw [hR hx hy]
  | .fields hps, .fields hqs => by rw [hps.unique hR hqs]
  | .variant hl hp, .variant hm hq => by rw [hl.unique hR hm, hp.unique hR hq]
termination_by structural h => h

theorem FieldPatterns.Renamed.unique (hR : Relator.RightUnique R)
    {ps ps' ps'' : FieldPatterns} : ps.Renamed R ps' -> ps.Renamed R ps'' -> ps' = ps''
  | .nil, .nil => rfl
  | .cons hl hp hrest, .cons hm hq hmore => by
      rw [hl.unique hR hm, hp.unique hR hq, hrest.unique hR hmore]
termination_by structural h => h

theorem Computation.Renamed.unique (hR : Relator.RightUnique R) {e e' e'' : Computation} :
    e.Renamed R e' -> e.Renamed R e'' -> e' = e''
  | .hole, .hole => rfl
  | .returned hv, .returned hw => by rw [hv.unique hR hw]
  | .ret hv, .ret hw => by rw [hv.unique hR hw]
  | .extract hv, .extract hw => by rw [hv.unique hR hw]
  | .get hv, .get hw => by rw [hv.unique hR hw]
  | .link hv, .link hw => by rw [hv.unique hR hw]
  | .put hs hv, .put ht hw => by rw [hs.unique hR ht, hv.unique hR hw]
  | .assert _ ha hb, .assert _ hc hd => by rw [ha.unique hR hc, hb.unique hR hd]
  | .nest hv he, .nest hw hf => by rw [hv.unique hR hw, he.unique hR hf]
  | .spawn hv he, .spawn hw hf => by rw [hv.unique hR hw, he.unique hR hf]
  | .apply he hv, .apply hf hw => by rw [he.unique hR hf, hv.unique hR hw]
  | .project he hv, .project hf hw => by rw [he.unique hR hf, hv.unique hR hw]
  | .lambda hp he, .lambda hq hf => by rw [hp.unique hR hq, he.unique hR hf]
  | .bind hp he₁ he₂, .bind hq hf₁ hf₂ => by
      rw [hp.unique hR hq, he₁.unique hR hf₁, he₂.unique hR hf₂]
  | .bindBox hp _ he₁ he₂, .bindBox hq _ hf₁ hf₂ => by
      rw [hp.unique hR hq, he₁.unique hR hf₁, he₂.unique hR hf₂]
  | .switch hv hcs, .switch hw hds => by rw [hv.unique hR hw, hcs.unique hR hds]
  | .branches hbs, .branches hcs => by rw [hbs.unique hR hcs]
termination_by structural h => h

theorem Cases.Renamed.unique (hR : Relator.RightUnique R) {cs cs' cs'' : Cases} :
    cs.Renamed R cs' -> cs.Renamed R cs'' -> cs' = cs''
  | .nil, .nil => rfl
  | .cons hl hp he hrest, .cons hm hq hf hmore => by
      rw [hl.unique hR hm, hp.unique hR hq, he.unique hR hf, hrest.unique hR hmore]
termination_by structural h => h

theorem Branches.Renamed.unique (hR : Relator.RightUnique R) {bs bs' bs'' : Branches} :
    bs.Renamed R bs' -> bs.Renamed R bs'' -> bs' = bs''
  | .nil, .nil => rfl
  | .cons hl he hrest, .cons hm hf hmore => by
      rw [hl.unique hR hm, he.unique hR hf, hrest.unique hR hmore]
termination_by structural h => h

end

/-- The name of a box belongs to itself, also when the relation is turned round. -/
theorem Pattern.Renamed.box_flip (hR : Relator.RightUnique R) {p p' : Pattern}
    (hp : p.Renamed R p') (hbox : ∀ x, p = .variable x -> R x x) (x : String)
    (hx : p' = .variable x) : Function.swap R x x := by
  cases hp with
  | «variable» hy =>
      cases hx
      have hself := hbox _ rfl
      rw [hR hself hy] at hself
      exact hself
  | _ => cases hx

mutual

theorem Value.Renamed.flip (hR : Relator.RightUnique R) {v v' : Value} :
    v.Renamed R v' -> v'.Renamed (Function.swap R) v
  | .number n => .number n
  | .symbol s => .symbol s
  | .pointer s => .pointer s
  | .process s => .process s
  | .variable hx => .variable hx
  | .variant hl hp => .variant (hl.flip hR) (hp.flip hR)
  | .record hfs => .record (hfs.flip hR)
  | .extend hb hl hv => .extend (hb.flip hR) (hl.flip hR) (hv.flip hR)
  | .box hb => .box (hb.flip hR)
  | .operand he => .operand (he.flip hR)

theorem Fields.Renamed.flip (hR : Relator.RightUnique R) {fs fs' : Fields} :
    fs.Renamed R fs' -> fs'.Renamed (Function.swap R) fs
  | .nil => .nil
  | .cons hl hv hrest => .cons (hl.flip hR) (hv.flip hR) (hrest.flip hR)

theorem Box.Renamed.flip (hR : Relator.RightUnique R) {b b' : Box} :
    b.Renamed R b' -> b'.Renamed (Function.swap R) b
  | .mk hcode hself hcaptured => by
      refine .mk (hcode.flip hR) ?_ (hcaptured.flip hR)
      cases hself with
      | none => exact .none
      | some hx => exact .some hx

theorem Boxes.Renamed.flip (hR : Relator.RightUnique R) {bs bs' : Boxes} :
    bs.Renamed R bs' -> bs'.Renamed (Function.swap R) bs
  | .nil => .nil
  | .cons hx hb hrest => .cons hx (hb.flip hR) (hrest.flip hR)

theorem Pattern.Renamed.flip (hR : Relator.RightUnique R) {p p' : Pattern} :
    p.Renamed R p' -> p'.Renamed (Function.swap R) p
  | .ignore => .ignore
  | .variable hx => .variable hx
  | .fields hps => .fields (hps.flip hR)
  | .variant hl hp => .variant (hl.flip hR) (hp.flip hR)

theorem FieldPatterns.Renamed.flip (hR : Relator.RightUnique R) {ps ps' : FieldPatterns} :
    ps.Renamed R ps' -> ps'.Renamed (Function.swap R) ps
  | .nil => .nil
  | .cons hl hp hrest => .cons (hl.flip hR) (hp.flip hR) (hrest.flip hR)

theorem Computation.Renamed.flip (hR : Relator.RightUnique R) {e e' : Computation} :
    e.Renamed R e' -> e'.Renamed (Function.swap R) e
  | .hole => .hole
  | .returned hv => .returned (hv.flip hR)
  | .ret hv => .ret (hv.flip hR)
  | .extract hv => .extract (hv.flip hR)
  | .get hv => .get (hv.flip hR)
  | .link hv => .link (hv.flip hR)
  | .put hs hv => .put (hs.flip hR) (hv.flip hR)
  | .assert equal ha hb => .assert equal (ha.flip hR) (hb.flip hR)
  | .nest hv he => .nest (hv.flip hR) (he.flip hR)
  | .spawn hv he => .spawn (hv.flip hR) (he.flip hR)
  | .apply he hv => .apply (he.flip hR) (hv.flip hR)
  | .project he hv => .project (he.flip hR) (hv.flip hR)
  | .lambda hp he => .lambda (hp.flip hR) (he.flip hR)
  | .bind hp he₁ he₂ => .bind (hp.flip hR) (he₁.flip hR) (he₂.flip hR)
  | .bindBox hp hbox he₁ he₂ =>
      .bindBox (hp.flip hR) (hp.box_flip hR hbox) (he₁.flip hR) (he₂.flip hR)
  | .switch hv hcs => .switch (hv.flip hR) (hcs.flip hR)
  | .branches hbs => .branches (hbs.flip hR)

theorem Cases.Renamed.flip (hR : Relator.RightUnique R) {cs cs' : Cases} :
    cs.Renamed R cs' -> cs'.Renamed (Function.swap R) cs
  | .nil => .nil
  | .cons hl hp he hrest => .cons (hl.flip hR) (hp.flip hR) (he.flip hR) (hrest.flip hR)

theorem Branches.Renamed.flip (hR : Relator.RightUnique R) {bs bs' : Branches} :
    bs.Renamed R bs' -> bs'.Renamed (Function.swap R) bs
  | .nil => .nil
  | .cons hl he hrest => .cons (hl.flip hR) (he.flip hR) (hrest.flip hR)

end

theorem Value.Renamed.eq_iff (hR : Relator.BiUnique R) {v v' w w' : Value}
    (hv : v.Renamed R v') (hw : w.Renamed R w') : v = w ↔ v' = w' := by
  have hback : Relator.RightUnique (Function.swap R) := fun _ _ _ hx hy => hR.1 hx hy
  constructor
  · rintro rfl
    exact hv.unique hR.2 hw
  · rintro rfl
    exact (hv.flip hR.2).unique hback (hw.flip hR.2)

/-!
## Terms that are their own renaming
-/

mutual

/-- The names that a value spells: those of variables, of patterns, of boxes and for the boxes
themselves. -/
def Value.spelled : Value -> List String
  | .number _ | .symbol _ | .pointer _ | .process _ | .stray _ => []
  | .variable x => [x]
  | .variant l p => l.spelled ++ p.spelled
  | .record fs => fs.spelled
  | .extend b l v => b.spelled ++ (l.spelled ++ v.spelled)
  | .extendBy b p => b.spelled ++ p.spelled
  | .box b => b.spelled
  | .operand e => e.spelled

def Fields.spelled : Fields -> List String
  | .nil => []
  | .cons l v rest => l.spelled ++ (v.spelled ++ rest.spelled)
  | .foreign p rest => p.spelled ++ rest.spelled

def Box.spelled : Box -> List String
  | .mk code self captured => code.spelled ++ (self.toList ++ captured.spelled)
  | .stray _ => []

def Boxes.spelled : Boxes -> List String
  | .nil => []
  | .cons x b rest => x :: (b.spelled ++ rest.spelled)

def Pattern.spelled : Pattern -> List String
  | .ignore | .stray _ => []
  | .variable x => [x]
  | .fields ps => ps.spelled
  | .variant l p => l.spelled ++ p.spelled
  | .variantBy p => p.spelled

def FieldPatterns.spelled : FieldPatterns -> List String
  | .nil => []
  | .cons l p rest => l.spelled ++ (p.spelled ++ rest.spelled)
  | .foreign p rest => p.spelled ++ rest.spelled

def Computation.spelled : Computation -> List String
  | .hole | .stray _ => []
  | .returned v | .ret v | .extract v | .get v | .link v => v.spelled
  | .put s v => s.spelled ++ v.spelled
  | .assert a _ b => a.spelled ++ b.spelled
  | .nest v e | .spawn v e => v.spelled ++ e.spelled
  | .apply e v | .project e v => e.spelled ++ v.spelled
  | .lambda p e => p.spelled ++ e.spelled
  | .bind p e₁ e₂ | .bindBox p e₁ e₂ => p.spelled ++ (e₁.spelled ++ e₂.spelled)
  | .switch v cs => v.spelled ++ cs.spelled
  | .branches bs => bs.spelled

def Cases.spelled : Cases -> List String
  | .nil => []
  | .cons l p e rest => l.spelled ++ (p.spelled ++ (e.spelled ++ rest.spelled))
  | .foreign p rest => p.spelled ++ rest.spelled

def Branches.spelled : Branches -> List String
  | .nil => []
  | .cons l e rest => l.spelled ++ (e.spelled ++ rest.spelled)
  | .foreign p rest => p.spelled ++ rest.spelled

def Part.spelled : Part -> List String
  | .field l v => l.spelled ++ v.spelled
  | .fieldPattern l p => l.spelled ++ p.spelled
  | .case l p e => l.spelled ++ (p.spelled ++ e.spelled)
  | .branch l e => l.spelled ++ e.spelled
  | .labelled l _ => l.spelled
  | .stray _ => []

end

section Reflexive

variable {S : Screen}

theorem Screen.Strict.not_foreign (strict : S.Strict) : ¬ S.foreign := by
  rw [strict.foreign]
  exact Bool.false_ne_true

theorem Screen.Strict.not_stray (strict : S.Strict) {o : Object} : ¬ S.stray o := by
  rw [strict.stray o]
  exact Bool.false_ne_true

mutual

/-- A well-sorted term is its own renaming when the names that it spells belong to themselves. -/
theorem Value.renamed_self (strict : S.Strict) :
    (v : Value) -> v.passes S -> (∀ x ∈ v.spelled, R x x) -> v.Renamed R v
  | .number n, _, _ => .number n
  | .symbol s, _, _ => .symbol s
  | .pointer s, _, _ => .pointer s
  | .process s, _, _ => .process s
  | .variable x, _, h => .variable (h x (List.mem_singleton_self x))
  | .variant l p, hv, h => by
      simp only [Value.passes, Bool.and_eq_true] at hv
      simp only [Value.spelled, List.forall_mem_append] at h
      exact .variant (l.renamed_self strict hv.1 h.1) (p.renamed_self strict hv.2 h.2)
  | .record fs, hv, h => .record (fs.renamed_self strict hv h)
  | .extend b l v, hv, h => by
      simp only [Value.passes, Bool.and_eq_true] at hv
      simp only [Value.spelled, List.forall_mem_append] at h
      exact .extend (b.renamed_self strict hv.1.1 h.1) (l.renamed_self strict hv.1.2 h.2.1)
        (v.renamed_self strict hv.2 h.2.2)
  | .extendBy b p, hv, _ => by
      simp only [Value.passes, Bool.and_eq_true] at hv
      exact absurd hv.1.1 strict.not_foreign
  | .box b, hv, h => .box (b.renamed_self strict hv h)
  | .operand e, hv, h => by
      simp only [Value.passes, Bool.and_eq_true] at hv
      exact .operand (e.renamed_self strict hv.2 h)
  | .stray o, hv, _ => absurd hv strict.not_stray

theorem Fields.renamed_self (strict : S.Strict) :
    (fs : Fields) -> fs.passes S -> (∀ x ∈ fs.spelled, R x x) -> fs.Renamed R fs
  | .nil, _, _ => .nil
  | .cons l v rest, hfs, h => by
      simp only [Fields.passes, Bool.and_eq_true] at hfs
      simp only [Fields.spelled, List.forall_mem_append] at h
      exact .cons (l.renamed_self strict hfs.1.1 h.1) (v.renamed_self strict hfs.1.2 h.2.1)
        (rest.renamed_self strict hfs.2 h.2.2)
  | .foreign p rest, hfs, _ => by
      simp only [Fields.passes, Bool.and_eq_true] at hfs
      exact absurd hfs.1.1 strict.not_foreign

theorem Box.renamed_self (strict : S.Strict) :
    (b : Box) -> b.passes S -> (∀ x ∈ b.spelled, R x x) -> b.Renamed R b
  | .mk code self captured, hb, h => by
      simp only [Box.passes, Bool.and_eq_true] at hb
      simp only [Box.spelled, List.forall_mem_append, Option.mem_toList] at h
      have hself : Option.Rel R self self := by
        cases self with
        | none => exact .none
        | some x => exact .some (h.2.1 x rfl)
      exact .mk (code.renamed_self strict hb.1 h.1) hself (captured.renamed_self strict hb.2 h.2.2)
  | .stray o, hb, _ => absurd hb strict.not_stray

theorem Boxes.renamed_self (strict : S.Strict) :
    (bs : Boxes) -> bs.passes S -> (∀ x ∈ bs.spelled, R x x) -> bs.Renamed R bs
  | .nil, _, _ => .nil
  | .cons x b rest, hbs, h => by
      simp only [Boxes.passes, Bool.and_eq_true] at hbs
      simp only [Boxes.spelled, List.forall_mem_cons, List.forall_mem_append] at h
      exact .cons h.1 (b.renamed_self strict hbs.1 h.2.1) (rest.renamed_self strict hbs.2 h.2.2)

theorem Pattern.renamed_self (strict : S.Strict) :
    (p : Pattern) -> p.passes S -> (∀ x ∈ p.spelled, R x x) -> p.Renamed R p
  | .ignore, _, _ => .ignore
  | .variable x, _, h => .variable (h x (List.mem_singleton_self x))
  | .fields ps, hp, h => .fields (ps.renamed_self strict hp h)
  | .variant l p, hp, h => by
      simp only [Pattern.passes, Bool.and_eq_true] at hp
      simp only [Pattern.spelled, List.forall_mem_append] at h
      exact .variant (l.renamed_self strict hp.1 h.1) (p.renamed_self strict hp.2 h.2)
  | .variantBy p, hp, _ => by
      simp only [Pattern.passes, Bool.and_eq_true] at hp
      exact absurd hp.1 strict.not_foreign
  | .stray o, hp, _ => absurd hp strict.not_stray

theorem FieldPatterns.renamed_self (strict : S.Strict) :
    (ps : FieldPatterns) -> ps.passes S -> (∀ x ∈ ps.spelled, R x x) -> ps.Renamed R ps
  | .nil, _, _ => .nil
  | .cons l p rest, hps, h => by
      simp only [FieldPatterns.passes, Bool.and_eq_true] at hps
      simp only [FieldPatterns.spelled, List.forall_mem_append] at h
      exact .cons (l.renamed_self strict hps.1.1 h.1) (p.renamed_self strict hps.1.2 h.2.1)
        (rest.renamed_self strict hps.2 h.2.2)
  | .foreign p rest, hps, _ => by
      simp only [FieldPatterns.passes, Bool.and_eq_true] at hps
      exact absurd hps.1.1 strict.not_foreign

theorem Computation.renamed_self (strict : S.Strict) :
    (e : Computation) -> e.passes S -> (∀ x ∈ e.spelled, R x x) -> e.Renamed R e
  | .hole, _, _ => .hole
  | .returned v, he, h => by
      simp only [Computation.passes, Bool.and_eq_true] at he
      exact .returned (v.renamed_self strict he.2 h)
  | .ret v, he, h => .ret (v.renamed_self strict he h)
  | .extract v, he, h => .extract (v.renamed_self strict he h)
  | .get v, he, h => .get (v.renamed_self strict he h)
  | .link v, he, h => .link (v.renamed_self strict he h)
  | .put s v, he, h => by
      simp only [Computation.passes, Bool.and_eq_true] at he
      simp only [Computation.spelled, List.forall_mem_append] at h
      exact .put (s.renamed_self strict he.1 h.1) (v.renamed_self strict he.2 h.2)
  | .assert a equal b, he, h => by
      simp only [Computation.passes, Bool.and_eq_true] at he
      simp only [Computation.spelled, List.forall_mem_append] at h
      exact .assert equal (a.renamed_self strict he.1 h.1) (b.renamed_self strict he.2 h.2)
  | .nest v e, he, h => by
      simp only [Computation.passes, Bool.and_eq_true] at he
      simp only [Computation.spelled, List.forall_mem_append] at h
      exact .nest (v.renamed_self strict he.1 h.1) (e.renamed_self strict he.2 h.2)
  | .spawn v e, he, h => by
      simp only [Computation.passes, Bool.and_eq_true] at he
      simp only [Computation.spelled, List.forall_mem_append] at h
      exact .spawn (v.renamed_self strict he.1.2 h.1) (e.renamed_self strict he.2 h.2)
  | .apply e v, he, h => by
      simp only [Computation.passes, Bool.and_eq_true] at he
      simp only [Computation.spelled, List.forall_mem_append] at h
      exact .apply (e.renamed_self strict he.1 h.1) (v.renamed_self strict he.2 h.2)
  | .project e v, he, h => by
      simp only [Computation.passes, Bool.and_eq_true] at he
      simp only [Computation.spelled, List.forall_mem_append] at h
      exact .project (e.renamed_self strict he.1 h.1) (v.renamed_self strict he.2 h.2)
  | .lambda p e, he, h => by
      simp only [Computation.passes, Bool.and_eq_true] at he
      simp only [Computation.spelled, List.forall_mem_append] at h
      exact .lambda (p.renamed_self strict he.1 h.1) (e.renamed_self strict he.2 h.2)
  | .bind p e₁ e₂, he, h => by
      simp only [Computation.passes, Bool.and_eq_true] at he
      simp only [Computation.spelled, List.forall_mem_append] at h
      exact .bind (p.renamed_self strict he.1.1 h.1) (e₁.renamed_self strict he.1.2 h.2.1)
        (e₂.renamed_self strict he.2 h.2.2)
  | .bindBox p e₁ e₂, he, h => by
      simp only [Computation.passes, Bool.and_eq_true] at he
      simp only [Computation.spelled, List.forall_mem_append] at h
      have hbox : ∀ x, p = .variable x -> R x x := by
        intro x hp
        subst hp
        exact h.1 x (List.mem_singleton_self x)
      exact .bindBox (p.renamed_self strict he.1.1 h.1) hbox
        (e₁.renamed_self strict he.1.2 h.2.1) (e₂.renamed_self strict he.2 h.2.2)
  | .switch v cs, he, h => by
      simp only [Computation.passes, Bool.and_eq_true] at he
      simp only [Computation.spelled, List.forall_mem_append] at h
      exact .switch (v.renamed_self strict he.1 h.1) (cs.renamed_self strict he.2 h.2)
  | .branches bs, he, h => .branches (bs.renamed_self strict he h)
  | .stray o, he, _ => absurd he strict.not_stray

theorem Cases.renamed_self (strict : S.Strict) :
    (cs : Cases) -> cs.passes S -> (∀ x ∈ cs.spelled, R x x) -> cs.Renamed R cs
  | .nil, _, _ => .nil
  | .cons l p e rest, hcs, h => by
      simp only [Cases.passes, Bool.and_eq_true] at hcs
      simp only [Cases.spelled, List.forall_mem_append] at h
      exact .cons (l.renamed_self strict hcs.1.1.1 h.1) (p.renamed_self strict hcs.1.1.2 h.2.1)
        (e.renamed_self strict hcs.1.2 h.2.2.1) (rest.renamed_self strict hcs.2 h.2.2.2)
  | .foreign p rest, hcs, _ => by
      simp only [Cases.passes, Bool.and_eq_true] at hcs
      exact absurd hcs.1.1 strict.not_foreign

theorem Branches.renamed_self (strict : S.Strict) :
    (bs : Branches) -> bs.passes S -> (∀ x ∈ bs.spelled, R x x) -> bs.Renamed R bs
  | .nil, _, _ => .nil
  | .cons l e rest, hbs, h => by
      simp only [Branches.passes, Bool.and_eq_true] at hbs
      simp only [Branches.spelled, List.forall_mem_append] at h
      exact .cons (l.renamed_self strict hbs.1.1 h.1) (e.renamed_self strict hbs.1.2 h.2.1)
        (rest.renamed_self strict hbs.2 h.2.2)
  | .foreign p rest, hbs, _ => by
      simp only [Branches.passes, Bool.and_eq_true] at hbs
      exact absurd hbs.1.1 strict.not_foreign

end

end Reflexive

end PushValue
