import Mathlib.Data.List.Forall2
import PushValue.Proofs.Normalize.Inline
import PushValue.Proofs.Scope.Basic

/-!
# Hygiene of normalization

Normalization changes neither the free names of a computation nor those of the boxes in it.  So no
operand leaves the scope of a name that it uses, and no drawn name is captured or left unbound.

An open binding is not yet around the term that it was hoisted out of.  The free names of the two
together are those of the original term, apart from the names of the bindings, and closing the
bindings takes these away.
-/

namespace PushValue

/-!
## Free names

The code of a box is a scope of its own, so the boxes of a term are looked at apart from it.  What
is extracted by name is a box and not a use of the name as a variable.
-/

mutual

def Value.isFree (x : String) : Value -> Bool
  | .number _ | .symbol _ | .pointer _ | .process _ | .box _ | .stray _ => false
  | .variable y => y == x
  | .variant l p => l.isFree x || p.isFree x
  | .record fs => fs.isFree x
  | .extend b l v => b.isFree x || l.isFree x || v.isFree x
  | .extendBy b p => b.isFree x || p.isFree x
  | .operand e => e.isFree x

def Fields.isFree (x : String) : Fields -> Bool
  | .nil => false
  | .cons l v rest => l.isFree x || v.isFree x || rest.isFree x
  | .foreign p rest => p.isFree x || rest.isFree x

/-- The labels of a pattern use names and the rest of it binds them. -/
def Pattern.isFree (x : String) : Pattern -> Bool
  | .ignore | .variable _ | .stray _ => false
  | .fields ps => ps.isFree x
  | .variant l p => l.isFree x || p.isFree x
  | .variantBy p => p.isFree x

def FieldPatterns.isFree (x : String) : FieldPatterns -> Bool
  | .nil => false
  | .cons l p rest => l.isFree x || p.isFree x || rest.isFree x
  | .foreign p rest => p.isFree x || rest.isFree x

def Computation.isFree (x : String) : Computation -> Bool
  | .ret v | .returned v | .get v | .link v => v.isFree x
  | .extract v =>
      match v with
      | .variable _ => false
      | v => v.isFree x
  | .put a b | .assert a _ b => a.isFree x || b.isFree x
  | .nest v e | .spawn v e | .apply e v | .project e v => v.isFree x || e.isFree x
  | .lambda p e => p.isFree x || (e.isFree x && !p.names.contains x)
  | .bind p e₁ e₂ => p.isFree x || (e₁.isFree x || (e₂.isFree x && !p.names.contains x))
  | .bindBox p e₁ e₂ => p.isFree x || (e₁.isFree x || e₂.isFree x)
  | .switch v cs => v.isFree x || cs.isFree x
  | .branches bs => bs.isFree x
  | .hole | .stray _ => false

def Cases.isFree (x : String) : Cases -> Bool
  | .nil => false
  | .cons l p e rest =>
      p.isFree x || (l.isFree x || (e.isFree x && !p.names.contains x) || rest.isFree x)
  | .foreign p rest => p.isFree x || rest.isFree x

def Branches.isFree (x : String) : Branches -> Bool
  | .nil => false
  | .cons l e rest => l.isFree x || e.isFree x || rest.isFree x
  | .foreign p rest => p.isFreeBranch x || rest.isFree x

def Part.isFree (x : String) : Part -> Bool
  | .field l v => l.isFree x || v.isFree x
  | .fieldPattern l p => l.isFree x || p.isFree x
  | .case l p e => l.isFree x || p.isFree x || (e.isFree x && !p.names.contains x)
  | .branch l e => l.isFree x || e.isFree x
  | .labelled l _ => l.isFree x
  | .stray _ => false

/-- A part among branches binds nothing, whatever pattern it has. -/
def Part.isFreeBranch (x : String) : Part -> Bool
  | .case l _ e | .branch l e => l.isFree x || e.isFree x
  | .field l _ | .fieldPattern l _ | .labelled l _ => l.isFree x
  | .stray _ => false

end

/-- Whether a name is free in the code of a box, which sees the name of the box itself. -/
def Box.isFree (x : String) : Box -> Bool
  | .mk code self _ => code.isFree x && !self.toList.contains x
  | .stray _ => false

mutual

/-- The boxes in a value, those in the code of boxes and those that boxes captured among them. -/
def Value.boxes : Value -> List Box
  | .number _ | .symbol _ | .pointer _ | .process _ | .variable _ | .stray _ => []
  | .variant l p => l.boxes ++ p.boxes
  | .record fs => fs.boxes
  | .extend b l v => b.boxes ++ l.boxes ++ v.boxes
  | .extendBy b p => b.boxes ++ p.boxes
  | .box b => b.boxes
  | .operand e => e.boxes

def Fields.boxes : Fields -> List Box
  | .nil => []
  | .cons l v rest => l.boxes ++ v.boxes ++ rest.boxes
  | .foreign p rest => p.boxes ++ rest.boxes

def Box.boxes : Box -> List Box
  | .mk code self captured => .mk code self captured :: (captured.boxes ++ code.boxes)
  | .stray _ => []

def Boxes.boxes : Boxes -> List Box
  | .nil => []
  | .cons _ b rest => b.boxes ++ rest.boxes

def Pattern.boxes : Pattern -> List Box
  | .ignore | .variable _ | .stray _ => []
  | .fields ps => ps.boxes
  | .variant l p => l.boxes ++ p.boxes
  | .variantBy p => p.boxes

def FieldPatterns.boxes : FieldPatterns -> List Box
  | .nil => []
  | .cons l p rest => l.boxes ++ p.boxes ++ rest.boxes
  | .foreign p rest => p.boxes ++ rest.boxes

def Computation.boxes : Computation -> List Box
  | .ret v | .returned v | .get v | .link v | .extract v => v.boxes
  | .put a b | .assert a _ b => a.boxes ++ b.boxes
  | .nest v e | .spawn v e | .apply e v | .project e v => v.boxes ++ e.boxes
  | .lambda p e => p.boxes ++ e.boxes
  | .bind p e₁ e₂ | .bindBox p e₁ e₂ => p.boxes ++ (e₁.boxes ++ e₂.boxes)
  | .switch v cs => v.boxes ++ cs.boxes
  | .branches bs => bs.boxes
  | .hole | .stray _ => []

def Cases.boxes : Cases -> List Box
  | .nil => []
  | .cons l p e rest => p.boxes ++ (l.boxes ++ e.boxes ++ rest.boxes)
  | .foreign p rest => p.boxes ++ rest.boxes

def Branches.boxes : Branches -> List Box
  | .nil => []
  | .cons l e rest => l.boxes ++ e.boxes ++ rest.boxes
  | .foreign p rest => p.branchBoxes ++ rest.boxes

def Part.boxes : Part -> List Box
  | .field l v => l.boxes ++ v.boxes
  | .fieldPattern l p => l.boxes ++ p.boxes
  | .case l p e => l.boxes ++ p.boxes ++ e.boxes
  | .branch l e => l.boxes ++ e.boxes
  | .labelled l _ => l.boxes
  | .stray _ => []

def Part.branchBoxes : Part -> List Box
  | .case l _ e | .branch l e => l.boxes ++ e.boxes
  | .field l _ | .fieldPattern l _ | .labelled l _ => l.boxes
  | .stray _ => []

end

/-!
## A name that is not used is not free
-/

section Unused

variable {x : String}

theorem Value.isFree_variable_of_unused {y : String}
    (h : ((Value.variable y).sightings x).Unused) : (Value.variable y).isFree x = false := by
  rw [Value.isFree, beq_eq_false_iff_ne]
  intro heq
  rw [Value.sightings, if_pos heq] at h
  cases h

theorem or_eq_false {a b : Bool} (ha : a = false) (hb : b = false) : (a || b) = false := by
  rw [ha, hb]
  rfl

theorem and_eq_false {a b : Bool} (ha : a = false) : (a && b) = false := by
  rw [ha]
  rfl

theorem Pattern.unused_of_sightingsAt {p : Pattern} {e₁ e₂ : Computation}
    (h : (p.sightingsAt x e₁ e₂).Unused) : (p.sightings x).Unused := by
  by_cases hp : p = .variable x
  · rw [hp, Pattern.sightings, if_pos rfl]
    rfl
  · rw [sightingsAt, if_neg hp] at h
    exact h

mutual

theorem Value.isFree_of_unused : (v : Value) -> (v.sightings x).Unused -> v.isFree x = false
  | .number _, _ | .symbol _, _ | .pointer _, _ | .process _, _ | .box _, _ | .stray _, _ => rfl
  | .variable _, h => Value.isFree_variable_of_unused h
  | .variant l p, h => or_eq_false (l.isFree_of_unused h.left) (p.isFree_of_unused h.right)
  | .record fs, h => fs.isFree_of_unused h
  | .extend b l v, h =>
      or_eq_false (or_eq_false (b.isFree_of_unused h.left.left) (l.isFree_of_unused h.left.right))
        (v.isFree_of_unused h.right)
  | .extendBy b p, h => or_eq_false (b.isFree_of_unused h.left) (p.isFree_of_unused h.right)
  | .operand e, h => e.isFree_of_unused h

theorem Fields.isFree_of_unused : (fs : Fields) -> (fs.sightings x).Unused -> fs.isFree x = false
  | .nil, _ => rfl
  | .cons l v rest, h =>
      or_eq_false (or_eq_false (l.isFree_of_unused h.left.left) (v.isFree_of_unused h.left.right))
        (rest.isFree_of_unused h.right)
  | .foreign p rest, h =>
      or_eq_false (p.isFree_of_unused h.left) (rest.isFree_of_unused h.right)

theorem Pattern.isFree_of_unused : (p : Pattern) -> (p.sightings x).Unused -> p.isFree x = false
  | .ignore, _ | .variable _, _ | .stray _, _ => rfl
  | .fields ps, h => ps.isFree_of_unused h
  | .variant l p, h => or_eq_false (l.isFree_of_unused h.left) (p.isFree_of_unused h.right)
  | .variantBy p, h => p.isFree_of_unused h

theorem FieldPatterns.isFree_of_unused :
    (ps : FieldPatterns) -> (ps.sightings x).Unused -> ps.isFree x = false
  | .nil, _ => rfl
  | .cons l p rest, h =>
      or_eq_false (or_eq_false (l.isFree_of_unused h.left.left) (p.isFree_of_unused h.left.right))
        (rest.isFree_of_unused h.right)
  | .foreign p rest, h =>
      or_eq_false (p.isFree_of_unused h.left) (rest.isFree_of_unused h.right)

theorem Computation.isFree_of_unused :
    (e : Computation) -> (e.sightings x).Unused -> e.isFree x = false
  | .ret v, h | .returned v, h | .get v, h | .link v, h => v.isFree_of_unused h
  | .extract v, h => by
      have hv := v.isFree_of_unused h
      unfold Computation.isFree
      split
      next => rfl
      next => exact hv
  | .put a b, h | .assert a _ b, h =>
      or_eq_false (a.isFree_of_unused h.left) (b.isFree_of_unused h.right)
  | .nest v e, h | .spawn v e, h | .apply e v, h | .project e v, h =>
      or_eq_false (v.isFree_of_unused h.left) (e.isFree_of_unused h.right)
  | .lambda p e, h =>
      or_eq_false (p.isFree_of_unused h.left) (and_eq_false (e.isFree_of_unused h.right))
  | .bind p e₁ e₂, h =>
      or_eq_false (p.isFree_of_unused (Pattern.unused_of_sightingsAt h.left))
        (or_eq_false (e₁.isFree_of_unused h.right.left)
          (and_eq_false (e₂.isFree_of_unused h.right.right)))
  | .bindBox p e₁ e₂, h =>
      or_eq_false (p.isFree_of_unused h.left)
        (or_eq_false (e₁.isFree_of_unused h.right.left) (e₂.isFree_of_unused h.right.right))
  | .switch v cs, h => or_eq_false (v.isFree_of_unused h.left) (cs.isFree_of_unused h.right)
  | .branches bs, h => bs.isFree_of_unused h
  | .hole, _ | .stray _, _ => rfl

theorem Cases.isFree_of_unused : (cs : Cases) -> (cs.sightings x).Unused -> cs.isFree x = false
  | .nil, _ => rfl
  | .cons l p e rest, h =>
      or_eq_false (p.isFree_of_unused h.left)
        (or_eq_false (or_eq_false (l.isFree_of_unused h.right.left.left)
          (and_eq_false (e.isFree_of_unused h.right.left.right)))
          (rest.isFree_of_unused h.right.right))
  | .foreign p rest, h =>
      or_eq_false (p.isFree_of_unused h.left) (rest.isFree_of_unused h.right)

theorem Branches.isFree_of_unused :
    (bs : Branches) -> (bs.sightings x).Unused -> bs.isFree x = false
  | .nil, _ => rfl
  | .cons l e rest, h =>
      or_eq_false (or_eq_false (l.isFree_of_unused h.left.left) (e.isFree_of_unused h.left.right))
        (rest.isFree_of_unused h.right)
  | .foreign p rest, h =>
      or_eq_false (p.isFreeBranch_of_unused h.left) (rest.isFree_of_unused h.right)

theorem Part.isFree_of_unused : (p : Part) -> (p.sightings x).Unused -> p.isFree x = false
  | .field l v, h => or_eq_false (l.isFree_of_unused h.left) (v.isFree_of_unused h.right)
  | .fieldPattern l p, h => or_eq_false (l.isFree_of_unused h.left) (p.isFree_of_unused h.right)
  | .case l p e, h =>
      or_eq_false (or_eq_false (l.isFree_of_unused h.left.left) (p.isFree_of_unused h.left.right))
        (and_eq_false (e.isFree_of_unused h.right))
  | .branch l e, h => or_eq_false (l.isFree_of_unused h.left) (e.isFree_of_unused h.right)
  | .labelled l _, h => l.isFree_of_unused h
  | .stray _, _ => rfl

theorem Part.isFreeBranch_of_unused :
    (p : Part) -> (p.sightings x).Unused -> p.isFreeBranch x = false
  | .case l _ e, h => or_eq_false (l.isFree_of_unused h.left.left) (e.isFree_of_unused h.right)
  | .branch l e, h => or_eq_false (l.isFree_of_unused h.left) (e.isFree_of_unused h.right)
  | .field l _, h | .fieldPattern l _, h => l.isFree_of_unused h.left
  | .labelled l _, h => l.isFree_of_unused h
  | .stray _, _ => rfl

end

end Unused

/-!
## Closing bindings
-/

namespace Binding

def isFree (x : String) (bs : List Binding) : Bool := bs.any fun b => b.bound.isFree x

def boxes (bs : List Binding) : List Box := bs.flatMap fun b => b.bound.boxes

variable {x : String} {bs : List Binding}

theorem isFree_append (bs cs : List Binding) :
    Binding.isFree x (bs ++ cs) = (Binding.isFree x bs || Binding.isFree x cs) :=
  List.any_append

theorem boxes_append (bs cs : List Binding) :
    Binding.boxes (bs ++ cs) = Binding.boxes bs ++ Binding.boxes cs :=
  List.flatMap_append

theorem isFree_of_unused (h : (Binding.sightings x bs).Unused) : Binding.isFree x bs = false := by
  induction bs with
  | nil => rfl
  | cons b rest ih => exact or_eq_false (b.bound.isFree_of_unused h.left) (ih h.right)

end Binding

namespace Computation

variable {x : String} {bs : List Binding}

theorem isFree_close (hx : x ∉ bs.map Binding.name) (e : Computation) :
    (e.close bs).isFree x = (e.isFree x || Binding.isFree x bs) := by
  induction bs generalizing e with
  | nil => exact (Bool.or_false _).symm
  | cons b rest ih =>
      rw [List.map_cons, List.mem_cons, not_or] at hx
      have hbind : (Computation.bind (.variable b.name) b.bound e).isFree x =
          (b.bound.isFree x || e.isFree x) := by
        simp [isFree, Pattern.isFree, Pattern.names, hx.1]
      calc
        (e.close (b :: rest)).isFree x
          = ((Computation.bind (.variable b.name) b.bound e).isFree x ||
              Binding.isFree x rest) := by rw [close_cons, ih hx.2]
        _ = (e.isFree x || (b.bound.isFree x || Binding.isFree x rest)) := by
          rw [hbind, Bool.or_comm (b.bound.isFree x), Bool.or_assoc]

/-- A name that bindings bind is not free in a closed computation, unless what is bound uses it. -/
theorem isFree_close_of_mem (hx : x ∈ bs.map Binding.name) (hbs : Binding.isFree x bs = false)
    (e : Computation) : (e.close bs).isFree x = false := by
  induction bs generalizing e with
  | nil => cases hx
  | cons b rest ih =>
      have hbound : b.bound.isFree x = false := (Bool.or_eq_false_iff.mp hbs).1
      have hrest : Binding.isFree x rest = false := (Bool.or_eq_false_iff.mp hbs).2
      rw [close_cons]
      by_cases hmem : x ∈ rest.map Binding.name
      · exact ih hmem hrest _
      · have hname : x = b.name := (List.mem_cons.mp hx).resolve_right hmem
        rw [isFree_close hmem, hrest, Bool.or_false]
        subst hname
        simp [isFree, Pattern.isFree, Pattern.names, hbound]

theorem boxes_close (e : Computation) (bs : List Binding) :
    (e.close bs).boxes.Perm (e.boxes ++ Binding.boxes bs) :=
  perm_close boxes (fun _ _ _ => rfl) e bs

end Computation

/-!
## Boxes that match
-/

/-- A box that hoisting reaches has its code normalized, and any other one stays as it is. -/
def Box.Becomes (b b' : Box) : Prop := b' = b ∨ ∃ supply rest, b.hoist supply = .ok (b', rest)

def Box.Matches (b b' : Box) : Prop := b.Becomes b' ∧ ∀ x, b'.isFree x = b.isFree x

theorem Box.Matches.refl (b : Box) : b.Matches b := ⟨.inl rfl, fun _ => rfl⟩

def Box.AllMatch (bs bs' : List Box) : Prop := ∃ cs, cs.Perm bs' ∧ List.Forall₂ Box.Matches bs cs

namespace Box.AllMatch

variable {bs bs' cs cs' : List Box}

theorem refl (bs : List Box) : AllMatch bs bs :=
  ⟨bs, .refl _, List.forall₂_same.mpr fun b _ => Box.Matches.refl b⟩

theorem perm (h : AllMatch bs bs') (hperm : bs'.Perm cs) : AllMatch bs cs := by
  rcases h with ⟨ds, hds, hmatch⟩
  exact ⟨ds, hds.trans hperm, hmatch⟩

theorem append (hb : AllMatch bs bs') (hc : AllMatch cs cs') :
    AllMatch (bs ++ cs) (bs' ++ cs') := by
  rcases hb with ⟨ds, hds, hb⟩
  rcases hc with ⟨es, hes, hc⟩
  exact ⟨ds ++ es, hds.append hes, List.rel_append hb hc⟩

theorem cons {b b' : Box} (hb : b.Matches b') (hbs : AllMatch bs bs') :
    AllMatch (b :: bs) (b' :: bs') := by
  rcases hbs with ⟨ds, hds, hmatch⟩
  exact ⟨b' :: ds, hds.cons b', .cons hb hmatch⟩

end Box.AllMatch

/-!
## Hoisting is hygienic
-/

/-- What hoisting keeps of the free names and of the boxes of a term, when the given names are
drawn and the given bindings are left open. -/
structure Hoist.Hygienic (N ns : List String) (bs : List Binding) (seen : String -> Sightings)
    (free free' : String -> Bool) (boxes boxes' : List Box) : Prop where
  names : (bs.map Binding.name).Sublist ns
  free : Fresh N ns seen -> ∀ x, x ∉ bs.map Binding.name ->
    (free' x || Binding.isFree x bs) = free x
  boxes : Fresh N ns seen -> Box.AllMatch boxes (boxes' ++ Binding.boxes bs)

namespace Hoist.Hygienic

variable {N ns ms ks : List String} {bs cs ds : List Binding} {P Q S : String -> Sightings}
  {f f' g g' k k' : String -> Bool} {as as' es es' os os' : List Box}

theorem of_closed (hfree : Fresh N ns P -> ∀ x, f' x = f x)
    (hboxes : Fresh N ns P -> Box.AllMatch as as') : Hygienic N ns [] P f f' as as' where
  names := List.nil_sublist _
  free hfresh x _ := (Bool.or_false _).trans (hfree hfresh x)
  boxes hfresh := (hboxes hfresh).perm (.of_eq (List.append_nil _).symm)

theorem free_of_closed (h : Hygienic N ns [] P f f' as as') (hfresh : Fresh N ns P) (x : String) :
    f' x = f x :=
  (Bool.or_false _).symm.trans (h.free hfresh x List.not_mem_nil)

theorem boxes_of_closed (h : Hygienic N ns [] P f f' as as') (hfresh : Fresh N ns P) :
    Box.AllMatch as as' :=
  (h.boxes hfresh).perm (.of_eq (List.append_nil _))

theorem still : Hygienic N [] [] P f f as as := by
  apply of_closed
  · intro _ _
    rfl
  · intro _
    exact .refl _

theorem pair (hf : Hygienic N ns bs P f f' as as') (hg : Hygienic N ms cs Q g g' es es') :
    Hygienic N (ns ++ ms) (bs ++ cs) (fun t => P t ++ Q t) (fun x => f x || g x)
      (fun x => f' x || g' x) (as ++ es) (as' ++ es') where
  names := by
    rw [List.map_append]
    exact hf.names.append hg.names
  free := by
    intro hfresh x hx
    rw [List.map_append, List.mem_append, not_or] at hx
    rw [← hf.free hfresh.left x hx.1, ← hg.free hfresh.right x hx.2, Binding.isFree_append]
    simp only [Bool.or_assoc, Bool.or_left_comm]
  boxes := by
    intro hfresh
    apply ((hf.boxes hfresh.left).append (hg.boxes hfresh.right)).perm
    rw [Binding.boxes_append]
    exact perm_regroup _ _ _ _

theorem triple (hf : Hygienic N ns bs P f f' as as') (hg : Hygienic N ms cs Q g g' es es')
    (hk : Hygienic N ks ds S k k' os os') :
    Hygienic N (ns ++ (ms ++ ks)) (bs ++ cs ++ ds) (fun t => P t ++ Q t ++ S t)
      (fun x => f x || g x || k x) (fun x => f' x || g' x || k' x) (as ++ es ++ os)
      (as' ++ es' ++ os') := by
  rw [← List.append_assoc]
  exact (hf.pair hg).pair hk

theorem pairClosed (hf : Hygienic N ns bs P f f' as as') (hg : Hygienic N ms [] Q g g' es es') :
    Hygienic N (ns ++ ms) bs (fun t => P t ++ Q t) (fun x => f x || g x) (fun x => f' x || g' x)
      (as ++ es) (as' ++ es') := by
  rw [← List.append_nil bs]
  exact hf.pair hg

theorem tripleClosed (hf : Hygienic N ns bs P f f' as as')
    (hg : Hygienic N ms [] Q g g' es es') (hk : Hygienic N ks ds S k k' os os') :
    Hygienic N (ns ++ (ms ++ ks)) (bs ++ ds) (fun t => P t ++ Q t ++ S t)
      (fun x => f x || g x || k x) (fun x => f' x || g' x || k' x) (as ++ es ++ os)
      (as' ++ es' ++ os') := by
  rw [← List.append_assoc]
  exact (hf.pairClosed hg).pair hk

theorem widen (h : Hygienic N ns bs P f f' as as') (hseen : ∀ t, (Q t).Absent -> (P t).Absent) :
    Hygienic N ns bs Q f f' as as' := by
  have hinner : Fresh N ns Q -> Fresh N ns P := by
    intro hfresh
    exact ⟨hfresh.distinct, hfresh.drawn, fun t ht => hseen t (hfresh.absent t ht)⟩
  exact ⟨h.names, fun hfresh => h.free (hinner hfresh), fun hfresh => h.boxes (hinner hfresh)⟩

theorem beside (h : Hygienic N ns bs Q g g' es es') :
    Hygienic N ns bs (fun t => P t ++ Q t) (fun x => f x || g x) (fun x => f x || g' x)
      (as ++ es) (as ++ es') :=
  still.pair h

theorem under (h : Hygienic N ns [] P f f' as as') (names : List String) :
    Hygienic N ns [] P (fun x => f x && !names.contains x) (fun x => f' x && !names.contains x)
      as as' := by
  apply of_closed
  · intro hfresh x
    rw [h.free_of_closed hfresh x]
  · exact h.boxes_of_closed

theorem operand {e : Computation} (h : Hygienic N ns [] P f (fun x => e.isFree x) as e.boxes)
    (x : String) :
    Hygienic N (ns ++ [x]) [⟨x, e⟩] P f (fun y => (Value.variable x).isFree y) as [] := by
  have hinner : Fresh N (ns ++ [x]) P -> Fresh N ns P := by
    intro hfresh
    exact ⟨(List.nodup_append.mp hfresh.distinct).1,
      fun t ht => hfresh.drawn t (List.mem_append_left _ ht), hfresh.absent⟩
  constructor
  case names => exact List.sublist_append_right _ _
  case free =>
    intro hfresh y hy
    have hvariable : (Value.variable x).isFree y = false := by
      rw [Value.isFree, beq_eq_false_iff_ne]
      exact fun heq => hy (List.mem_singleton.mpr heq.symm)
    show ((Value.variable x).isFree y || (e.isFree y || false)) = f y
    rw [hvariable, Bool.false_or, Bool.or_false, h.free_of_closed (hinner hfresh) y]
  case boxes =>
    intro hfresh
    exact h.boxes (hinner hfresh)

end Hoist.Hygienic

section Hygiene

open Hoist

variable {mixed : Prop} {N ns : List String} {bs : List Binding}

namespace Computation.Hoists

variable {e e' : Computation}

theorem isFree_close (he : e.Hoists mixed ns e' bs)
    (h : Hygienic N ns bs (fun t => e.sightings t) (fun x => e.isFree x) (fun x => e'.isFree x)
      e.boxes e'.boxes) (hfresh : Fresh N ns fun t => e.sightings t) (x : String) :
    (e'.close bs).isFree x = e.isFree x := by
  by_cases hx : x ∈ bs.map Binding.name
  · -- The name is drawn, so that it is not in the computation and not in what is bound.
    have habsent := hfresh.absent x (hfresh.drawn x (h.names.subset hx))
    have hunused := ((he.placed habsent).apart hfresh.distinct hx).2
    rw [e.isFree_of_unused habsent.1]
    exact e'.isFree_close_of_mem hx (Binding.isFree_of_unused hunused)
  · rw [Computation.isFree_close hx]
    exact h.free hfresh x hx

theorem hygienic_closed (he : e.Hoists mixed ns e' bs)
    (h : Hygienic N ns bs (fun t => e.sightings t) (fun x => e.isFree x) (fun x => e'.isFree x)
      e.boxes e'.boxes) :
    Hygienic N ns [] (fun t => e.sightings t) (fun x => e.isFree x)
      (fun x => (e'.close bs).isFree x) e.boxes (e'.close bs).boxes := by
  apply Hygienic.of_closed
  · exact he.isFree_close h
  · intro hfresh
    exact (h.boxes hfresh).perm (e'.boxes_close bs).symm

end Computation.Hoists

/-- A variable that is extracted names a box, unless it stands for an operand. -/
theorem Value.Hoists.hygienic_extract {v v' : Value} (hv : v.Hoists mixed ns v' bs)
    (h : Hygienic N ns bs (fun t => v.sightings t) (fun x => v.isFree x) (fun x => v'.isFree x)
      v.boxes v'.boxes) :
    Hygienic N ns bs (fun t => v.sightings t) (fun x => (Computation.extract v).isFree x)
      (fun x => (Computation.extract v').isFree x) v.boxes v'.boxes := by
  cases hv with
  | «variable» x => exact .still
  | operand x he =>
      refine ⟨h.names, ?_, h.boxes⟩
      intro hfresh y hy
      have hvariable : (Value.variable x).isFree y = false := by
        rw [Value.isFree, beq_eq_false_iff_ne]
        exact fun heq => hy (List.mem_singleton.mpr heq.symm)
      have hfree := h.free hfresh y hy
      rw [hvariable] at hfree
      exact hfree
  | _ => exact h

/-- The code of a box is a scope of its own, and hoisting stays in it. -/
theorem Box.Hoists.hygienic_code {code code' : Computation} (self : Option String)
    (captured : Boxes) (hcode : code.Hoists mixed ns code' bs)
    (h : Hygienic N ns [] (fun t => code.sightings t) (fun x => code.isFree x)
      (fun x => (code'.close bs).isFree x) code.boxes (code'.close bs).boxes) :
    Hygienic N ns [] (fun t => (Box.mk code self captured).sightings t) (fun _ => false)
      (fun _ => false) (Box.mk code self captured).boxes
      (Box.mk (code'.close bs) self captured).boxes := by
  apply Hygienic.of_closed
  · intro _ _
    rfl
  · intro hfresh
    have hcodeFresh : Fresh N ns fun t => code.sightings t :=
      ⟨hfresh.distinct, hfresh.drawn, fun t ht => (hfresh.absent t ht).right⟩
    have hrun := (Box.Hoists.mk self captured hcode).runs _ _ (NameSupply.gives_listed ns [])
    have hinner := (Box.AllMatch.refl captured.boxes).append (h.boxes_of_closed hcodeFresh)
    refine .cons ⟨.inr ⟨_, _, hrun⟩, ?_⟩ hinner
    intro x
    rw [Box.isFree, Box.isFree, h.free_of_closed hcodeFresh x]

mutual

theorem Value.Hoists.hygienic {v v' : Value} {ns : List String} {bs : List Binding} :
    v.Hoists mixed ns v' bs -> Hygienic N ns bs (fun t => v.sightings t) (fun x => v.isFree x)
      (fun x => v'.isFree x) v.boxes v'.boxes
  | .number _ | .symbol _ | .pointer _ | .process _ | .variable _ => .still
  | .variant hl hp => hl.hygienic.pair hp.hygienic
  | .record hfs => hfs.hygienic
  | .extend hb hl hv => hb.hygienic.triple hl.hygienic hv.hygienic
  | .box hb => hb.hygienic
  | .operand x he => (he.hygienic_closed he.hygienic).operand x

theorem Fields.Hoists.hygienic {fs fs' : Fields} {ns : List String} {bs : List Binding} :
    fs.Hoists mixed ns fs' bs -> Hygienic N ns bs (fun t => fs.sightings t) (fun x => fs.isFree x)
      (fun x => fs'.isFree x) fs.boxes fs'.boxes
  | .nil => .still
  | .cons hl hv hrest => hl.hygienic.triple hv.hygienic hrest.hygienic

theorem Box.Hoists.hygienic {b b' : Box} {ns : List String} :
    b.Hoists mixed ns b' -> Hygienic N ns [] (fun t => b.sightings t) (fun _ => false)
      (fun _ => false) b.boxes b'.boxes
  | .mk self captured hcode =>
      Box.Hoists.hygienic_code self captured hcode (hcode.hygienic_closed hcode.hygienic)

theorem Computation.Hoists.hygienic {e e' : Computation} {ns : List String} {bs : List Binding} :
    e.Hoists mixed ns e' bs -> Hygienic N ns bs (fun t => e.sightings t) (fun x => e.isFree x)
      (fun x => e'.isFree x) e.boxes e'.boxes
  | .hole => .still
  | .ret hv | .get hv | .link hv => hv.hygienic
  | .extract hv => hv.hygienic_extract hv.hygienic
  | .put ha hb | .assert _ ha hb => ha.hygienic.pair hb.hygienic
  | .nest hv he | .spawn hv he => hv.hygienic.pairClosed (he.hygienic_closed he.hygienic)
  | .apply hv he | .project hv he => hv.hygienic.pair he.hygienic
  | .lambda p he => ((he.hygienic_closed he.hygienic).under p.names).beside
  | .bind p he₁ he₂ =>
      ((he₁.hygienic_closed he₁.hygienic).pair
        ((he₂.hygienic_closed he₂.hygienic).under p.names)).beside
  | .bindBox _ he₁ he₂ =>
      ((he₁.hygienic_closed he₁.hygienic).pair (he₂.hygienic_closed he₂.hygienic)).beside
  | .switch hv hcases => hv.hygienic.pair hcases.hygienic
  | .branches hbs => hbs.hygienic

theorem Cases.Hoists.hygienic {cs cs' : Cases} {ns : List String} {bs : List Binding} :
    cs.Hoists mixed ns cs' bs -> Hygienic N ns bs (fun t => cs.sightings t) (fun x => cs.isFree x)
      (fun x => cs'.isFree x) cs.boxes cs'.boxes
  | .nil => .still
  | .cons p hl he hrest =>
      (hl.hygienic.tripleClosed ((he.hygienic_closed he.hygienic).under p.names)
        hrest.hygienic).beside

theorem Branches.Hoists.hygienic {bs bs' : Branches} {ns : List String} {cs : List Binding} :
    bs.Hoists mixed ns bs' cs -> Hygienic N ns cs (fun t => bs.sightings t) (fun x => bs.isFree x)
      (fun x => bs'.isFree x) bs.boxes bs'.boxes
  | .nil => .still
  | .cons hl he hrest =>
      hl.hygienic.tripleClosed (he.hygienic_closed he.hygienic) hrest.hygienic
  | .foreign _ hp hrest => hp.hygienic.pair hrest.hygienic

theorem Part.Hoists.hygienic {p : Part} {ns : List String} {l : Value} {e : Computation}
    {bs : List Binding} : p.Hoists mixed ns l e bs ->
      Hygienic N ns bs (fun t => p.sightings t) (fun x => p.isFreeBranch x)
        (fun x => l.isFree x || e.isFree x) p.branchBoxes (l.boxes ++ e.boxes)
  | .case _ hl he =>
      (hl.hygienic.pairClosed (he.hygienic_closed he.hygienic)).widen
        fun _ h => Sightings.absent_append_iff.mpr ⟨h.left.left, h.right⟩
  | .branch hl he => hl.hygienic.pairClosed (he.hygienic_closed he.hygienic)

end

end Hygiene

/-!
## Normalization
-/

namespace Computation

/-- Normalization with names that are distinct and not in the computation keeps its free names, and
the boxes in the result are those of the computation, each with its code normalized, or left
alone, and with the free names that it had. -/
theorem isFree_normalize (e e' : Computation) (supply rest : NameSupply)
    (h : e.normalize supply = .ok (e', rest)) (hdistinct : ∀ n, (supply.take n).1.Nodup)
    (hfresh : ∀ n, ∀ t ∈ (supply.take n).1, (e.sightings t).Absent) :
    (∀ x, e'.isFree x = e.isFree x) ∧
      ∃ boxes, boxes.Perm e'.boxes ∧
        List.Forall₂ (fun b b' => b.Becomes b' ∧ ∀ x, b'.isFree x = b.isFree x) e.boxes boxes := by
  rcases exists_of_normalize (.inl trivial) h with ⟨names, hoisted, bs, hgives, hhoists, rfl⟩
  have hnames : (supply.take names.length).1 = names := congrArg Prod.fst hgives
  have hnodup : names.Nodup := hnames ▸ hdistinct names.length
  have habsent : ∀ t ∈ names, (e.sightings t).Absent := hnames ▸ hfresh names.length
  have hdrawn : Hoist.Fresh names names fun t => e.sightings t := ⟨hnodup, fun _ ht => ht, habsent⟩
  have hclosed := hhoists.hygienic_closed (N := names) hhoists.hygienic
  exact ⟨hclosed.free_of_closed hdrawn, hclosed.boxes_of_closed hdrawn⟩

def operandsUnderBinders : Computation :=
  .apply
    (.lambda (.variable "y")
      (.switch (.operand (.ret (.variable "y")))
        (.cons (.symbol (.name "a")) (.variable "w")
          (.put (.variable "z") (.operand (.ret (.variable "w")))) .nil)))
    (.box (.mk (.put (.symbol (.name "b")) (.operand (.get (.variable "s")))) (some "s") .nil))

theorem isFree_operandsUnderBinders (x : String) : operandsUnderBinders.isFree x = ("z" == x) := by
  simp only [operandsUnderBinders, isFree, Value.isFree, Cases.isFree, Pattern.isFree,
    Pattern.names]
  grind

theorem isFree_boxes_operandsUnderBinders :
    ∀ b ∈ operandsUnderBinders.boxes, ∀ x, b.isFree x = false := by
  intro b hb x
  cases List.mem_singleton.mp hb
  simp only [Box.isFree, isFree, Value.isFree]
  grind

theorem isFree_normalize_operandsUnderBinders :
    ∃ e', operandsUnderBinders.normalize (.listed ["t", "u", "v"]) = .ok (e', .listed []) ∧
      (∀ x, e'.isFree x = ("z" == x)) ∧
      e'.boxes.length = 1 ∧ ∀ b ∈ e'.boxes, ∀ x, b.isFree x = false := by
  have htake := NameSupply.take_listed ["t", "u", "v"]
  have habsent : ∀ t ∈ ["t", "u", "v"], (operandsUnderBinders.sightings t).Absent := by
    simp only [List.forall_mem_cons]
    exact ⟨⟨rfl, rfl⟩, ⟨rfl, rfl⟩, ⟨rfl, rfl⟩, List.forall_mem_nil _⟩
  have hkept := isFree_normalize operandsUnderBinders _ (.listed ["t", "u", "v"]) (.listed []) rfl
    (fun n => htake n ▸ (List.take_sublist n _).nodup (by decide))
    (fun n t ht => habsent t (List.mem_of_mem_take (htake n ▸ ht)))
  rcases hkept with ⟨hfree, boxes, hperm, hboxes⟩
  refine ⟨_, rfl, fun x => (hfree x).trans (isFree_operandsUnderBinders x), rfl, ?_⟩
  intro b hb x
  rcases hboxes with _ | ⟨hbox, ⟨⟩⟩
  cases List.mem_singleton.mp (hperm.mem_iff.mpr hb)
  rw [hbox.2]
  exact isFree_boxes_operandsUnderBinders _ List.mem_cons_self x

end Computation

end PushValue
