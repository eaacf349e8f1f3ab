import PushValue.Proofs.Normalize.Counting
import PushValue.Proofs.Renaming.Basic
import PushValue.Proofs.Scope.Basic
import PushValue.Settings

/-!
# Names of boxes under normalization

Values and boxes have names of their own, and a variable names a box only where it is extracted.
An operand leaves a variable behind and is bound as a value.  That is right in all places but one:
the operand of an extraction leaves a name that is looked up among the boxes, where nothing binds
it.

Normalization therefore keeps the free names of boxes, occurrence by occurrence, and adds the names
that were drawn for the operands of extractions.
-/

namespace PushValue

/-!
## Free names of boxes
-/

mutual

/-- The free names of boxes in a value, once for each occurrence.  A variable is one of them only if
it is extracted. -/
def Value.freeBoxes (extracted : Bool) : Value -> List String
  | .number _ | .symbol _ | .pointer _ | .process _ | .stray _ => []
  | .variable x => if extracted then [x] else []
  | .variant l p => l.freeBoxes false ++ p.freeBoxes false
  | .record fs => fs.freeBoxes
  | .extend b l v => b.freeBoxes false ++ (l.freeBoxes false ++ v.freeBoxes false)
  | .extendBy b p => b.freeBoxes false ++ p.freeBoxes
  | .box b => b.freeBoxes
  | .operand e => e.freeBoxes

def Fields.freeBoxes : Fields -> List String
  | .nil => []
  | .cons l v rest => l.freeBoxes false ++ (v.freeBoxes false ++ rest.freeBoxes)
  | .foreign p rest => p.freeBoxes ++ rest.freeBoxes

/-- A box binds the names that it captured, and not its own. -/
def Box.freeBoxes : Box -> List String
  | .mk code _ captured => (code.freeBoxes ++ captured.freeBoxes).filter (· ∉ captured.names)
  | .stray _ => []

def Boxes.freeBoxes : Boxes -> List String
  | .nil => []
  | .cons _ b rest => b.freeBoxes ++ rest.freeBoxes

def Pattern.freeBoxes : Pattern -> List String
  | .ignore | .variable _ | .stray _ => []
  | .fields ps => ps.freeBoxes
  | .variant l p => l.freeBoxes false ++ p.freeBoxes
  | .variantBy p => p.freeBoxes

def FieldPatterns.freeBoxes : FieldPatterns -> List String
  | .nil => []
  | .cons l p rest => l.freeBoxes false ++ (p.freeBoxes ++ rest.freeBoxes)
  | .foreign p rest => p.freeBoxes ++ rest.freeBoxes

def Computation.freeBoxes : Computation -> List String
  | .hole | .stray _ => []
  | .extract v => v.freeBoxes true
  | .ret v | .returned v | .get v | .link v => v.freeBoxes false
  | .put a b | .assert a _ b => a.freeBoxes false ++ b.freeBoxes false
  | .nest v e | .spawn v e => v.freeBoxes false ++ e.freeBoxes
  | .apply e v | .project e v => e.freeBoxes ++ v.freeBoxes false
  | .lambda p e => p.freeBoxes ++ e.freeBoxes
  | .bind p e₁ e₂ => p.freeBoxes ++ (e₁.freeBoxes ++ e₂.freeBoxes)
  | .bindBox p e₁ e₂ => p.freeBoxes ++ (e₁.freeBoxes ++ e₂.freeBoxes.filter (· ∉ p.boxNames))
  | .switch v cs => v.freeBoxes false ++ cs.freeBoxes
  | .branches bs => bs.freeBoxes

def Cases.freeBoxes : Cases -> List String
  | .nil => []
  | .cons l p e rest => l.freeBoxes false ++ (p.freeBoxes ++ (e.freeBoxes ++ rest.freeBoxes))
  | .foreign p rest => p.freeBoxes ++ rest.freeBoxes

def Branches.freeBoxes : Branches -> List String
  | .nil => []
  | .cons l e rest => l.freeBoxes false ++ (e.freeBoxes ++ rest.freeBoxes)
  | .foreign p rest => p.freeBoxes ++ rest.freeBoxes

def Part.freeBoxes : Part -> List String
  | .field l v => l.freeBoxes false ++ v.freeBoxes false
  | .fieldPattern l p => l.freeBoxes false ++ p.freeBoxes
  | .case l p e => l.freeBoxes false ++ (p.freeBoxes ++ e.freeBoxes)
  | .branch l e => l.freeBoxes false ++ e.freeBoxes
  | .labelled l _ => l.freeBoxes false
  | .stray _ => []

end

theorem Boxes.names_subset_spelled (bs : Boxes) : bs.names ⊆ bs.spelled := by
  intro x hx
  match bs with
  | .cons y b rest =>
      rcases List.mem_cons.mp hx with rfl | hrest
      · exact List.mem_cons_self
      · exact List.mem_cons_of_mem _ (List.mem_append_right _ (rest.names_subset_spelled hrest))

theorem Pattern.boxNames_subset_spelled (p : Pattern) : p.boxNames ⊆ p.spelled := by
  cases p with
  | «variable» x => exact List.Subset.refl [x]
  | ignore | fields ps | variant l p | variantBy p | stray o => exact List.nil_subset _

/-!
## Operands that are extracted
-/

mutual

/-- For each operand that is moved out of a value, in the order in which the names are drawn,
whether it is the operand of an extraction. -/
def Value.extractions (extracted : Bool) : Value -> List Bool
  | .number _ | .symbol _ | .pointer _ | .process _ | .variable _ | .stray _ => []
  | .variant l p => l.extractions false ++ p.extractions false
  | .record fs => fs.extractions
  | .extend b l v => b.extractions false ++ (l.extractions false ++ v.extractions false)
  | .extendBy b p => b.extractions false ++ p.extractions
  | .box b => b.extractions
  | .operand e => e.extractions ++ [extracted]

def Fields.extractions : Fields -> List Bool
  | .nil => []
  | .cons l v rest => l.extractions false ++ (v.extractions false ++ rest.extractions)
  | .foreign p rest => p.extractions ++ rest.extractions

def Box.extractions : Box -> List Bool
  | .mk code _ _ => code.extractions
  | .stray _ => []

def Computation.extractions : Computation -> List Bool
  | .hole | .stray _ => []
  | .extract v => v.extractions true
  | .ret v | .returned v | .get v | .link v => v.extractions false
  | .put a b | .assert a _ b => a.extractions false ++ b.extractions false
  | .nest v e | .spawn v e | .apply e v | .project e v => v.extractions false ++ e.extractions
  | .lambda _ e => e.extractions
  | .bind _ e₁ e₂ | .bindBox _ e₁ e₂ => e₁.extractions ++ e₂.extractions
  | .switch v cs => v.extractions false ++ cs.extractions
  | .branches bs => bs.extractions

def Cases.extractions : Cases -> List Bool
  | .nil => []
  | .cons l _ e rest => l.extractions false ++ (e.extractions ++ rest.extractions)
  | .foreign p rest => p.extractions ++ rest.extractions

def Branches.extractions : Branches -> List Bool
  | .nil => []
  | .cons l e rest => l.extractions false ++ (e.extractions ++ rest.extractions)
  | .foreign p rest => p.extractions ++ rest.extractions

def Part.extractions : Part -> List Bool
  | .field l v => l.extractions false ++ v.extractions false
  | .fieldPattern l _ => l.extractions false
  | .case l _ e | .branch l e => l.extractions false ++ e.extractions
  | .labelled l _ => l.extractions false
  | .stray _ => []

end

def Hoist.marked (marks : List Bool) (names : List String) : List String :=
  ((names.zip marks).filter (·.2)).map (·.1)

namespace Hoist

variable {marks more : List Bool} {ns ms : List String}

theorem marked_append (h : ns.length = marks.length) :
    marked (marks ++ more) (ns ++ ms) = marked marks ns ++ marked more ms := by
  unfold marked
  rw [List.zip_append h, List.filter_append, List.map_append]

theorem mem_of_mem_marked {t : String} (ht : t ∈ marked marks ns) : t ∈ ns := by
  rcases List.mem_map.mp ht with ⟨p, hp, rfl⟩
  exact (List.of_mem_zip (List.mem_filter.mp hp).1).1

theorem marked_eq_nil_iff (h : ns.length = marks.length) :
    marked marks ns = [] ↔ true ∉ marks := by
  have hmarks : (ns.zip marks).map Prod.snd = marks := List.map_snd_zip (Nat.le_of_eq h.symm)
  unfold marked
  rw [List.map_eq_nil_iff, List.filter_eq_nil_iff]
  constructor
  · intro hnone hmem
    rw [← hmarks] at hmem
    rcases List.mem_map.mp hmem with ⟨p, hp, htrue⟩
    exact hnone p hp htrue
  · intro hmem p hp htrue
    exact hmem (htrue ▸ (List.of_mem_zip hp).2)

end Hoist

/-!
## Free names are spelled
-/

section Spelled

theorem Hoist.subset_pair {as bs cs ds : List String} (ha : as ⊆ cs) (hb : bs ⊆ ds) :
    as ++ bs ⊆ cs ++ ds :=
  List.append_subset.mpr
    ⟨List.subset_append_of_subset_left ds ha, List.subset_append_of_subset_right cs hb⟩

open Hoist

mutual

theorem Value.freeBoxes_subset (extracted : Bool) :
    (v : Value) -> v.freeBoxes extracted ⊆ v.spelled
  | .number _ | .symbol _ | .pointer _ | .process _ | .stray _ => List.nil_subset _
  | .variable x => by
      cases extracted with
      | false => exact List.nil_subset _
      | true => exact List.Subset.refl [x]
  | .variant l p => subset_pair (l.freeBoxes_subset _) (p.freeBoxes_subset _)
  | .record fs => fs.freeBoxes_subset
  | .extend b l v =>
      subset_pair (b.freeBoxes_subset _) (subset_pair (l.freeBoxes_subset _) (v.freeBoxes_subset _))
  | .extendBy b p => subset_pair (b.freeBoxes_subset _) p.freeBoxes_subset
  | .box b => b.freeBoxes_subset
  | .operand e => e.freeBoxes_subset

theorem Fields.freeBoxes_subset : (fs : Fields) -> fs.freeBoxes ⊆ fs.spelled
  | .nil => List.nil_subset _
  | .cons l v rest =>
      subset_pair (l.freeBoxes_subset _) (subset_pair (v.freeBoxes_subset _) rest.freeBoxes_subset)
  | .foreign p rest => subset_pair p.freeBoxes_subset rest.freeBoxes_subset

theorem Box.freeBoxes_subset : (b : Box) -> b.freeBoxes ⊆ b.spelled
  | .mk code self captured =>
      List.Subset.trans List.filter_sublist.subset (subset_pair code.freeBoxes_subset
        (List.subset_append_of_subset_right self.toList captured.freeBoxes_subset))
  | .stray _ => List.nil_subset _

theorem Boxes.freeBoxes_subset : (bs : Boxes) -> bs.freeBoxes ⊆ bs.spelled
  | .nil => List.nil_subset _
  | .cons x b rest =>
      List.subset_cons_of_subset x (subset_pair b.freeBoxes_subset rest.freeBoxes_subset)

theorem Pattern.freeBoxes_subset : (p : Pattern) -> p.freeBoxes ⊆ p.spelled
  | .ignore | .variable _ | .stray _ => List.nil_subset _
  | .fields ps => ps.freeBoxes_subset
  | .variant l p => subset_pair (l.freeBoxes_subset _) p.freeBoxes_subset
  | .variantBy p => p.freeBoxes_subset

theorem FieldPatterns.freeBoxes_subset : (ps : FieldPatterns) -> ps.freeBoxes ⊆ ps.spelled
  | .nil => List.nil_subset _
  | .cons l p rest =>
      subset_pair (l.freeBoxes_subset _) (subset_pair p.freeBoxes_subset rest.freeBoxes_subset)
  | .foreign p rest => subset_pair p.freeBoxes_subset rest.freeBoxes_subset

theorem Computation.freeBoxes_subset : (e : Computation) -> e.freeBoxes ⊆ e.spelled
  | .hole | .stray _ => List.nil_subset _
  | .ret v | .returned v | .extract v | .get v | .link v => v.freeBoxes_subset _
  | .put a b | .assert a _ b => subset_pair (a.freeBoxes_subset _) (b.freeBoxes_subset _)
  | .nest v e | .spawn v e => subset_pair (v.freeBoxes_subset _) e.freeBoxes_subset
  | .apply e v | .project e v => subset_pair e.freeBoxes_subset (v.freeBoxes_subset _)
  | .lambda p e => subset_pair p.freeBoxes_subset e.freeBoxes_subset
  | .bind p e₁ e₂ =>
      subset_pair p.freeBoxes_subset (subset_pair e₁.freeBoxes_subset e₂.freeBoxes_subset)
  | .bindBox p e₁ e₂ =>
      subset_pair p.freeBoxes_subset (subset_pair e₁.freeBoxes_subset
        (List.Subset.trans List.filter_sublist.subset e₂.freeBoxes_subset))
  | .switch v cs => subset_pair (v.freeBoxes_subset _) cs.freeBoxes_subset
  | .branches bs => bs.freeBoxes_subset

theorem Cases.freeBoxes_subset : (cs : Cases) -> cs.freeBoxes ⊆ cs.spelled
  | .nil => List.nil_subset _
  | .cons l p e rest =>
      subset_pair (l.freeBoxes_subset _) (subset_pair p.freeBoxes_subset
        (subset_pair e.freeBoxes_subset rest.freeBoxes_subset))
  | .foreign p rest => subset_pair p.freeBoxes_subset rest.freeBoxes_subset

theorem Branches.freeBoxes_subset : (bs : Branches) -> bs.freeBoxes ⊆ bs.spelled
  | .nil => List.nil_subset _
  | .cons l e rest =>
      subset_pair (l.freeBoxes_subset _) (subset_pair e.freeBoxes_subset rest.freeBoxes_subset)
  | .foreign p rest => subset_pair p.freeBoxes_subset rest.freeBoxes_subset

theorem Part.freeBoxes_subset : (p : Part) -> p.freeBoxes ⊆ p.spelled
  | .field l v => subset_pair (l.freeBoxes_subset _) (v.freeBoxes_subset _)
  | .fieldPattern l p => subset_pair (l.freeBoxes_subset _) p.freeBoxes_subset
  | .case l p e =>
      subset_pair (l.freeBoxes_subset _) (subset_pair p.freeBoxes_subset e.freeBoxes_subset)
  | .branch l e => subset_pair (l.freeBoxes_subset _) e.freeBoxes_subset
  | .labelled l _ => l.freeBoxes_subset _
  | .stray _ => List.nil_subset _

end

end Spelled

/-!
## Closing bindings
-/

def Binding.freeBoxes (bs : List Binding) : List String :=
  bs.flatMap fun b => b.bound.freeBoxes

theorem Binding.freeBoxes_append (bs cs : List Binding) :
    Binding.freeBoxes (bs ++ cs) = Binding.freeBoxes bs ++ Binding.freeBoxes cs :=
  List.flatMap_append

theorem Computation.freeBoxes_close (e : Computation) (bs : List Binding) :
    (e.close bs).freeBoxes.Perm (e.freeBoxes ++ Binding.freeBoxes bs) :=
  perm_close freeBoxes (fun _ _ _ => rfl) e bs

/-!
## Hoisting adds the names of extracted operands
-/

/-- If the names that are drawn are not spelled, then the free names of boxes in a term and in open
bindings are those from before and the names that are marked. -/
structure Hoist.Looks (ns : List String) (marks : List Bool) (bs : List Binding)
    (spelled after before : List String) : Prop where
  length : ns.length = marks.length
  perm : (∀ t ∈ ns, t ∉ spelled) ->
    (after ++ Binding.freeBoxes bs).Perm (before ++ marked marks ns)

namespace Hoist.Looks

variable {ns ms ks : List String} {marks more most : List Bool} {bs cs ds : List Binding}
  {sp sq sr as as' es es' os os' names : List String}

theorem kept (sp as : List String) : Looks [] [] [] sp as as := ⟨rfl, fun _ => .refl _⟩

theorem pair (ha : Looks ns marks bs sp as as') (he : Looks ms more cs sq es es') :
    Looks (ns ++ ms) (marks ++ more) (bs ++ cs) (sp ++ sq) (as ++ es) (as' ++ es') where
  length := by rw [List.length_append, List.length_append, ha.length, he.length]
  perm hfresh := by
    have hafter := ha.perm fun t ht hmem =>
      hfresh t (List.mem_append_left _ ht) (List.mem_append_left _ hmem)
    have hbefore := he.perm fun t ht hmem =>
      hfresh t (List.mem_append_right _ ht) (List.mem_append_right _ hmem)
    rw [marked_append ha.length, Binding.freeBoxes_append]
    exact (perm_regroup _ _ _ _).trans ((hafter.append hbefore).trans (perm_regroup _ _ _ _))

theorem triple (ha : Looks ns marks bs sp as as') (he : Looks ms more cs sq es es')
    (ho : Looks ks most ds sr os os') :
    Looks (ns ++ (ms ++ ks)) (marks ++ (more ++ most)) (bs ++ cs ++ ds) (sp ++ (sq ++ sr))
      (as ++ (es ++ os)) (as' ++ (es' ++ os')) := by
  rw [List.append_assoc bs]
  exact ha.pair (he.pair ho)

theorem pairClosed (ha : Looks ns marks bs sp as as') (he : Looks ms more [] sq es es') :
    Looks (ns ++ ms) (marks ++ more) bs (sp ++ sq) (as ++ es) (as' ++ es') := by
  rw [← List.append_nil bs]
  exact ha.pair he

theorem widen (h : Looks ns marks bs sp as as') (hsub : sp ⊆ sq) :
    Looks ns marks bs sq as as' where
  length := h.length
  perm hfresh := h.perm fun t ht hmem => hfresh t ht (hsub hmem)

theorem swap (ha : Looks ns marks bs sp as as') (he : Looks ms more cs sq es es') :
    Looks (ns ++ ms) (marks ++ more) (bs ++ cs) (sq ++ sp) (es ++ as) (es' ++ as') where
  length := (ha.pair he).length
  perm hfresh := by
    have h := ((ha.pair he).widen List.perm_append_comm.subset).perm hfresh
    exact (List.perm_append_comm.append_right _).trans
      (h.trans (List.perm_append_comm.append_right _))

/-- Names that are spelled are bound around a term.  None of them is drawn, so that the marked names
stay free. -/
theorem shade (h : Looks ns marks [] sp as as') (hnames : names ⊆ sp) :
    Looks ns marks [] sp (as.filter (· ∉ names)) (as'.filter (· ∉ names)) where
  length := h.length
  perm hfresh := by
    have hmarked : (marked marks ns).filter (· ∉ names) = marked marks ns := by
      rw [List.filter_eq_self]
      intro t ht
      exact decide_eq_true fun hmem => hfresh t (mem_of_mem_marked ht) (hnames hmem)
    have hperm := (h.perm hfresh).filter fun x => decide (x ∉ names)
    rw [List.filter_append, List.filter_append, hmarked] at hperm
    exact hperm

theorem close {e : Computation} (h : Looks ns marks bs sp e.freeBoxes as') :
    Looks ns marks [] sp (e.close bs).freeBoxes as' where
  length := h.length
  perm hfresh := by
    rw [Binding.freeBoxes, List.flatMap_nil, List.append_nil]
    exact (e.freeBoxes_close bs).trans (h.perm hfresh)

theorem operand {e : Computation} (h : Looks ns marks bs sp e.freeBoxes as') (x : String)
    (extracted : Bool) :
    Looks (ns ++ [x]) (marks ++ [extracted]) [⟨x, e.close bs⟩] sp
      ((Value.variable x).freeBoxes extracted) as' where
  length := by rw [List.length_append, List.length_append, h.length]; rfl
  perm hfresh := by
    have hbound : Binding.freeBoxes [⟨x, e.close bs⟩] = (e.close bs).freeBoxes :=
      List.flatMap_singleton _ _
    have hlast : marked [extracted] [x] = (Value.variable x).freeBoxes extracted := by
      cases extracted <;> rfl
    have hinner := h.perm fun t ht => hfresh t (List.mem_append_left _ ht)
    rw [hbound, marked_append h.length, hlast, ← List.append_assoc]
    exact List.perm_append_comm.trans
      (((e.freeBoxes_close bs).trans hinner).append_right _)

end Hoist.Looks

section Looks

open Hoist

mutual

theorem Value.Hoists.looks (extracted : Bool) {v v' : Value} {ns : List String}
    {bs : List Binding} : v.Hoists False ns v' bs ->
      Looks ns (v.extractions extracted) bs v.spelled (v'.freeBoxes extracted)
        (v.freeBoxes extracted)
  | .number _ | .symbol _ | .pointer _ | .process _ | .variable _ => .kept _ _
  | .variant hl hp => (hl.looks false).pair (hp.looks false)
  | .record hfs => hfs.looks
  | .extend hb hl hv => (hb.looks false).triple (hl.looks false) (hv.looks false)
  | .box hb => hb.looks
  | .operand x he => he.looks.operand x extracted

theorem Fields.Hoists.looks {fs fs' : Fields} {ns : List String} {bs : List Binding} :
    fs.Hoists False ns fs' bs ->
      Looks ns fs.extractions bs fs.spelled fs'.freeBoxes fs.freeBoxes
  | .nil => .kept _ _
  | .cons hl hv hrest => (hl.looks false).triple (hv.looks false) hrest.looks

theorem Box.Hoists.looks {b b' : Box} {ns : List String} :
    b.Hoists False ns b' -> Looks ns b.extractions [] b.spelled b'.freeBoxes b.freeBoxes
  | .mk self captured hcode =>
      ((Looks.kept (self.toList ++ captured.spelled) captured.freeBoxes).swap
        hcode.looks.close).shade (List.subset_append_of_subset_right _
          (List.subset_append_of_subset_right _ captured.names_subset_spelled))

theorem Computation.Hoists.looks {e e' : Computation} {ns : List String} {bs : List Binding} :
    e.Hoists False ns e' bs ->
      Looks ns e.extractions bs e.spelled e'.freeBoxes e.freeBoxes
  | .hole => .kept _ _
  | .extract hv => hv.looks true
  | .ret hv | .get hv | .link hv => hv.looks false
  | .put ha hb | .assert _ ha hb => (ha.looks false).pair (hb.looks false)
  | .nest hv he | .spawn hv he => (hv.looks false).pairClosed he.looks.close
  | .apply hv he | .project hv he => (hv.looks false).swap he.looks
  | .lambda p he => (Looks.kept p.spelled p.freeBoxes).pair he.looks.close
  | .bind p he₁ he₂ =>
      (Looks.kept p.spelled p.freeBoxes).pair (he₁.looks.close.pair he₂.looks.close)
  | .bindBox p he₁ he₂ => by
      -- The names of the pattern are spelled in front of the whole, and bound in the second part.
      have hbody := (he₂.looks.close.widen (List.subset_append_right p.spelled _)).shade
        (List.subset_append_of_subset_left _ p.boxNames_subset_spelled)
      exact (Looks.kept [] p.freeBoxes).pair
        ((he₁.looks.close.pair hbody).widen (List.perm_append_comm_assoc _ _ _).subset)
  | .switch hv hcases => (hv.looks false).pair hcases.looks
  | .branches hbs => hbs.looks

theorem Cases.Hoists.looks {cs cs' : Cases} {ns : List String} {bs : List Binding} :
    cs.Hoists False ns cs' bs ->
      Looks ns cs.extractions bs cs.spelled cs'.freeBoxes cs.freeBoxes
  | .nil => .kept _ _
  | .cons p hl he hrest =>
      (hl.looks false).pair
        ((Looks.kept p.spelled p.freeBoxes).pair (he.looks.close.pair hrest.looks))

theorem Branches.Hoists.looks {bs bs' : Branches} {ns : List String} {cs : List Binding} :
    bs.Hoists False ns bs' cs ->
      Looks ns bs.extractions cs bs.spelled bs'.freeBoxes bs.freeBoxes
  | .nil => .kept _ _
  | .cons hl he hrest => (hl.looks false).pair (he.looks.close.pair hrest.looks)

end

end Looks

/-!
## Normalization
-/

namespace Computation

/-- Let a well-sorted computation without return markers be normalized with names that it does not
spell.  The free occurrences of box names are afterwards those from before and, for each extraction
of an operand, the name that was drawn for the operand.  So the free names of boxes are the same
exactly if no operand is extracted, and then no name that was drawn is looked up as a box. -/
theorem free_boxes_exactly (e e' : Computation) (supply rest : NameSupply)
    (he : e.passes .written) (h : e.normalize supply = .ok (e', rest))
    (hfresh : ∀ n, ∀ t ∈ (supply.take n).1, t ∉ e.spelled) :
    ∃ names, supply.Gives names rest ∧ names.length = e.extractions.length ∧
      e'.freeBoxes.Perm (e.freeBoxes ++ Hoist.marked e.extractions names) ∧
      ((∀ x, x ∈ e'.freeBoxes ↔ x ∈ e.freeBoxes) ↔ true ∉ e.extractions) ∧
      ((∀ t ∈ names, t ∉ e'.freeBoxes) ↔ true ∉ e.extractions) := by
  have hunmixed := e.passes_mono Screen.written_within_unmixed he
  rcases exists_of_normalize (.inr hunmixed) h with ⟨names, hoisted, bs, hgives, hhoists, rfl⟩
  have hunspelled : ∀ t ∈ names, t ∉ e.spelled := by
    have htake : (supply.take names.length).1 = names := congrArg Prod.fst hgives
    exact htake ▸ hfresh names.length
  have hlooks := hhoists.looks
  have hperm : (hoisted.close bs).freeBoxes.Perm
      (e.freeBoxes ++ Hoist.marked e.extractions names) :=
    (hoisted.freeBoxes_close bs).trans (hlooks.perm hunspelled)
  have hmem : ∀ x, x ∈ (hoisted.close bs).freeBoxes ↔
      x ∈ e.freeBoxes ∨ x ∈ Hoist.marked e.extractions names := by
    intro x
    rw [hperm.mem_iff, List.mem_append]
  have hnone := Hoist.marked_eq_nil_iff hlooks.length
  refine ⟨names, hgives, hlooks.length, hperm, ?_, ?_⟩
  · rw [← hnone, List.eq_nil_iff_forall_not_mem]
    constructor
    · intro hsame t ht
      have hfree : t ∈ e.freeBoxes := (hsame t).mp ((hmem t).mpr (.inr ht))
      exact hunspelled t (Hoist.mem_of_mem_marked ht) (e.freeBoxes_subset hfree)
    · intro hempty x
      rw [hmem, or_iff_left (hempty x)]
  · rw [← hnone, List.eq_nil_iff_forall_not_mem]
    constructor
    · intro habsent t ht
      exact habsent t (Hoist.mem_of_mem_marked ht) ((hmem t).mpr (.inr ht))
    · intro hempty t ht hfree
      rcases (hmem t).mp hfree with hold | hnew
      · exact hunspelled t ht (e.freeBoxes_subset hold)
      · exact hempty t hnew

def extractionsInOperands : Computation :=
  .bindBox (.variable "f")
    (.ret (.box (.mk (.apply (.extract (.variable "g")) (.operand (.extract (.variable "k")))) none
      (.cons "k" (.mk (.ret (.number 1)) none .nil) .nil))))
    (.put (.operand (.extract (.variable "f")))
      (.operand (.extract (.operand (.ret (.variable "y"))))))

theorem extractionsInOperands_free_boxes :
    extractionsInOperands.passes .written ∧ extractionsInOperands.freeBoxes = ["g"] ∧
      extractionsInOperands.extractions = [false, false, true, false] ∧
      (∀ n, ∀ t ∈ ((NameSupply.listed ["q", "r", "s", "t"]).take n).1,
        t ∉ extractionsInOperands.spelled) ∧
      ∃ e', extractionsInOperands.normalize (.listed ["q", "r", "s", "t"]) = .ok (e', .listed []) ∧
        e'.freeBoxes.Perm ["g", "s"] ∧
        ¬ ∀ x, x ∈ e'.freeBoxes ↔ x ∈ extractionsInOperands.freeBoxes := by
  have hfresh : ∀ n, ∀ t ∈ ((NameSupply.listed ["q", "r", "s", "t"]).take n).1,
      t ∉ extractionsInOperands.spelled := by
    intro n t ht
    rw [NameSupply.take_listed] at ht
    have hall : ∀ t ∈ ["q", "r", "s", "t"], t ∉ extractionsInOperands.spelled := by decide
    exact hall t (List.mem_of_mem_take ht)
  rcases free_boxes_exactly extractionsInOperands _ (.listed ["q", "r", "s", "t"]) (.listed []) rfl
    rfl hfresh with
    ⟨names, hgives, _, hperm, hsame, _⟩
  have hnames : ["q", "r", "s", "t"] = names := by
    have h := NameSupply.eq_append_of_gives_listed hgives
    rw [List.append_nil] at h
    exact h
  subst hnames
  refine ⟨rfl, rfl, rfl, hfresh, _, rfl, hperm, ?_⟩
  intro hequal
  exact hsame.mp hequal (by decide)

def extractOperand : Computation :=
  .extract (.operand (.ret (.box (.mk (.ret (.number 1)) none .nil))))

/-- Normalization does not respect the names of boxes: the name that is drawn for an extracted
operand is looked up as a box, and the program fails there although the operand returned one. -/
theorem extractOperand_name_looked_up :
    extractOperand.passes .written ∧ extractOperand.spelled = [] ∧ extractOperand.freeBoxes = [] ∧
      (∃ e', extractOperand.normalize (.counter "_t_" 0) = .ok (e', .counter "_t_" 1) ∧
        e'.freeBoxes = ["_t_0"]) ∧
      (∃ run r, World.execute {} 10 extractOperand = .ok run ∧
        run.world.processes.get? .anonymous = some (.failed r (.undefinedBox "_t_0"))) ∧
      ¬ ∀ (e e' : Computation) (supply rest : NameSupply), e.passes .written ->
        (∀ n, (supply.take n).1.Nodup ∧ ∀ t ∈ (supply.take n).1, t ∉ e.spelled) ->
        e.normalize supply = .ok (e', rest) -> ∀ x, x ∈ e'.freeBoxes ↔ x ∈ e.freeBoxes := by
  refine ⟨rfl, rfl, rfl, ⟨_, rfl, rfl⟩, ⟨_, _, rfl, rfl⟩, ?_⟩
  intro hrespects
  have hfresh : ∀ n, ((NameSupply.listed ["t"]).take n).1.Nodup ∧
      ∀ t ∈ ((NameSupply.listed ["t"]).take n).1, t ∉ extractOperand.spelled := by
    intro n
    rw [NameSupply.take_listed]
    have hnodup : ["t"].Nodup := by decide
    exact ⟨hnodup.sublist (List.take_sublist n _), fun t _ => List.not_mem_nil⟩
  have hfree : "t" ∈ extractOperand.freeBoxes :=
    (hrespects extractOperand _ (.listed ["t"]) (.listed []) rfl hfresh rfl "t").mp
      List.mem_cons_self
  exact List.not_mem_nil hfree

end Computation

end PushValue
