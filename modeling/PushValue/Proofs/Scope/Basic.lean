import PushValue.Term.Boxes

/-!
# Scopes

A scope is a list of value names and a list of box names.  A term is scoped when each
variable in it is among the value names, or is bound by a pattern around it, and when
each box that it extracts by name is among the box names, is bound around it, or is
captured by the box around it.

The code of a box sees no value name but that of the box itself.  The boxes that it
captured see only those that they captured themselves.  A pattern binds its names from
left to right, and its labels may use the names bound before them.  Neither operands nor
return markers are scoped; strays have no names.
-/

namespace PushValue

/-!
## Names that are bound
-/

def Boxes.names : Boxes -> List String
  | .nil => []
  | .cons x _ rest => x :: rest.names

mutual

def Pattern.names : Pattern -> List String
  | .variable x => [x]
  | .fields ps => ps.names
  | .variant _ p => p.names
  | .variantBy p => p.names
  | .ignore | .stray _ => []

/-- The names bound last come first. -/
def FieldPatterns.names : FieldPatterns -> List String
  | .nil => []
  | .cons _ p rest => rest.names ++ p.names
  | .foreign p rest => rest.names ++ p.names

def Part.names : Part -> List String
  | .fieldPattern _ p | .case _ p _ => p.names
  | .field _ _ | .branch _ _ | .labelled _ _ | .stray _ => []

end

def Pattern.boxNames : Pattern -> List String
  | .variable x => [x]
  | _ => []

/-!
## Scoped terms
-/

mutual

def Value.isScoped (vs bs : List String) : Value -> Bool
  | .number _ | .symbol _ | .pointer _ | .process _ | .stray _ => true
  | .variable x => vs.contains x
  | .variant l p => l.isScoped vs bs && p.isScoped vs bs
  | .record fs => fs.isScoped vs bs
  | .extend b l v => b.isScoped vs bs && l.isScoped vs bs && v.isScoped vs bs
  | .extendBy b p => b.isScoped vs bs && p.isScoped vs bs
  | .box b => b.isScoped bs
  | .operand _ => false

def Fields.isScoped (vs bs : List String) : Fields -> Bool
  | .nil => true
  | .cons l v rest => l.isScoped vs bs && v.isScoped vs bs && rest.isScoped vs bs
  | .foreign p rest => p.isScoped vs bs && rest.isScoped vs bs

def Box.isScoped (bs : List String) : Box -> Bool
  | .mk code self captured =>
      code.isScoped self.toList (captured.names ++ bs) && captured.isScoped
  | .stray _ => true

def Boxes.isScoped : Boxes -> Bool
  | .nil => true
  | .cons _ b rest => b.isScoped [] && rest.isScoped

def Pattern.isScoped (vs bs : List String) : Pattern -> Bool
  | .ignore | .variable _ | .stray _ => true
  | .fields ps => ps.isScoped vs bs
  | .variant l p => l.isScoped vs bs && p.isScoped vs bs
  | .variantBy p => p.isScoped vs bs

def FieldPatterns.isScoped (vs bs : List String) : FieldPatterns -> Bool
  | .nil => true
  | .cons l p rest =>
      l.isScoped vs bs && p.isScoped vs bs && rest.isScoped (p.names ++ vs) bs
  | .foreign p rest => p.isScoped vs bs && rest.isScoped (p.names ++ vs) bs

def Computation.isScoped (vs bs : List String) : Computation -> Bool
  | .ret v | .get v | .link v => v.isScoped vs bs
  | .extract v =>
      match v with
      | .variable x => bs.contains x
      | v => v.isScoped vs bs
  | .put n v => n.isScoped vs bs && v.isScoped vs bs
  | .assert a _ b => a.isScoped vs bs && b.isScoped vs bs
  | .nest v e | .spawn v e => v.isScoped vs bs && e.isScoped vs bs
  | .apply e v | .project e v => e.isScoped vs bs && v.isScoped vs bs
  | .lambda p e => p.isScoped vs bs && e.isScoped (p.names ++ vs) bs
  | .bind p e₁ e₂ =>
      p.isScoped vs bs && e₁.isScoped vs bs && e₂.isScoped (p.names ++ vs) bs
  | .bindBox p e₁ e₂ =>
      p.isScoped vs bs && e₁.isScoped vs bs && e₂.isScoped vs (p.boxNames ++ bs)
  | .switch v cs => v.isScoped vs bs && cs.isScoped vs bs
  | .branches alternatives => alternatives.isScoped vs bs
  | .returned _ => false
  | .hole | .stray _ => true

def Cases.isScoped (vs bs : List String) : Cases -> Bool
  | .nil => true
  | .cons l p e rest =>
      l.isScoped vs bs && p.isScoped vs bs && e.isScoped (p.names ++ vs) bs &&
        rest.isScoped vs bs
  | .foreign p rest => p.isScoped vs bs && rest.isScoped vs bs

def Branches.isScoped (vs bs : List String) : Branches -> Bool
  | .nil => true
  | .cons l e rest => l.isScoped vs bs && e.isScoped vs bs && rest.isScoped vs bs
  | .foreign p rest => p.isScopedBranch vs bs && rest.isScoped vs bs

def Part.isScoped (vs bs : List String) : Part -> Bool
  | .field l v => l.isScoped vs bs && v.isScoped vs bs
  | .fieldPattern l p => l.isScoped vs bs && p.isScoped vs bs
  | .case l p e => l.isScoped vs bs && p.isScoped vs bs && e.isScoped (p.names ++ vs) bs
  | .branch l e => l.isScoped vs bs && e.isScoped vs bs
  | .labelled l _ => l.isScoped vs bs
  | .stray _ => true

/-- A part among branches binds nothing, whatever pattern it has. -/
def Part.isScopedBranch (vs bs : List String) : Part -> Bool
  | .case l _ e | .branch l e => l.isScoped vs bs && e.isScoped vs bs
  | .field l _ | .fieldPattern l _ | .labelled l _ => l.isScoped vs bs
  | .stray _ => true

end

def Value.isClosed (v : Value) : Bool := v.isScoped [] []

def Box.isClosed (b : Box) : Bool := b.isScoped []

/-- A computation with no names that are not bound in it. -/
def Computation.isClosed (e : Computation) : Bool := e.isScoped [] []

/-!
## Wider scopes
-/

theorem append_subset_append {vs vs' : List String} (names : List String) (h : vs ⊆ vs') :
    names ++ vs ⊆ names ++ vs' := by
  rw [List.append_subset]
  exact ⟨List.subset_append_left names vs', List.subset_append_of_subset_right names h⟩

theorem contains_mono {vs vs' : List String} {x : String} (h : vs ⊆ vs') (hx : vs.contains x) :
    vs'.contains x := by
  rw [List.contains_iff_mem] at hx ⊢
  exact h hx

mutual

theorem Value.isScoped_mono {vs vs' bs bs' : List String} (hvs : vs ⊆ vs')
    (hbs : bs ⊆ bs') : (v : Value) -> v.isScoped vs bs -> v.isScoped vs' bs'
  | .number _, _ | .symbol _, _ | .pointer _, _ | .process _, _ | .stray _, _ => rfl
  | .variable _, h => contains_mono hvs h
  | .variant l p, h => by
      simp only [Value.isScoped, Bool.and_eq_true] at h ⊢
      exact ⟨l.isScoped_mono hvs hbs h.1, p.isScoped_mono hvs hbs h.2⟩
  | .record fs, h => fs.isScoped_mono hvs hbs h
  | .extend b l v, h => by
      simp only [Value.isScoped, Bool.and_eq_true] at h ⊢
      exact ⟨⟨b.isScoped_mono hvs hbs h.1.1, l.isScoped_mono hvs hbs h.1.2⟩,
        v.isScoped_mono hvs hbs h.2⟩
  | .extendBy b p, h => by
      simp only [Value.isScoped, Bool.and_eq_true] at h ⊢
      exact ⟨b.isScoped_mono hvs hbs h.1, p.isScoped_mono hvs hbs h.2⟩
  | .box b, h => b.isScoped_mono hbs h

theorem Fields.isScoped_mono {vs vs' bs bs' : List String} (hvs : vs ⊆ vs')
    (hbs : bs ⊆ bs') : (fs : Fields) -> fs.isScoped vs bs -> fs.isScoped vs' bs'
  | .nil, _ => rfl
  | .cons l v rest, h => by
      simp only [Fields.isScoped, Bool.and_eq_true] at h ⊢
      exact ⟨⟨l.isScoped_mono hvs hbs h.1.1, v.isScoped_mono hvs hbs h.1.2⟩,
        rest.isScoped_mono hvs hbs h.2⟩
  | .foreign p rest, h => by
      simp only [Fields.isScoped, Bool.and_eq_true] at h ⊢
      exact ⟨p.isScoped_mono hvs hbs h.1, rest.isScoped_mono hvs hbs h.2⟩

theorem Box.isScoped_mono {bs bs' : List String} (hbs : bs ⊆ bs') :
    (b : Box) -> b.isScoped bs -> b.isScoped bs'
  | .mk code self captured, h => by
      simp only [Box.isScoped, Bool.and_eq_true] at h ⊢
      have hself : self.toList ⊆ self.toList := List.Subset.refl _
      exact ⟨code.isScoped_mono hself (append_subset_append captured.names hbs) h.1, h.2⟩
  | .stray _, _ => rfl

theorem Pattern.isScoped_mono {vs vs' bs bs' : List String} (hvs : vs ⊆ vs')
    (hbs : bs ⊆ bs') : (p : Pattern) -> p.isScoped vs bs -> p.isScoped vs' bs'
  | .ignore, _ | .variable _, _ | .stray _, _ => rfl
  | .fields ps, h => ps.isScoped_mono hvs hbs h
  | .variant l p, h => by
      simp only [Pattern.isScoped, Bool.and_eq_true] at h ⊢
      exact ⟨l.isScoped_mono hvs hbs h.1, p.isScoped_mono hvs hbs h.2⟩
  | .variantBy p, h => p.isScoped_mono hvs hbs h

theorem FieldPatterns.isScoped_mono {vs vs' bs bs' : List String} (hvs : vs ⊆ vs')
    (hbs : bs ⊆ bs') : (ps : FieldPatterns) -> ps.isScoped vs bs -> ps.isScoped vs' bs'
  | .nil, _ => rfl
  | .cons l p rest, h => by
      simp only [FieldPatterns.isScoped, Bool.and_eq_true] at h ⊢
      exact ⟨⟨l.isScoped_mono hvs hbs h.1.1, p.isScoped_mono hvs hbs h.1.2⟩,
        rest.isScoped_mono (append_subset_append p.names hvs) hbs h.2⟩
  | .foreign p rest, h => by
      simp only [FieldPatterns.isScoped, Bool.and_eq_true] at h ⊢
      exact ⟨p.isScoped_mono hvs hbs h.1,
        rest.isScoped_mono (append_subset_append p.names hvs) hbs h.2⟩

theorem Computation.isScoped_mono {vs vs' bs bs' : List String} (hvs : vs ⊆ vs')
    (hbs : bs ⊆ bs') : (e : Computation) -> e.isScoped vs bs -> e.isScoped vs' bs'
  | .ret v, h | .get v, h | .link v, h => v.isScoped_mono hvs hbs h
  | .extract v, h => by
      match v with
      | .variable x => exact contains_mono hbs h
      | .number _ | .symbol _ | .pointer _ | .process _ | .variant _ _ | .record _
      | .extend _ _ _ | .extendBy _ _ | .box _ | .operand _ | .stray _ =>
          exact Value.isScoped_mono hvs hbs _ h
  | .put a b, h | .assert a _ b, h => by
      simp only [Computation.isScoped, Bool.and_eq_true] at h ⊢
      exact ⟨a.isScoped_mono hvs hbs h.1, b.isScoped_mono hvs hbs h.2⟩
  | .nest v e, h | .spawn v e, h => by
      simp only [Computation.isScoped, Bool.and_eq_true] at h ⊢
      exact ⟨v.isScoped_mono hvs hbs h.1, e.isScoped_mono hvs hbs h.2⟩
  | .apply e v, h | .project e v, h => by
      simp only [Computation.isScoped, Bool.and_eq_true] at h ⊢
      exact ⟨e.isScoped_mono hvs hbs h.1, v.isScoped_mono hvs hbs h.2⟩
  | .lambda p e, h => by
      simp only [Computation.isScoped, Bool.and_eq_true] at h ⊢
      exact ⟨p.isScoped_mono hvs hbs h.1,
        e.isScoped_mono (append_subset_append p.names hvs) hbs h.2⟩
  | .bind p e₁ e₂, h => by
      simp only [Computation.isScoped, Bool.and_eq_true] at h ⊢
      exact ⟨⟨p.isScoped_mono hvs hbs h.1.1, e₁.isScoped_mono hvs hbs h.1.2⟩,
        e₂.isScoped_mono (append_subset_append p.names hvs) hbs h.2⟩
  | .bindBox p e₁ e₂, h => by
      simp only [Computation.isScoped, Bool.and_eq_true] at h ⊢
      exact ⟨⟨p.isScoped_mono hvs hbs h.1.1, e₁.isScoped_mono hvs hbs h.1.2⟩,
        e₂.isScoped_mono hvs (append_subset_append p.boxNames hbs) h.2⟩
  | .switch v cs, h => by
      simp only [Computation.isScoped, Bool.and_eq_true] at h ⊢
      exact ⟨v.isScoped_mono hvs hbs h.1, cs.isScoped_mono hvs hbs h.2⟩
  | .branches alternatives, h => alternatives.isScoped_mono hvs hbs h
  | .hole, _ | .stray _, _ => rfl

theorem Cases.isScoped_mono {vs vs' bs bs' : List String} (hvs : vs ⊆ vs')
    (hbs : bs ⊆ bs') : (cs : Cases) -> cs.isScoped vs bs -> cs.isScoped vs' bs'
  | .nil, _ => rfl
  | .cons l p e rest, h => by
      simp only [Cases.isScoped, Bool.and_eq_true] at h ⊢
      exact ⟨⟨⟨l.isScoped_mono hvs hbs h.1.1.1, p.isScoped_mono hvs hbs h.1.1.2⟩,
        e.isScoped_mono (append_subset_append p.names hvs) hbs h.1.2⟩,
        rest.isScoped_mono hvs hbs h.2⟩
  | .foreign p rest, h => by
      simp only [Cases.isScoped, Bool.and_eq_true] at h ⊢
      exact ⟨p.isScoped_mono hvs hbs h.1, rest.isScoped_mono hvs hbs h.2⟩

theorem Branches.isScoped_mono {vs vs' bs bs' : List String} (hvs : vs ⊆ vs')
    (hbs : bs ⊆ bs') :
    (alternatives : Branches) -> alternatives.isScoped vs bs -> alternatives.isScoped vs' bs'
  | .nil, _ => rfl
  | .cons l e rest, h => by
      simp only [Branches.isScoped, Bool.and_eq_true] at h ⊢
      exact ⟨⟨l.isScoped_mono hvs hbs h.1.1, e.isScoped_mono hvs hbs h.1.2⟩,
        rest.isScoped_mono hvs hbs h.2⟩
  | .foreign p rest, h => by
      simp only [Branches.isScoped, Bool.and_eq_true] at h ⊢
      exact ⟨p.isScopedBranch_mono hvs hbs h.1, rest.isScoped_mono hvs hbs h.2⟩

theorem Part.isScoped_mono {vs vs' bs bs' : List String} (hvs : vs ⊆ vs')
    (hbs : bs ⊆ bs') : (p : Part) -> p.isScoped vs bs -> p.isScoped vs' bs'
  | .field l v, h => by
      simp only [Part.isScoped, Bool.and_eq_true] at h ⊢
      exact ⟨l.isScoped_mono hvs hbs h.1, v.isScoped_mono hvs hbs h.2⟩
  | .fieldPattern l p, h => by
      simp only [Part.isScoped, Bool.and_eq_true] at h ⊢
      exact ⟨l.isScoped_mono hvs hbs h.1, p.isScoped_mono hvs hbs h.2⟩
  | .case l p e, h => by
      simp only [Part.isScoped, Bool.and_eq_true] at h ⊢
      exact ⟨⟨l.isScoped_mono hvs hbs h.1.1, p.isScoped_mono hvs hbs h.1.2⟩,
        e.isScoped_mono (append_subset_append p.names hvs) hbs h.2⟩
  | .branch l e, h => by
      simp only [Part.isScoped, Bool.and_eq_true] at h ⊢
      exact ⟨l.isScoped_mono hvs hbs h.1, e.isScoped_mono hvs hbs h.2⟩
  | .labelled l _, h => l.isScoped_mono hvs hbs h
  | .stray _, _ => rfl

theorem Part.isScopedBranch_mono {vs vs' bs bs' : List String} (hvs : vs ⊆ vs')
    (hbs : bs ⊆ bs') : (p : Part) -> p.isScopedBranch vs bs -> p.isScopedBranch vs' bs'
  | .case l _ e, h | .branch l e, h => by
      simp only [Part.isScopedBranch, Bool.and_eq_true] at h ⊢
      exact ⟨l.isScoped_mono hvs hbs h.1, e.isScoped_mono hvs hbs h.2⟩
  | .field l _, h | .fieldPattern l _, h | .labelled l _, h => l.isScoped_mono hvs hbs h
  | .stray _, _ => rfl

end

/-!
## Boxes by name
-/

namespace Boxes

theorem mem_names_iff {x : String} (bs : Boxes) : x ∈ bs.names ↔ ∃ b, bs.get? x = some b := by
  match bs with
  | .nil => simp [names, get?]
  | .cons y b rest =>
      by_cases hxy : x = y
      · simp [names, get?, hxy]
      · simp [names, get?, hxy, mem_names_iff rest]

theorem isClosed_get? {x : String} {b : Box} :
    (bs : Boxes) -> bs.isScoped -> bs.get? x = some b -> b.isClosed
  | .nil, _, hget => by cases hget
  | .cons y c rest, h, hget => by
      simp only [isScoped, Bool.and_eq_true] at h
      by_cases hxy : x = y
      · simp only [get?, hxy, if_true, Option.some.injEq] at hget
        rw [← hget]
        exact h.1
      · simp only [get?, hxy, if_false] at hget
        exact isClosed_get? rest h.2 hget

theorem isScoped_insert {x : String} {b : Box} (hb : b.isClosed) :
    (bs : Boxes) -> bs.isScoped -> (bs.insert x b).isScoped
  | .nil, _ => by
      simp only [insert, isScoped, Bool.and_true]
      exact hb
  | .cons y c rest, h => by
      have hparts := h
      simp only [isScoped, Bool.and_eq_true] at hparts
      unfold insert
      split
      · exact Bool.and_eq_true_iff.mpr ⟨hb, h⟩
      · exact Bool.and_eq_true_iff.mpr ⟨hb, hparts.2⟩
      · exact Bool.and_eq_true_iff.mpr ⟨hparts.1, isScoped_insert hb rest hparts.2⟩

theorem isScoped_union {base : Boxes} (hbase : base.isScoped) :
    (bs : Boxes) -> bs.isScoped -> (bs.union base).isScoped
  | .nil, _ => hbase
  | .cons x b rest, h => by
      simp only [isScoped, Bool.and_eq_true] at h
      exact isScoped_insert h.1 _ (isScoped_union hbase rest h.2)

theorem isScoped_capture {own scope : Boxes} (hown : own.isScoped) (hscope : scope.isScoped) :
    (own.capture scope).isScoped := by
  cases scope with
  | nil => exact hown
  | cons x b rest => exact isScoped_union hscope own hown

end Boxes

end PushValue
