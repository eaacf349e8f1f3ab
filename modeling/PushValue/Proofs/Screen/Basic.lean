import PushValue.Term.Boxes

/-!
# Screens

A screen says which forms may occur in a term.  A term passes a screen when all of
it does: the code of boxes, the boxes that they captured and the labels inside
patterns are searched like everything else.  The terms that a host may hand to the
machine and the terms that the machine keeps while it runs are both described by
screens, and what the machine preserves is proved once for all of them.
-/

namespace PushValue

/-- The forms that may occur in a term. -/
structure Screen where
  /-- The symbols that may be literals, labels of nests or names of processes. -/
  symbol : Symbol -> Bool
  /-- The symbols that may be pointed to. -/
  pointer : Symbol -> Bool
  /-- The symbols that may have a process handle. -/
  process : Symbol -> Bool
  operand : Bool := true
  spawn : Bool := true
  returned : Bool := true
  hole : Bool := true
  /-- Parts that stand in the place of parts of another sort. -/
  foreign : Bool := false
  stray : Object -> Bool := fun _ => false

mutual

def Value.passes (S : Screen) : Value -> Bool
  | .number _ | .variable _ => true
  | .symbol s => S.symbol s
  | .pointer s => S.pointer s
  | .process s => S.process s
  | .variant l p => l.passes S && p.passes S
  | .record fs => fs.passes S
  | .extend b l v => b.passes S && l.passes S && v.passes S
  | .extendBy b p => S.foreign && b.passes S && p.passes S
  | .box b => b.passes S
  | .operand e => S.operand && e.passes S
  | .stray o => S.stray o

def Fields.passes (S : Screen) : Fields -> Bool
  | .nil => true
  | .cons l v rest => l.passes S && v.passes S && rest.passes S
  | .foreign p rest => S.foreign && p.passes S && rest.passes S

def Box.passes (S : Screen) : Box -> Bool
  | .mk code _ captured => code.passes S && captured.passes S
  | .stray o => S.stray o

def Boxes.passes (S : Screen) : Boxes -> Bool
  | .nil => true
  | .cons _ b rest => b.passes S && rest.passes S

def Pattern.passes (S : Screen) : Pattern -> Bool
  | .ignore | .variable _ => true
  | .fields ps => ps.passes S
  | .variant l p => l.passes S && p.passes S
  | .variantBy p => S.foreign && p.passes S
  | .stray o => S.stray o

def FieldPatterns.passes (S : Screen) : FieldPatterns -> Bool
  | .nil => true
  | .cons l p rest => l.passes S && p.passes S && rest.passes S
  | .foreign p rest => S.foreign && p.passes S && rest.passes S

def Computation.passes (S : Screen) : Computation -> Bool
  | .ret v | .get v | .link v | .extract v => v.passes S
  | .returned v => S.returned && v.passes S
  | .put n v => n.passes S && v.passes S
  | .assert a _ b => a.passes S && b.passes S
  | .nest v e => v.passes S && e.passes S
  | .spawn v e => S.spawn && v.passes S && e.passes S
  | .apply e v | .project e v => e.passes S && v.passes S
  | .lambda p e => p.passes S && e.passes S
  | .bind p e₁ e₂ | .bindBox p e₁ e₂ => p.passes S && e₁.passes S && e₂.passes S
  | .switch v cs => v.passes S && cs.passes S
  | .branches bs => bs.passes S
  | .hole => S.hole
  | .stray o => S.stray o

def Cases.passes (S : Screen) : Cases -> Bool
  | .nil => true
  | .cons l p e rest => l.passes S && p.passes S && e.passes S && rest.passes S
  | .foreign p rest => S.foreign && p.passes S && rest.passes S

def Branches.passes (S : Screen) : Branches -> Bool
  | .nil => true
  | .cons l e rest => l.passes S && e.passes S && rest.passes S
  | .foreign p rest => S.foreign && p.passes S && rest.passes S

def Part.passes (S : Screen) : Part -> Bool
  | .field l v => l.passes S && v.passes S
  | .fieldPattern l p => l.passes S && p.passes S
  | .case l p e => l.passes S && p.passes S && e.passes S
  | .branch l e => l.passes S && e.passes S
  | .labelled l o => l.passes S && S.stray o
  | .stray o => S.stray o

end

namespace Screen

/-!
## Particular screens

A term is well-sorted when nothing in it is out of place.  Programs have neither holes
nor return markers, which only the machine writes.
-/

def sorted : Screen where
  symbol := Symbol.isProper
  pointer := Symbol.isProper
  process := Symbol.isProper

def live : Screen := { sorted with hole := false }

/-- Well-sorted terms without holes and return markers. -/
def source : Screen := { live with returned := false }

def holed (S : Screen) : Screen := { S with hole := true }

/-- The screens that let only well-sorted terms through. -/
structure Strict (S : Screen) : Prop where
  symbol : ∀ s, S.symbol s -> s.isProper
  pointer : ∀ s, S.pointer s -> s.isProper
  process : ∀ s, S.process s -> s.isProper
  foreign : S.foreign = false
  stray : ∀ o, S.stray o = false

theorem strict_live : live.Strict where
  symbol _ h := h
  pointer _ h := h
  process _ h := h
  foreign := rfl
  stray _ := rfl

theorem strict_source : source.Strict where
  symbol _ h := h
  pointer _ h := h
  process _ h := h
  foreign := rfl
  stray _ := rfl

theorem live_within (n s : Symbol) (hn : live.symbol n) (hs : live.symbol s) :
    live.symbol (.within n s) := by
  show (n.isProper && s.isProper) = true
  rw [Bool.and_eq_true]
  exact ⟨hn, hs⟩

structure Within (S T : Screen) : Prop where
  symbol : ∀ s, S.symbol s -> T.symbol s
  pointer : ∀ s, S.pointer s -> T.pointer s
  process : ∀ s, S.process s -> T.process s
  operand : S.operand -> T.operand
  spawn : S.spawn -> T.spawn
  returned : S.returned -> T.returned
  hole : S.hole -> T.hole
  foreign : S.foreign -> T.foreign
  stray : ∀ o, S.stray o -> T.stray o

theorem Within.refl (S : Screen) : S.Within S where
  symbol _ h := h
  pointer _ h := h
  process _ h := h
  operand h := h
  spawn h := h
  returned h := h
  hole h := h
  foreign h := h
  stray _ h := h

@[simp]
theorem holed_hole (S : Screen) : S.holed.hole = true := rfl

theorem within_holed (S : Screen) : S.Within S.holed where
  symbol _ h := h
  pointer _ h := h
  process _ h := h
  operand h := h
  spawn h := h
  returned h := h
  hole _ := rfl
  foreign h := h
  stray _ h := h

theorem source_within_live : source.Within live where
  symbol _ h := h
  pointer _ h := h
  process _ h := h
  operand h := h
  spawn h := h
  returned _ := rfl
  hole h := h
  foreign h := h
  stray _ h := h

end Screen

/-!
## Wider screens
-/

section Mono

variable {S T : Screen}

mutual

theorem Value.passes_mono (h : S.Within T) : (v : Value) -> v.passes S -> v.passes T
  | .number _, _ | .variable _, _ => rfl
  | .symbol s, hv => h.symbol s hv
  | .pointer s, hv => h.pointer s hv
  | .process s, hv => h.process s hv
  | .variant l p, hv => by
      simp only [Value.passes, Bool.and_eq_true] at hv ⊢
      exact ⟨l.passes_mono h hv.1, p.passes_mono h hv.2⟩
  | .record fs, hv => fs.passes_mono h hv
  | .extend b l v, hv => by
      simp only [Value.passes, Bool.and_eq_true] at hv ⊢
      exact ⟨⟨b.passes_mono h hv.1.1, l.passes_mono h hv.1.2⟩, v.passes_mono h hv.2⟩
  | .extendBy b p, hv => by
      simp only [Value.passes, Bool.and_eq_true] at hv ⊢
      exact ⟨⟨h.foreign hv.1.1, b.passes_mono h hv.1.2⟩, p.passes_mono h hv.2⟩
  | .box b, hv => b.passes_mono h hv
  | .operand e, hv => by
      simp only [Value.passes, Bool.and_eq_true] at hv ⊢
      exact ⟨h.operand hv.1, e.passes_mono h hv.2⟩
  | .stray o, hv => h.stray o hv

theorem Fields.passes_mono (h : S.Within T) : (fs : Fields) -> fs.passes S -> fs.passes T
  | .nil, _ => rfl
  | .cons l v rest, hv => by
      simp only [Fields.passes, Bool.and_eq_true] at hv ⊢
      exact ⟨⟨l.passes_mono h hv.1.1, v.passes_mono h hv.1.2⟩, rest.passes_mono h hv.2⟩
  | .foreign p rest, hv => by
      simp only [Fields.passes, Bool.and_eq_true] at hv ⊢
      exact ⟨⟨h.foreign hv.1.1, p.passes_mono h hv.1.2⟩, rest.passes_mono h hv.2⟩

theorem Box.passes_mono (h : S.Within T) : (b : Box) -> b.passes S -> b.passes T
  | .mk code _ captured, hb => by
      simp only [Box.passes, Bool.and_eq_true] at hb ⊢
      exact ⟨code.passes_mono h hb.1, captured.passes_mono h hb.2⟩
  | .stray o, hb => h.stray o hb

theorem Boxes.passes_mono (h : S.Within T) : (bs : Boxes) -> bs.passes S -> bs.passes T
  | .nil, _ => rfl
  | .cons _ b rest, hb => by
      simp only [Boxes.passes, Bool.and_eq_true] at hb ⊢
      exact ⟨b.passes_mono h hb.1, rest.passes_mono h hb.2⟩

theorem Pattern.passes_mono (h : S.Within T) : (p : Pattern) -> p.passes S -> p.passes T
  | .ignore, _ | .variable _, _ => rfl
  | .fields ps, hp => ps.passes_mono h hp
  | .variant l p, hp => by
      simp only [Pattern.passes, Bool.and_eq_true] at hp ⊢
      exact ⟨l.passes_mono h hp.1, p.passes_mono h hp.2⟩
  | .variantBy p, hp => by
      simp only [Pattern.passes, Bool.and_eq_true] at hp ⊢
      exact ⟨h.foreign hp.1, p.passes_mono h hp.2⟩
  | .stray o, hp => h.stray o hp

theorem FieldPatterns.passes_mono (h : S.Within T) :
    (ps : FieldPatterns) -> ps.passes S -> ps.passes T
  | .nil, _ => rfl
  | .cons l p rest, hp => by
      simp only [FieldPatterns.passes, Bool.and_eq_true] at hp ⊢
      exact ⟨⟨l.passes_mono h hp.1.1, p.passes_mono h hp.1.2⟩, rest.passes_mono h hp.2⟩
  | .foreign p rest, hp => by
      simp only [FieldPatterns.passes, Bool.and_eq_true] at hp ⊢
      exact ⟨⟨h.foreign hp.1.1, p.passes_mono h hp.1.2⟩, rest.passes_mono h hp.2⟩

theorem Computation.passes_mono (h : S.Within T) :
    (e : Computation) -> e.passes S -> e.passes T
  | .ret v, he | .get v, he | .link v, he | .extract v, he => v.passes_mono h he
  | .returned v, he => by
      simp only [Computation.passes, Bool.and_eq_true] at he ⊢
      exact ⟨h.returned he.1, v.passes_mono h he.2⟩
  | .put a b, he | .assert a _ b, he => by
      simp only [Computation.passes, Bool.and_eq_true] at he ⊢
      exact ⟨a.passes_mono h he.1, b.passes_mono h he.2⟩
  | .nest v e, he => by
      simp only [Computation.passes, Bool.and_eq_true] at he ⊢
      exact ⟨v.passes_mono h he.1, e.passes_mono h he.2⟩
  | .spawn v e, he => by
      simp only [Computation.passes, Bool.and_eq_true] at he ⊢
      exact ⟨⟨h.spawn he.1.1, v.passes_mono h he.1.2⟩, e.passes_mono h he.2⟩
  | .apply e v, he | .project e v, he => by
      simp only [Computation.passes, Bool.and_eq_true] at he ⊢
      exact ⟨e.passes_mono h he.1, v.passes_mono h he.2⟩
  | .lambda p e, he => by
      simp only [Computation.passes, Bool.and_eq_true] at he ⊢
      exact ⟨p.passes_mono h he.1, e.passes_mono h he.2⟩
  | .bind p e₁ e₂, he | .bindBox p e₁ e₂, he => by
      simp only [Computation.passes, Bool.and_eq_true] at he ⊢
      exact ⟨⟨p.passes_mono h he.1.1, e₁.passes_mono h he.1.2⟩, e₂.passes_mono h he.2⟩
  | .switch v cs, he => by
      simp only [Computation.passes, Bool.and_eq_true] at he ⊢
      exact ⟨v.passes_mono h he.1, cs.passes_mono h he.2⟩
  | .branches bs, he => bs.passes_mono h he
  | .hole, he => h.hole he
  | .stray o, he => h.stray o he

theorem Cases.passes_mono (h : S.Within T) : (cs : Cases) -> cs.passes S -> cs.passes T
  | .nil, _ => rfl
  | .cons l p e rest, hc => by
      simp only [Cases.passes, Bool.and_eq_true] at hc ⊢
      exact ⟨⟨⟨l.passes_mono h hc.1.1.1, p.passes_mono h hc.1.1.2⟩, e.passes_mono h hc.1.2⟩,
        rest.passes_mono h hc.2⟩
  | .foreign p rest, hc => by
      simp only [Cases.passes, Bool.and_eq_true] at hc ⊢
      exact ⟨⟨h.foreign hc.1.1, p.passes_mono h hc.1.2⟩, rest.passes_mono h hc.2⟩

theorem Branches.passes_mono (h : S.Within T) :
    (bs : Branches) -> bs.passes S -> bs.passes T
  | .nil, _ => rfl
  | .cons l e rest, hb => by
      simp only [Branches.passes, Bool.and_eq_true] at hb ⊢
      exact ⟨⟨l.passes_mono h hb.1.1, e.passes_mono h hb.1.2⟩, rest.passes_mono h hb.2⟩
  | .foreign p rest, hb => by
      simp only [Branches.passes, Bool.and_eq_true] at hb ⊢
      exact ⟨⟨h.foreign hb.1.1, p.passes_mono h hb.1.2⟩, rest.passes_mono h hb.2⟩

theorem Part.passes_mono (h : S.Within T) : (p : Part) -> p.passes S -> p.passes T
  | .field l v, hp => by
      simp only [Part.passes, Bool.and_eq_true] at hp ⊢
      exact ⟨l.passes_mono h hp.1, v.passes_mono h hp.2⟩
  | .fieldPattern l p, hp => by
      simp only [Part.passes, Bool.and_eq_true] at hp ⊢
      exact ⟨l.passes_mono h hp.1, p.passes_mono h hp.2⟩
  | .case l p e, hp => by
      simp only [Part.passes, Bool.and_eq_true] at hp ⊢
      exact ⟨⟨l.passes_mono h hp.1.1, p.passes_mono h hp.1.2⟩, e.passes_mono h hp.2⟩
  | .branch l e, hp => by
      simp only [Part.passes, Bool.and_eq_true] at hp ⊢
      exact ⟨l.passes_mono h hp.1, e.passes_mono h hp.2⟩
  | .labelled l o, hp => by
      simp only [Part.passes, Bool.and_eq_true] at hp ⊢
      exact ⟨l.passes_mono h hp.1, h.stray o hp.2⟩
  | .stray o, hp => h.stray o hp

end

end Mono

/-!
## Boxes by name
-/

namespace Boxes

variable {S : Screen}

theorem passes_get? {x : String} {b : Box} :
    (bs : Boxes) -> bs.passes S -> bs.get? x = some b -> b.passes S
  | .nil, _, hget => by simp [get?] at hget
  | .cons y c rest, h, hget => by
      simp only [passes, Bool.and_eq_true] at h
      by_cases hxy : x = y
      · simp only [get?, hxy, if_true, Option.some.injEq] at hget
        rw [← hget]
        exact h.1
      · simp only [get?, hxy, if_false] at hget
        exact passes_get? rest h.2 hget

theorem passes_insert {x : String} {b : Box} (hb : b.passes S) :
    (bs : Boxes) -> bs.passes S -> (bs.insert x b).passes S
  | .nil, _ => by simp [insert, passes, hb]
  | .cons y c rest, h => by
      simp only [passes, Bool.and_eq_true] at h
      unfold insert
      split
      · simp [passes, hb, h.1, h.2]
      · simp [passes, hb, h.2]
      · simp [passes, h.1, passes_insert hb rest h.2]

theorem passes_union {base : Boxes} (hbase : base.passes S) :
    (bs : Boxes) -> bs.passes S -> (bs.union base).passes S
  | .nil, _ => hbase
  | .cons x b rest, h => by
      simp only [passes, Bool.and_eq_true] at h
      exact passes_insert h.1 _ (passes_union hbase rest h.2)

theorem passes_capture {own scope : Boxes} (hown : own.passes S) (hscope : scope.passes S) :
    (own.capture scope).passes S := by
  cases scope with
  | nil => exact hown
  | cons x b rest => exact passes_union hscope own hown

end Boxes

end PushValue
