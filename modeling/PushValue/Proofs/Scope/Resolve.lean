import PushValue.Proofs.Contract
import PushValue.Proofs.Scope.Basic
import PushValue.Proofs.Tables

/-!
# Resolving and matching in a scope

An environment covers a scope when it binds all names of the scope and everything bound
in it is closed.  A scoped value then resolves to a closed one, and a scoped pattern
extends the environment by the names that it binds.  No name is missed on the way.
-/

namespace PushValue

def Fault.isUnbound : Fault -> Bool
  | .undefinedVariable _ | .undefinedBox _ => true
  | _ => false

/-- The failures that do not come from a name without a binding. -/
def Failure.Bound : Failure -> Prop
  | .fault f => f.isUnbound = false
  | .breakage _ => True

def Environment.Covers (vs bs : List String) : Environment -> Prop
  | .mk values boxes =>
      (∀ x v, values.get? x = some v -> v.isClosed) ∧ boxes.isScoped ∧
        (∀ x ∈ vs, values.contains x) ∧ bs ⊆ boxes.names
  | .stray _ => False

theorem Meets.bound_ofLack {α : Type} {holds : α -> Prop} {part : Except Lack α}
    (h : ∀ a, part = .ok a -> holds a) : Meets Failure.Bound holds (Failure.ofLack part) := by
  cases part with
  | ok a => exact h a rfl
  | error l => exact Meets.error trivial

/-!
## Environments
-/

namespace Environment

variable {vs bs : List String} {env : Environment}

theorem Covers.mono {vs' bs' : List String} (h : env.Covers vs bs) (hvs : vs' ⊆ vs)
    (hbs : bs' ⊆ bs) : env.Covers vs' bs' := by
  cases env with
  | mk values boxes =>
      rcases h with ⟨hvalues, hboxes, hnames, hboxNames⟩
      exact ⟨hvalues, hboxes, fun x hx => hnames x (hvs hx), List.Subset.trans hbs hboxNames⟩
  | stray o => cases h

theorem covers_empty : Environment.empty.Covers [] [] := by
  refine ⟨?_, rfl, ?_, List.Subset.refl _⟩
  · intro x v hget
    cases hget
  · intro x hx
    cases hx

theorem covers_bind (h : env.Covers vs bs) {x : String} {v : Value} (hv : v.isClosed) :
    Meets Failure.Bound (fun env' => env'.Covers (x :: vs) bs)
      (Failure.ofLack (env.bind x v)) := by
  cases env with
  | stray o => cases h
  | mk values boxes =>
      rcases h with ⟨hvalues, hboxes, hnames, hboxNames⟩
      refine ⟨?_, hboxes, ?_, hboxNames⟩
      · intro y w hget
        rw [Table.get?_insert] at hget
        by_cases hyx : y = x
        · rw [if_pos hyx] at hget
          cases hget
          exact hv
        · rw [if_neg hyx] at hget
          exact hvalues y w hget
      · intro y hy
        rw [Table.contains_insert, Bool.or_eq_true, decide_eq_true_iff]
        rcases List.mem_cons.mp hy with heq | hmem
        · exact .inl heq
        · exact .inr (hnames y hmem)

theorem covers_bindBox (h : env.Covers vs bs) {x : String} {b : Box} (hb : b.isClosed) :
    Meets Failure.Bound (fun env' => env'.Covers vs (x :: bs))
      (Failure.ofLack (env.bindBox x b)) := by
  cases env with
  | stray o => cases h
  | mk values boxes =>
      rcases h with ⟨hvalues, hboxes, hnames, hboxNames⟩
      refine ⟨hvalues, Boxes.isScoped_insert hb boxes hboxes, hnames, ?_⟩
      intro y hy
      rw [Boxes.mem_names_iff]
      by_cases hyx : y = x
      · exact ⟨b, by rw [hyx, Boxes.get?_insert_self]⟩
      · rw [Boxes.get?_insert_of_ne hyx]
        rcases List.mem_cons.mp hy with heq | hmem
        · exact absurd heq hyx
        · exact (Boxes.mem_names_iff boxes).mp (hboxNames hmem)

end Environment

theorem Box.unpack_covers {b : Box} (hb : b.isClosed) :
    Meets Failure.Bound
      (fun unpacked => ∃ vs bs, unpacked.2.Covers vs bs ∧ unpacked.1.isScoped vs bs)
      (Failure.ofLack b.unpack) := by
  cases b with
  | stray o => exact Meets.error trivial
  | mk code self captured =>
      have hparts := hb
      simp only [Box.isClosed, Box.isScoped, Bool.and_eq_true] at hparts
      refine ⟨self.toList, captured.names ++ [], ?_, hparts.1⟩
      rw [List.append_nil]
      cases self with
      | none =>
          refine ⟨?_, hparts.2, ?_, List.Subset.refl _⟩
          · intro x v hget
            cases hget
          · intro x hx
            cases hx
      | some y =>
          refine ⟨?_, hparts.2, ?_, List.Subset.refl _⟩
          · intro x v hget
            rw [Table.get?_insert] at hget
            by_cases hxy : x = y
            · rw [if_pos hxy] at hget
              cases hget
              exact hb
            · rw [if_neg hxy] at hget
              cases hget
          · intro x hx
            rw [Option.toList_some, List.mem_singleton] at hx
            rw [hx, Table.contains_insert, decide_eq_true rfl, Bool.true_or]

/-!
## Values
-/

theorem Value.resolve_variable_closed {vs bs : List String} {env : Environment}
    (henv : env.Covers vs bs) {x : String} (hx : vs.contains x) :
    Meets Failure.Bound (fun w => w.isClosed) (Value.resolve env (.variable x)) := by
  cases env with
  | stray o => cases henv
  | mk values boxes =>
      rcases henv with ⟨hvalues, _hboxes, hnames, _hboxNames⟩
      rcases Table.contains_iff.mp (hnames x (List.contains_iff_mem.mp hx)) with ⟨v, hget⟩
      have hfound : Meets Failure.Bound (fun table => table = values)
          (Failure.ofLack (Environment.values (.mk values boxes))) := rfl
      rw [Value.resolve]
      apply hfound.bind
      intro table htable
      rw [htable, hget]
      exact hvalues x v hget

/-- A box that captures the boxes in scope has all that its code extracts. -/
theorem Value.resolve_box_closed {vs bs : List String} {env : Environment}
    (henv : env.Covers vs bs) (b : Box) (hb : b.isScoped bs) :
    Meets Failure.Bound (fun w => w.isClosed) (Value.resolve env (.box b)) := by
  cases env with
  | stray o => cases henv
  | mk values boxes =>
      rcases henv with ⟨_hvalues, hboxes, _hnames, hboxNames⟩
      cases b with
      | mk code self captured =>
          simp only [Box.isScoped, Bool.and_eq_true] at hb
          have hcaptured : captured.names ++ bs ⊆ (captured.capture boxes).names ++ [] := by
            rw [List.append_nil]
            intro x hx
            rw [Boxes.mem_names_iff, Boxes.get?_capture]
            cases hown : captured.get? x with
            | some c => exact ⟨c, rfl⟩
            | none =>
                rcases List.mem_append.mp hx with hin | hscope
                · rcases (Boxes.mem_names_iff captured).mp hin with ⟨c, hc⟩
                  rw [hown] at hc
                  cases hc
                · exact (Boxes.mem_names_iff boxes).mp (hboxNames hscope)
          show Box.isScoped [] (.mk code self (captured.capture boxes))
          simp only [Box.isScoped, Bool.and_eq_true]
          exact ⟨code.isScoped_mono (List.Subset.refl _) hcaptured hb.1,
            Boxes.isScoped_capture hb.2 hboxes⟩
      | stray o =>
          cases boxes with
          | nil => exact hb
          | cons y c rest => exact Meets.error trivial

section Values

variable {vs bs : List String} {env : Environment}

mutual

theorem Value.resolve_closed (henv : env.Covers vs bs) : (v : Value) -> v.isScoped vs bs ->
    Meets Failure.Bound (fun w => w.isClosed) (v.resolve env)
  | .number _, h | .symbol _, h | .pointer _, h | .process _, h => h
  | .variable x, h => Value.resolve_variable_closed henv h
  | .variant l p, h => by
      simp only [Value.isScoped, Bool.and_eq_true] at h
      rw [Value.resolve]
      apply (l.resolve_closed henv h.1).bind
      intro l' hl
      apply (p.resolve_closed henv h.2).bind
      intro p' hp
      exact Bool.and_eq_true_iff.mpr ⟨hl, hp⟩
  | .record fs, h => by
      rw [Value.resolve]
      apply (fs.resolve_closed henv h).bind
      intro fs' hfs
      exact hfs
  | .extend b l v, h => by
      simp only [Value.isScoped, Bool.and_eq_true] at h
      rw [Value.resolve]
      apply (b.resolve_closed henv h.1.1).bind
      intro b' hb
      apply (l.resolve_closed henv h.1.2).bind
      intro l' hl
      apply (v.resolve_closed henv h.2).bind
      intro v' hv
      show Value.isScoped [] [] (.extend b' l' v')
      simp only [Value.isScoped, Bool.and_eq_true]
      exact ⟨⟨hb, hl⟩, hv⟩
  | .extendBy b p, h => by
      simp only [Value.isScoped, Bool.and_eq_true] at h
      rw [Value.resolve]
      apply (b.resolve_closed henv h.1).bind
      intro _ _
      apply (p.resolveLabel_closed henv h.2).bind
      intro _ _
      exact Meets.error trivial
  | .box b, h => Value.resolve_box_closed henv b h
  | .stray _, _ => Meets.error trivial

theorem Fields.resolve_closed (henv : env.Covers vs bs) : (fs : Fields) -> fs.isScoped vs bs ->
    Meets Failure.Bound (fun gs => gs.isScoped [] []) (fs.resolve env)
  | .nil, _ => rfl
  | .cons l v rest, h => by
      simp only [Fields.isScoped, Bool.and_eq_true] at h
      rw [Fields.resolve]
      apply (l.resolve_closed henv h.1.1).bind
      intro l' hl
      apply (v.resolve_closed henv h.1.2).bind
      intro v' hv
      apply (rest.resolve_closed henv h.2).bind
      intro rest' hrest
      show Fields.isScoped [] [] (.cons l' v' rest')
      simp only [Fields.isScoped, Bool.and_eq_true]
      exact ⟨⟨hl, hv⟩, hrest⟩
  | .foreign p rest, h => by
      simp only [Fields.isScoped, Bool.and_eq_true] at h
      rw [Fields.resolve]
      apply (p.resolveLabel_closed henv h.1).bind
      intro _ _
      exact Meets.error trivial

theorem Part.resolveLabel_closed (henv : env.Covers vs bs) : (p : Part) -> p.isScoped vs bs ->
    Meets Failure.Bound (fun w => w.isClosed) (p.resolveLabel env)
  | .field l _, h | .fieldPattern l _, h | .branch l _, h => by
      simp only [Part.isScoped, Bool.and_eq_true] at h
      exact l.resolve_closed henv h.1
  | .case l _ _, h => by
      simp only [Part.isScoped, Bool.and_eq_true] at h
      exact l.resolve_closed henv h.1.1
  | .labelled l _, h => l.resolve_closed henv h
  | .stray _, _ => Meets.error trivial

end

theorem Part.resolveBranchLabel_closed (henv : env.Covers vs bs) {p : Part}
    (h : p.isScopedBranch vs bs) :
    Meets Failure.Bound (fun w => w.isClosed) (p.resolveLabel env) := by
  cases p with
  | case l q e =>
      simp only [Part.isScopedBranch, Bool.and_eq_true] at h
      exact l.resolve_closed henv h.1
  | branch l e =>
      simp only [Part.isScopedBranch, Bool.and_eq_true] at h
      exact l.resolve_closed henv h.1
  | field l v | fieldPattern l q | labelled l o => exact l.resolve_closed henv h
  | stray o => exact Meets.error trivial

theorem Value.toSymbol_bound (v : Value) : Meets Failure.Bound (fun _ => True) v.toSymbol := by
  cases v with
  | symbol s => trivial
  | _ => exact Meets.error rfl

theorem Value.toPointer_bound (v : Value) : Meets Failure.Bound (fun _ => True) v.toPointer := by
  cases v with
  | pointer s => trivial
  | _ => exact Meets.error rfl

theorem Value.resolveSymbol_bound (henv : env.Covers vs bs) {v : Value}
    (hv : v.isScoped vs bs) : Meets Failure.Bound (fun _ => True) (v.resolveSymbol env) := by
  apply (v.resolve_closed henv hv).bind
  intro w _
  exact w.toSymbol_bound

theorem Value.resolvePointer_bound (henv : env.Covers vs bs) {v : Value}
    (hv : v.isScoped vs bs) : Meets Failure.Bound (fun _ => True) (v.resolvePointer env) := by
  apply (v.resolve_closed henv hv).bind
  intro w _
  exact w.toPointer_bound

end Values

/-!
## Fields and patterns
-/

theorem Part.value_closed {p : Part} (h : p.isScoped [] []) :
    Meets Failure.Bound (fun w => w.isClosed) (Failure.ofLack p.value) := by
  cases p with
  | field l v =>
      simp only [Part.isScoped, Bool.and_eq_true] at h
      exact h.2
  | _ => exact Meets.error trivial

theorem Meets.bound_asked {α : Type} (part : Except Lack α) :
    Meets Failure.Bound (fun _ => True) (Failure.ofLack part) :=
  Meets.bound_ofLack fun _ _ => trivial

theorem Fields.find_closed (label : Value) : (fs : Fields) -> fs.isScoped [] [] ->
    Meets Failure.Bound (fun w => w.isClosed) (fs.find label)
  | .nil, _ => Meets.error rfl
  | .cons l v rest, h => by
      simp only [Fields.isScoped, Bool.and_eq_true] at h
      unfold Fields.find
      split
      · exact h.1.2
      · exact rest.find_closed label h.2
  | .foreign p rest, h => by
      simp only [Fields.isScoped, Bool.and_eq_true] at h
      unfold Fields.find
      apply (Meets.bound_asked p.label).bind
      intro l _
      split
      · exact Part.value_closed h.1
      · exact rest.find_closed label h.2

theorem Value.field_closed : (v : Value) -> v.isClosed -> (label : Value) ->
    Meets Failure.Bound (fun w => w.isClosed) (v.field label)
  | .record fs, h, label => fs.find_closed label h
  | .extend b l v, h, label => by
      simp only [Value.isClosed, Value.isScoped, Bool.and_eq_true] at h
      unfold Value.field
      split
      · exact h.2
      · exact b.field_closed h.1.1 label
  | .extendBy b p, h, label => by
      simp only [Value.isClosed, Value.isScoped, Bool.and_eq_true] at h
      unfold Value.field
      apply (Meets.bound_asked p.label).bind
      intro l _
      split
      · exact Part.value_closed h.2
      · exact b.field_closed h.1 label
  | .number _, _, _ | .symbol _, _, _ | .pointer _, _, _ | .process _, _, _
  | .variable _, _, _ | .variant _ _, _, _ | .box _, _, _ | .operand _, _, _
  | .stray _, _, _ => Meets.error rfl

mutual

theorem Pattern.bind_covers {vs bs : List String} {env : Environment} {v : Value}
    (henv : env.Covers vs bs) (hv : v.isClosed) : (p : Pattern) -> p.isScoped vs bs ->
      Meets Failure.Bound (fun env' => env'.Covers (p.names ++ vs) bs) (p.bind v env)
  | .ignore, _ => henv
  | .variable _, _ => Environment.covers_bind henv hv
  | .fields ps, h => by
      rw [Pattern.bind]
      split
      · exact ps.bind_covers henv hv h
      · exact Meets.error rfl
  | .variant l p, h => by
      simp only [Pattern.isScoped, Bool.and_eq_true] at h
      cases v with
      | variant found payload =>
          simp only [Value.isClosed, Value.isScoped, Bool.and_eq_true] at hv
          rw [Pattern.bind]
          apply (l.resolve_closed henv h.1).bind
          intro expected _
          split
          · exact p.bind_covers henv hv.2 h.2
          · exact Meets.error rfl
      | _ => exact Meets.error rfl
  | .variantBy p, h => by
      cases v with
      | variant found payload =>
          simp only [Value.isClosed, Value.isScoped, Bool.and_eq_true] at hv
          rw [Pattern.bind]
          apply (p.resolveLabel_closed henv h).bind
          intro expected _
          split
          · exact p.bind_covers henv hv.2 h
          · exact Meets.error rfl
      | _ => exact Meets.error rfl
  | .stray _, _ => Meets.error trivial

theorem FieldPatterns.bind_covers {vs bs : List String} {env : Environment} {v : Value}
    (henv : env.Covers vs bs) (hv : v.isClosed) : (ps : FieldPatterns) -> ps.isScoped vs bs ->
      Meets Failure.Bound (fun env' => env'.Covers (ps.names ++ vs) bs) (ps.bind v env)
  | .nil, _ => henv
  | .cons l p rest, h => by
      simp only [FieldPatterns.isScoped, Bool.and_eq_true] at h
      rw [FieldPatterns.bind, FieldPatterns.names]
      apply (l.resolve_closed henv h.1.1).bind
      intro label _
      apply (v.field_closed hv label).bind
      intro part hpart
      apply (p.bind_covers henv hpart h.1.2).bind
      intro env' henv'
      rw [List.append_assoc]
      exact rest.bind_covers henv' hv h.2
  | .foreign p rest, h => by
      simp only [FieldPatterns.isScoped, Bool.and_eq_true] at h
      rw [FieldPatterns.bind, FieldPatterns.names]
      apply (p.resolveLabel_closed henv h.1).bind
      intro label _
      apply (Meets.bound_asked p.pattern).bind
      intro _ _
      apply (v.field_closed hv label).bind
      intro part hpart
      apply (p.bind_covers henv hpart h.1).bind
      intro env' henv'
      rw [List.append_assoc]
      exact rest.bind_covers henv' hv h.2

theorem Part.bind_covers {vs bs : List String} {env : Environment} {v : Value}
    (henv : env.Covers vs bs) (hv : v.isClosed) : (p : Part) -> p.isScoped vs bs ->
      Meets Failure.Bound (fun env' => env'.Covers (p.names ++ vs) bs) (p.bind v env)
  | .fieldPattern l p, h => by
      simp only [Part.isScoped, Bool.and_eq_true] at h
      rw [Part.bind]
      exact p.bind_covers henv hv h.2
  | .case l p e, h => by
      simp only [Part.isScoped, Bool.and_eq_true] at h
      rw [Part.bind]
      exact p.bind_covers henv hv h.1.2
  | .field _ _, _ | .branch _ _, _ | .labelled _ _, _ | .stray _, _ => Meets.error trivial

end

/-!
## Cases, branches and heads
-/

section Choices

variable {vs bs : List String} {env : Environment}

theorem Cases.select_scoped (henv : env.Covers vs bs) (s : Symbol) (cs : Cases)
    (h : cs.isScoped vs bs) :
    Meets Failure.Bound (fun p => p.isScoped vs bs) (cs.select env s) := by
  cases cs with
  | nil => exact Meets.error rfl
  | cons l p e rest =>
      simp only [Cases.isScoped, Bool.and_eq_true] at h
      rw [Cases.select]
      apply (Value.resolveSymbol_bound henv h.1.1.1).bind
      intro label _
      split
      · show Part.isScoped vs bs (.case l p e)
        simp only [Part.isScoped, Bool.and_eq_true]
        exact h.1
      · exact rest.select_scoped henv s h.2
  | foreign p rest =>
      simp only [Cases.isScoped, Bool.and_eq_true] at h
      rw [Cases.select]
      apply (p.resolveLabel_closed henv h.1).bind
      intro w _
      apply w.toSymbol_bound.bind
      intro label _
      split
      · exact h.1
      · exact rest.select_scoped henv s h.2

theorem Branches.select_scoped (henv : env.Covers vs bs) (s : Symbol)
    (alternatives : Branches) (h : alternatives.isScoped vs bs) :
    Meets Failure.Bound (fun p => p.isScopedBranch vs bs) (alternatives.select env s) := by
  cases alternatives with
  | nil => exact Meets.error rfl
  | cons l e rest =>
      simp only [Branches.isScoped, Bool.and_eq_true] at h
      rw [Branches.select]
      apply (Value.resolveSymbol_bound henv h.1.1).bind
      intro label _
      split
      · show Part.isScopedBranch vs bs (.branch l e)
        simp only [Part.isScopedBranch, Bool.and_eq_true]
        exact h.1
      · exact rest.select_scoped henv s h.2
  | foreign p rest =>
      simp only [Branches.isScoped, Bool.and_eq_true] at h
      rw [Branches.select]
      apply (Part.resolveBranchLabel_closed henv h.1).bind
      intro w _
      apply w.toSymbol_bound.bind
      intro label _
      split
      · exact h.1
      · exact rest.select_scoped henv s h.2

theorem Part.body_scoped {p : Part} (h : p.isScoped vs bs) :
    Meets Failure.Bound (fun e => e.isScoped (p.names ++ vs) bs) (Failure.ofLack p.body) := by
  cases p with
  | case l q e | branch l e =>
      simp only [Part.isScoped, Bool.and_eq_true] at h
      exact h.2
  | _ => exact Meets.error trivial

theorem Part.branchBody_scoped {p : Part} (h : p.isScopedBranch vs bs) :
    Meets Failure.Bound (fun e => e.isScoped vs bs) (Failure.ofLack p.body) := by
  cases p with
  | case l q e | branch l e =>
      simp only [Part.isScopedBranch, Bool.and_eq_true] at h
      exact h.2
  | _ => exact Meets.error trivial

theorem Part.label_scoped {p : Part} (h : p.isScoped vs bs) :
    Meets (fun _ => True) (fun l => l.isScoped vs bs) p.label := by
  cases p with
  | field l v | fieldPattern l q | branch l e =>
      simp only [Part.isScoped, Bool.and_eq_true] at h
      exact h.1
  | case l q e =>
      simp only [Part.isScoped, Bool.and_eq_true] at h
      exact h.1.1
  | labelled l o => exact h
  | stray o => trivial

theorem Part.branchLabel_scoped {p : Part} (h : p.isScopedBranch vs bs) :
    Meets (fun _ => True) (fun l => l.isScoped vs bs) p.label := by
  cases p with
  | case l q e | branch l e =>
      simp only [Part.isScopedBranch, Bool.and_eq_true] at h
      exact h.1
  | field l v | fieldPattern l q | labelled l o => exact h
  | stray o => trivial

theorem Part.pattern_scoped {p : Part} (h : p.isScoped vs bs) :
    Meets (fun _ => True) (fun q => q.isScoped vs bs) p.pattern := by
  cases p with
  | fieldPattern l q =>
      simp only [Part.isScoped, Bool.and_eq_true] at h
      exact h.2
  | case l q e =>
      simp only [Part.isScoped, Bool.and_eq_true] at h
      exact h.1.2
  | _ => trivial

theorem Cases.head_scoped (cs : Cases) (h : cs.isScoped vs bs) :
    Meets (fun _ => True) (fun head => head.isScoped vs bs) cs.head := by
  cases cs with
  | nil => rfl
  | cons l p e rest =>
      simp only [Cases.isScoped, Bool.and_eq_true] at h
      rw [Cases.head]
      apply (rest.head_scoped h.2).bind
      intro rest' hrest
      show Cases.isScoped vs bs (.cons l p .hole rest')
      simp only [Cases.isScoped, Bool.and_eq_true]
      exact ⟨⟨h.1.1, rfl⟩, hrest⟩
  | foreign p rest =>
      simp only [Cases.isScoped, Bool.and_eq_true] at h
      rw [Cases.head]
      apply (Part.label_scoped h.1).bind
      intro l hl
      apply (Part.pattern_scoped h.1).bind
      intro q hq
      apply (rest.head_scoped h.2).bind
      intro rest' hrest
      show Cases.isScoped vs bs (.cons l q .hole rest')
      simp only [Cases.isScoped, Bool.and_eq_true]
      exact ⟨⟨⟨hl, hq⟩, rfl⟩, hrest⟩

theorem Branches.head_scoped (alternatives : Branches) (h : alternatives.isScoped vs bs) :
    Meets (fun _ => True) (fun head => head.isScoped vs bs) alternatives.head := by
  cases alternatives with
  | nil => rfl
  | cons l e rest =>
      simp only [Branches.isScoped, Bool.and_eq_true] at h
      rw [Branches.head]
      apply (rest.head_scoped h.2).bind
      intro rest' hrest
      show Branches.isScoped vs bs (.cons l .hole rest')
      simp only [Branches.isScoped, Bool.and_eq_true]
      exact ⟨⟨h.1.1, rfl⟩, hrest⟩
  | foreign p rest =>
      simp only [Branches.isScoped, Bool.and_eq_true] at h
      rw [Branches.head]
      apply (Part.branchLabel_scoped h.1).bind
      intro l hl
      apply (rest.head_scoped h.2).bind
      intro rest' hrest
      show Branches.isScoped vs bs (.cons l .hole rest')
      simp only [Branches.isScoped, Bool.and_eq_true]
      exact ⟨⟨hl, rfl⟩, hrest⟩

/-- The head of a scoped computation is scoped, so a process that stopped is as well. -/
theorem Computation.head_scoped {e : Computation} (h : e.isScoped vs bs) :
    Meets Failure.Bound (fun head => head.isScoped vs bs) e.head := by
  cases e with
  | nest v body | spawn v body | lambda p body =>
      simp only [Computation.isScoped, Bool.and_eq_true] at h
      exact Bool.and_eq_true_iff.mpr ⟨h.1, rfl⟩
  | apply f v | project f v =>
      simp only [Computation.isScoped, Bool.and_eq_true] at h
      exact h.2
  | bind p e₁ e₂ | bindBox p e₁ e₂ =>
      simp only [Computation.isScoped, Bool.and_eq_true] at h
      show (p.isScoped vs bs && true && true) = true
      rw [h.1.1]
      rfl
  | switch v cs =>
      simp only [Computation.isScoped, Bool.and_eq_true] at h
      have hcs := cs.head_scoped h.2
      rw [Computation.head]
      cases hhead : cs.head with
      | error l => exact Meets.error trivial
      | ok cs' =>
          rw [hhead] at hcs
          exact Bool.and_eq_true_iff.mpr ⟨h.1, hcs⟩
  | branches alternatives =>
      have hheads := alternatives.head_scoped h
      rw [Computation.head]
      cases hhead : alternatives.head with
      | error l => exact Meets.error trivial
      | ok heads =>
          rw [hhead] at hheads
          exact hheads
  | put a b | get v | link v | assert a equal b | ret v | extract v | hole => exact h
  | returned v => cases h
  | stray o => exact Meets.error trivial

end Choices

end PushValue
