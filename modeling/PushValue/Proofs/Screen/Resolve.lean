import PushValue.Proofs.Contract
import PushValue.Proofs.Screen.State

/-!
# Resolving and matching under a screen

Resolving a value, reading a field, binding a pattern and choosing a case bring no
form into a term that was not there before.  Under a strict screen they fail only by
faults of the program: a breakage needs something out of place, which such a screen
does not let through.
-/

namespace PushValue

/-- The failures that may arise from terms that pass a screen.  Only an operand is found to be left,
and only what is out of place breaks. -/
def Screen.Tolerates (S : Screen) : Failure -> Prop
  | .fault .operandLeft => S.operand
  | .fault _ => True
  | .breakage _ => ¬ S.Strict

section Failures

variable {S : Screen}

theorem Screen.tolerates_of_foreign (h : S.foreign) (b : Breakage) :
    S.Tolerates (.breakage b) := by
  intro strict
  rw [strict.foreign] at h
  cases h

theorem Screen.tolerates_of_stray {o : Object} (h : S.stray o) (b : Breakage) :
    S.Tolerates (.breakage b) := by
  intro strict
  rw [strict.stray] at h
  cases h

theorem Meets.asked {α : Type} {holds : α -> Prop} {part : Except Lack α}
    (h : Meets (fun _ => S.foreign) holds part) :
    Meets S.Tolerates holds (Failure.ofLack part) := by
  cases part with
  | ok a => exact h
  | error l => exact Meets.error (S.tolerates_of_foreign h _)

end Failures

section Contracts

variable {S : Screen} {env : Environment}

/-!
## Values
-/

theorem Value.resolve_variable_meets (henv : env.passes S) (x : String) :
    Meets S.Tolerates (fun w => w.passes S) (Value.resolve env (.variable x)) := by
  rcases Environment.exists_of_passes henv with ⟨vs, bs, rfl, hvs, _hbs⟩
  have hvalues : Meets S.Tolerates (fun ws => ws = vs)
      (Failure.ofLack (Environment.values (.mk vs bs))) := rfl
  rw [Value.resolve]
  apply hvalues.bind
  rintro ws rfl
  cases hget : ws.get? x with
  | none => exact Meets.error trivial
  | some v => exact Table.all_iff.mp hvs x v hget

theorem Value.resolve_box_meets (henv : env.passes S) (b : Box) (hb : b.passes S) :
    Meets S.Tolerates (fun w => w.passes S) (Value.resolve env (.box b)) := by
  rcases Environment.exists_of_passes henv with ⟨vs, bs, rfl, _hvs, hbs⟩
  cases b with
  | mk code self captured =>
      simp only [Box.passes, Bool.and_eq_true] at hb
      show Box.passes S (.mk code self (captured.capture bs))
      simp only [Box.passes, Bool.and_eq_true]
      exact ⟨hb.1, Boxes.passes_capture hb.2 hbs⟩
  | stray o =>
      cases bs with
      | nil => exact hb
      | cons y c rest => exact Meets.error (S.tolerates_of_stray hb _)

mutual

theorem Value.resolve_meets (henv : env.passes S) :
    (v : Value) -> v.passes S ->
      Meets S.Tolerates (fun w => w.passes S) (v.resolve env)
  | .number _, h | .symbol _, h | .pointer _, h | .process _, h => h
  | .variable x, _ => Value.resolve_variable_meets henv x
  | .variant l p, h => by
      simp only [Value.passes, Bool.and_eq_true] at h
      rw [Value.resolve]
      apply (l.resolve_meets henv h.1).bind
      intro l' hl
      apply (p.resolve_meets henv h.2).bind
      intro p' hp
      show Value.passes S (.variant l' p')
      rw [Value.passes, hl, hp]
      rfl
  | .record fs, h => by
      rw [Value.resolve]
      apply (fs.resolve_meets henv h).bind
      intro fs' hfs
      exact hfs
  | .extend b l v, h => by
      simp only [Value.passes, Bool.and_eq_true] at h
      rw [Value.resolve]
      apply (b.resolve_meets henv h.1.1).bind
      intro b' hb
      apply (l.resolve_meets henv h.1.2).bind
      intro l' hl
      apply (v.resolve_meets henv h.2).bind
      intro v' hv
      show Value.passes S (.extend b' l' v')
      rw [Value.passes, hb, hl, hv]
      rfl
  | .extendBy b p, h => by
      simp only [Value.passes, Bool.and_eq_true] at h
      rw [Value.resolve]
      apply (b.resolve_meets henv h.1.2).bind
      intro _ _
      apply (p.resolveLabel_meets henv h.2).bind
      intro _ _
      exact Meets.error (S.tolerates_of_foreign h.1.1 _)
  | .box b, h => Value.resolve_box_meets henv b h
  | .operand _, h => (Bool.and_eq_true_iff.mp h).1
  | .stray _, h => Meets.error (S.tolerates_of_stray h _)

theorem Fields.resolve_meets (henv : env.passes S) :
    (fs : Fields) -> fs.passes S ->
      Meets S.Tolerates (fun gs => gs.passes S) (fs.resolve env)
  | .nil, _ => rfl
  | .cons l v rest, h => by
      simp only [Fields.passes, Bool.and_eq_true] at h
      rw [Fields.resolve]
      apply (l.resolve_meets henv h.1.1).bind
      intro l' hl
      apply (v.resolve_meets henv h.1.2).bind
      intro v' hv
      apply (rest.resolve_meets henv h.2).bind
      intro rest' hrest
      show Fields.passes S (.cons l' v' rest')
      rw [Fields.passes, hl, hv, hrest]
      rfl
  | .foreign p rest, h => by
      simp only [Fields.passes, Bool.and_eq_true] at h
      rw [Fields.resolve]
      apply (p.resolveLabel_meets henv h.1.2).bind
      intro _ _
      exact Meets.error (S.tolerates_of_foreign h.1.1 _)

theorem Part.resolveLabel_meets (henv : env.passes S) :
    (p : Part) -> p.passes S ->
      Meets S.Tolerates (fun w => w.passes S) (p.resolveLabel env)
  | .field l _, h | .fieldPattern l _, h | .branch l _, h | .labelled l _, h => by
      simp only [Part.passes, Bool.and_eq_true] at h
      exact l.resolve_meets henv h.1
  | .case l _ _, h => by
      simp only [Part.passes, Bool.and_eq_true] at h
      exact l.resolve_meets henv h.1.1
  | .stray _, h => Meets.error (S.tolerates_of_stray h _)

end

theorem Value.toSymbol_meets {v : Value} (hv : v.passes S) :
    Meets S.Tolerates (fun s => S.symbol s) v.toSymbol := by
  cases v with
  | symbol s => exact hv
  | _ => trivial

theorem Value.resolveSymbol_meets (henv : env.passes S) {v : Value} (hv : v.passes S) :
    Meets S.Tolerates (fun s => S.symbol s) (v.resolveSymbol env) := by
  apply (v.resolve_meets henv hv).bind
  intro w hw
  exact Value.toSymbol_meets hw

theorem Value.resolvePointer_meets (henv : env.passes S) {v : Value} (hv : v.passes S) :
    Meets S.Tolerates (fun s => S.pointer s) (v.resolvePointer env) := by
  apply (v.resolve_meets henv hv).bind
  intro w hw
  cases w with
  | pointer s => exact hw
  | _ => trivial

/-!
## Fields and patterns
-/

theorem Part.label_meets (hforeign : S.foreign) {p : Part} (hp : p.passes S) :
    Meets (fun _ => S.foreign) (fun l => l.passes S) p.label := by
  cases p with
  | field l _ | fieldPattern l _ | branch l _ | labelled l _ =>
      simp only [Part.passes, Bool.and_eq_true] at hp
      exact hp.1
  | case l p e =>
      simp only [Part.passes, Bool.and_eq_true] at hp
      exact hp.1.1
  | stray o => exact hforeign

theorem Part.value_meets (hforeign : S.foreign) {p : Part} (hp : p.passes S) :
    Meets (fun _ => S.foreign) (fun v => v.passes S) p.value := by
  cases p with
  | field l v =>
      simp only [Part.passes, Bool.and_eq_true] at hp
      exact hp.2
  | _ => exact hforeign

theorem Part.pattern_meets (hforeign : S.foreign) {p : Part} (hp : p.passes S) :
    Meets (fun _ => S.foreign) (fun q => q.passes S) p.pattern := by
  cases p with
  | fieldPattern l q =>
      simp only [Part.passes, Bool.and_eq_true] at hp
      exact hp.2
  | case l q e =>
      simp only [Part.passes, Bool.and_eq_true] at hp
      exact hp.1.2
  | _ => exact hforeign

theorem Part.field_meets (hforeign : S.foreign) {p : Part} (hp : p.passes S) (label : Value)
    {rest : Except Failure Value}
    (hrest : Meets S.Tolerates (fun w => w.passes S) rest) :
    Meets S.Tolerates (fun w => w.passes S) (do
      if (<- Failure.ofLack p.label) = label then Failure.ofLack p.value else rest) := by
  apply (Part.label_meets hforeign hp).asked.bind
  intro l _hl
  by_cases hlabel : l = label
  · rw [if_pos hlabel]
    exact (Part.value_meets hforeign hp).asked
  · rw [if_neg hlabel]
    exact hrest

theorem Fields.find_meets (label : Value) :
    (fs : Fields) -> fs.passes S ->
      Meets S.Tolerates (fun w => w.passes S) (fs.find label)
  | .nil, _ => trivial
  | .cons l v rest, h => by
      simp only [Fields.passes, Bool.and_eq_true] at h
      rw [Fields.find]
      by_cases hl : l = label
      · rw [if_pos hl]
        exact h.1.2
      · rw [if_neg hl]
        exact rest.find_meets label h.2
  | .foreign p rest, h => by
      simp only [Fields.passes, Bool.and_eq_true] at h
      rw [Fields.find]
      exact Part.field_meets h.1.1 h.1.2 label (rest.find_meets label h.2)

theorem Value.field_meets :
    (v : Value) -> v.passes S -> (label : Value) ->
      Meets S.Tolerates (fun w => w.passes S) (v.field label)
  | .record fs, h, label => fs.find_meets label h
  | .extend base l v, h, label => by
      simp only [Value.passes, Bool.and_eq_true] at h
      rw [Value.field]
      by_cases hl : l = label
      · rw [if_pos hl]
        exact h.2
      · rw [if_neg hl]
        exact base.field_meets h.1.1 label
  | .extendBy base p, h, label => by
      simp only [Value.passes, Bool.and_eq_true] at h
      rw [Value.field]
      exact Part.field_meets h.1.1 h.2 label (base.field_meets h.1.2 label)
  | .number _, _, _ | .symbol _, _, _ | .pointer _, _, _ | .process _, _, _ | .variable _, _, _
  | .variant _ _, _, _ | .box _, _, _ | .operand _, _, _ | .stray _, _, _ => trivial

theorem Environment.bind_meets {env : Environment} (henv : env.passes S) (x : String) {v : Value}
    (hv : v.passes S) :
    Meets S.Tolerates (fun env => env.passes S) (Failure.ofLack (env.bind x v)) := by
  rcases Environment.exists_of_passes henv with ⟨vs, bs, rfl, hvs, hbs⟩
  show Environment.passes S (.mk (vs.insert x v) bs)
  simp only [Environment.passes, Bool.and_eq_true]
  exact ⟨Table.all_insert x hvs hv, hbs⟩

mutual

theorem Pattern.bind_meets :
    (p : Pattern) -> p.passes S -> (v : Value) -> v.passes S -> (env : Environment) ->
      env.passes S -> Meets S.Tolerates (fun env => env.passes S) (p.bind v env)
  | .ignore, _, _, _, _, henv => henv
  | .variable x, _, v, hv, env, henv => by
      rw [Pattern.bind]
      exact Environment.bind_meets henv x hv
  | .fields ps, hp, v, hv, env, henv => by
      rw [Pattern.bind]
      cases hrec : v.isRecord with
      | false => exact Meets.error trivial
      | true => exact ps.bind_meets hp v hv env henv
  | .variant l p, hp, v, hv, env, henv => by
      simp only [Pattern.passes, Bool.and_eq_true] at hp
      cases v with
      | variant found payload =>
          simp only [Value.passes, Bool.and_eq_true] at hv
          rw [Pattern.bind]
          apply (l.resolve_meets henv hp.1).bind
          intro expected _
          by_cases hlabel : found = expected
          · rw [if_pos hlabel]
            exact p.bind_meets hp.2 payload hv.2 env henv
          · rw [if_neg hlabel]
            exact Meets.error trivial
      | _ => exact Meets.error trivial
  | .variantBy part, hp, v, hv, env, henv => by
      simp only [Pattern.passes, Bool.and_eq_true] at hp
      cases v with
      | variant found payload =>
          simp only [Value.passes, Bool.and_eq_true] at hv
          rw [Pattern.bind]
          apply (part.resolveLabel_meets henv hp.2).bind
          intro expected _
          by_cases hlabel : found = expected
          · rw [if_pos hlabel]
            exact part.bind_meets (.inl hp.1) hp.2 payload hv.2 env henv
          · rw [if_neg hlabel]
            exact Meets.error trivial
      | _ => exact Meets.error trivial
  | .stray _, hp, _, _, _, _ => Meets.error (S.tolerates_of_stray hp _)

theorem FieldPatterns.bind_meets :
    (ps : FieldPatterns) -> ps.passes S -> (v : Value) -> v.passes S -> (env : Environment) ->
      env.passes S -> Meets S.Tolerates (fun env => env.passes S) (ps.bind v env)
  | .nil, _, _, _, _, henv => henv
  | .cons l p rest, hp, v, hv, env, henv => by
      simp only [FieldPatterns.passes, Bool.and_eq_true] at hp
      rw [FieldPatterns.bind]
      apply (l.resolve_meets henv hp.1.1).bind
      intro label _
      apply (v.field_meets hv label).bind
      intro part hpart
      apply (p.bind_meets hp.1.2 part hpart env henv).bind
      intro env' henv'
      exact rest.bind_meets hp.2 v hv env' henv'
  | .foreign p rest, hp, v, hv, env, henv => by
      simp only [FieldPatterns.passes, Bool.and_eq_true] at hp
      rw [FieldPatterns.bind]
      apply (p.resolveLabel_meets henv hp.1.2).bind
      intro label _
      apply (Part.pattern_meets hp.1.1 hp.1.2).asked.bind
      intro _ _
      apply (v.field_meets hv label).bind
      intro part hpart
      apply (p.bind_meets (.inl hp.1.1) hp.1.2 part hpart env henv).bind
      intro env' henv'
      exact rest.bind_meets hp.2 v hv env' henv'

theorem Part.bind_meets :
    (p : Part) -> (S.foreign ∨ ∃ l q e, p = .case l q e) -> p.passes S -> (v : Value) ->
      v.passes S -> (env : Environment) -> env.passes S ->
      Meets S.Tolerates (fun env => env.passes S) (p.bind v env)
  | .fieldPattern _ q, _, hp, v, hv, env, henv => by
      simp only [Part.passes, Bool.and_eq_true] at hp
      exact q.bind_meets hp.2 v hv env henv
  | .case _ q _, _, hp, v, hv, env, henv => by
      simp only [Part.passes, Bool.and_eq_true] at hp
      exact q.bind_meets hp.1.2 v hv env henv
  | .field _ _, hfits, _, _, _, _, _ | .branch _ _, hfits, _, _, _, _, _
  | .labelled _ _, hfits, _, _, _, _, _ | .stray _, hfits, _, _, _, _, _ => by
      rcases hfits with hforeign | ⟨l, q, e, hcase⟩
      · exact Meets.error (S.tolerates_of_foreign hforeign _)
      · cases hcase

end

/-!
## Cases, branches and heads

The part that is chosen is one of its place, unless the screen lets foreign parts
through.
-/

theorem Part.body_meets {p : Part}
    (hfits : S.foreign ∨ (∃ l q e, p = .case l q e) ∨ ∃ l e, p = .branch l e)
    (hp : p.passes S) : Meets (fun _ => S.foreign) (fun e => e.passes S) p.body := by
  cases p with
  | case l q e | branch l e =>
      simp only [Part.passes, Bool.and_eq_true] at hp
      exact hp.2
  | _ =>
      rcases hfits with hforeign | ⟨l, q, e, hcase⟩ | ⟨l, e, hbranch⟩
      · exact hforeign
      · cases hcase
      · cases hbranch

theorem Cases.select_meets (henv : env.passes S) (s : Symbol) (cs : Cases)
    (h : cs.passes S) :
    Meets S.Tolerates (fun p => (S.foreign ∨ ∃ l q e, p = .case l q e) ∧ p.passes S)
      (cs.select env s) := by
  cases cs with
  | nil => trivial
  | cons l q e rest =>
      simp only [Cases.passes, Bool.and_eq_true] at h
      rw [Cases.select]
      apply (Value.resolveSymbol_meets henv h.1.1.1).bind
      intro label _
      by_cases hlabel : label = s
      · rw [if_pos hlabel]
        refine ⟨.inr ⟨l, q, e, rfl⟩, ?_⟩
        simp only [Part.passes, Bool.and_eq_true]
        exact h.1
      · rw [if_neg hlabel]
        exact rest.select_meets henv s h.2
  | foreign p rest =>
      simp only [Cases.passes, Bool.and_eq_true] at h
      rw [Cases.select]
      apply (p.resolveLabel_meets henv h.1.2).bind
      intro v hv
      apply (Value.toSymbol_meets hv).bind
      intro label _
      by_cases hlabel : label = s
      · rw [if_pos hlabel]
        exact ⟨.inl h.1.1, h.1.2⟩
      · rw [if_neg hlabel]
        exact rest.select_meets henv s h.2

theorem Branches.select_meets (henv : env.passes S) (s : Symbol) (bs : Branches)
    (h : bs.passes S) :
    Meets S.Tolerates (fun p => (S.foreign ∨ ∃ l e, p = .branch l e) ∧ p.passes S)
      (bs.select env s) := by
  cases bs with
  | nil => trivial
  | cons l e rest =>
      simp only [Branches.passes, Bool.and_eq_true] at h
      rw [Branches.select]
      apply (Value.resolveSymbol_meets henv h.1.1).bind
      intro label _
      by_cases hlabel : label = s
      · rw [if_pos hlabel]
        refine ⟨.inr ⟨l, e, rfl⟩, ?_⟩
        simp only [Part.passes, Bool.and_eq_true]
        exact h.1
      · rw [if_neg hlabel]
        exact rest.select_meets henv s h.2
  | foreign p rest =>
      simp only [Branches.passes, Bool.and_eq_true] at h
      rw [Branches.select]
      apply (p.resolveLabel_meets henv h.1.2).bind
      intro v hv
      apply (Value.toSymbol_meets hv).bind
      intro label _
      by_cases hlabel : label = s
      · rw [if_pos hlabel]
        exact ⟨.inl h.1.1, h.1.2⟩
      · rw [if_neg hlabel]
        exact rest.select_meets henv s h.2

theorem Cases.head_meets (cs : Cases) (h : cs.passes S) :
    Meets (fun _ => S.foreign) (fun ds => ds.passes S.holed) cs.head := by
  cases cs with
  | nil => rfl
  | cons l q e rest =>
      simp only [Cases.passes, Bool.and_eq_true] at h
      rw [Cases.head]
      apply (rest.head_meets h.2).bind
      intro rest' hrest
      show Cases.passes S.holed (.cons l q .hole rest')
      simp only [Cases.passes, Bool.and_eq_true]
      exact ⟨⟨⟨l.passes_mono S.within_holed h.1.1.1, q.passes_mono S.within_holed h.1.1.2⟩, rfl⟩,
        hrest⟩
  | foreign p rest =>
      simp only [Cases.passes, Bool.and_eq_true] at h
      rw [Cases.head]
      apply (Part.label_meets h.1.1 h.1.2).bind
      intro l hl
      apply (Part.pattern_meets h.1.1 h.1.2).bind
      intro q hq
      apply (rest.head_meets h.2).bind
      intro rest' hrest
      show Cases.passes S.holed (.cons l q .hole rest')
      simp only [Cases.passes, Bool.and_eq_true]
      exact ⟨⟨⟨l.passes_mono S.within_holed hl, q.passes_mono S.within_holed hq⟩, rfl⟩, hrest⟩

theorem Branches.head_meets (bs : Branches) (h : bs.passes S) :
    Meets (fun _ => S.foreign) (fun ds => ds.passes S.holed) bs.head := by
  cases bs with
  | nil => rfl
  | cons l e rest =>
      simp only [Branches.passes, Bool.and_eq_true] at h
      rw [Branches.head]
      apply (rest.head_meets h.2).bind
      intro rest' hrest
      show Branches.passes S.holed (.cons l .hole rest')
      simp only [Branches.passes, Bool.and_eq_true]
      exact ⟨⟨l.passes_mono S.within_holed h.1.1, rfl⟩, hrest⟩
  | foreign p rest =>
      simp only [Branches.passes, Bool.and_eq_true] at h
      rw [Branches.head]
      apply (Part.label_meets h.1.1 h.1.2).bind
      intro l hl
      apply (rest.head_meets h.2).bind
      intro rest' hrest
      show Branches.passes S.holed (.cons l .hole rest')
      simp only [Branches.passes, Bool.and_eq_true]
      exact ⟨⟨l.passes_mono S.within_holed hl, rfl⟩, hrest⟩

theorem Computation.head_meets {e : Computation} (he : e.passesControl S) :
    Meets S.Tolerates (fun h => h.passesControl S.holed) e.head := by
  have hmono := Computation.passesControl_mono S.within_holed he
  cases e with
  | nest v e | spawn v e | lambda p e | apply e v | project e v | bind p e₁ e₂ | bindBox p e₁ e₂ =>
      simp only [Computation.passesControl, Computation.passes, Bool.and_eq_true] at hmono
      simp [Computation.head, Meets, Computation.passesControl, Computation.passes, hmono]
  | switch v cs =>
      simp only [Computation.passesControl, Computation.passes, Bool.and_eq_true] at he
      rw [Computation.head]
      apply (cs.head_meets he.2).asked.bind
      intro ds hds
      show Computation.passes S.holed (.switch v ds)
      rw [Computation.passes, v.passes_mono S.within_holed he.1, hds]
      rfl
  | branches bs =>
      rw [Computation.head]
      apply (bs.head_meets he).asked.bind
      intro ds hds
      exact hds
  | hole => rfl
  | stray o => exact Meets.error (S.tolerates_of_stray he _)
  | _ => exact hmono

end Contracts

end PushValue
