import PushValue.Proofs.Normalize.Hoisting
import PushValue.Proofs.Reduction

/-!
# What a computation costs

The cost of a computation is told from its text: every form is charged for the steps that
it takes, and a form with several parts for all of them.  Boxes are free, for their code
is performed only when they are extracted, and an extract is charged at a rate of its own.
Normalization does not change the cost, and a step that extracts nothing lowers it.
-/

namespace PushValue

structure Cost where
  step : Nat
  extract : Nat

def Cost.extracts : Cost := ⟨0, 1⟩

def Cost.steps : Cost := ⟨1, 1⟩

mutual

/-- The cost of the operands in a value, each of which is bound to a name before it is used. -/
def Value.tally (c : Cost) : Value -> Nat
  | .number _ | .symbol _ | .pointer _ | .process _ | .variable _ | .box _ | .stray _ => 0
  | .variant l p => l.tally c + p.tally c
  | .record fs => fs.tally c
  | .extend b l v => b.tally c + l.tally c + v.tally c
  | .extendBy b p => b.tally c + p.tally c
  | .operand e => c.step + e.tally c

def Fields.tally (c : Cost) : Fields -> Nat
  | .nil => 0
  | .cons l v rest => l.tally c + v.tally c + rest.tally c
  | .foreign p rest => p.tally c + rest.tally c

/-- The cost of a computation.  One that ends in a value is charged for handing it over, and one
that waits for going to sleep and waking up. -/
def Computation.tally (c : Cost) : Computation -> Nat
  | .ret v => c.step + v.tally c
  | .returned _ | .hole | .stray _ => c.step
  | .extract v => c.extract + v.tally c
  | .get v => 2 * c.step + v.tally c
  | .put a b | .assert a _ b => 2 * c.step + (a.tally c + b.tally c)
  | .link v => 4 * c.step + v.tally c
  | .nest v e | .spawn v e => 2 * c.step + (v.tally c + e.tally c)
  | .lambda _ e => c.step + e.tally c
  | .apply e v | .project e v => c.step + (e.tally c + v.tally c)
  | .bind _ e₁ e₂ | .bindBox _ e₁ e₂ => c.step + (e₁.tally c + e₂.tally c)
  | .switch v cs => c.step + (v.tally c + cs.tally c)
  | .branches bs => c.step + bs.tally c

def Cases.tally (c : Cost) : Cases -> Nat
  | .nil => 0
  | .cons l _ e rest => l.tally c + e.tally c + rest.tally c
  | .foreign p rest => p.tally c + rest.tally c

def Branches.tally (c : Cost) : Branches -> Nat
  | .nil => 0
  | .cons l e rest => l.tally c + e.tally c + rest.tally c
  | .foreign p rest => p.tally c + rest.tally c

def Part.tally (c : Cost) : Part -> Nat
  | .field l v => l.tally c + v.tally c
  | .case l _ e | .branch l e => l.tally c + e.tally c
  | .labelled l _ => l.tally c
  | .fieldPattern _ _ | .stray _ => 0

end

def Computation.extracts (e : Computation) : Nat := e.tally .extracts

/-- A bound on the number of steps that a computation takes, if it extracts nothing. -/
def Computation.work (e : Computation) : Nat := e.tally .steps

/-!
## Normalization
-/

def Hoist.tally (c : Cost) : List Binding -> Nat
  | [] => 0
  | b :: bs => c.step + b.bound.tally c + tally c bs

section Hoisting

variable {c : Cost} {mixed : Prop}

theorem Hoist.tally_append (bs cs : List Binding) :
    Hoist.tally c (bs ++ cs) = Hoist.tally c bs + Hoist.tally c cs := by
  induction bs with
  | nil => exact (Nat.zero_add _).symm
  | cons b bs ih =>
      rw [List.cons_append, tally, tally, ih]
      omega

theorem Computation.tally_close (e : Computation) (bs : List Binding) :
    (e.close bs).tally c = e.tally c + Hoist.tally c bs := by
  induction bs generalizing e with
  | nil => rfl
  | cons b bs ih =>
      rw [close_cons, ih, tally, Hoist.tally]
      omega

mutual

/-- What an operand costs its binding does. -/
theorem Value.Hoists.tally_eq {v v' : Value} {ns : List String} {bs : List Binding} :
    v.Hoists mixed ns v' bs -> v'.tally c + Hoist.tally c bs = v.tally c
  | .number _ | .symbol _ | .pointer _ | .process _ | .variable _ => rfl
  | .box _ => rfl
  | .record hfs => by
      have hfs := hfs.tally_eq
      simp only [Value.tally]
      omega
  | .variant hl hp => by
      have hl := hl.tally_eq
      have hp := hp.tally_eq
      simp only [Value.tally, Hoist.tally_append]
      omega
  | .extend hb hl hv => by
      have hb := hb.tally_eq
      have hl := hl.tally_eq
      have hv := hv.tally_eq
      simp only [Value.tally, Hoist.tally_append]
      omega
  | .operand x he => by
      have he := he.tally_eq
      simp only [Value.tally, Hoist.tally, Computation.tally_close]
      omega

theorem Fields.Hoists.tally_eq {fs fs' : Fields} {ns : List String} {bs : List Binding} :
    fs.Hoists mixed ns fs' bs -> fs'.tally c + Hoist.tally c bs = fs.tally c
  | .nil => rfl
  | .cons hl hv hrest => by
      have hl := hl.tally_eq
      have hv := hv.tally_eq
      have hrest := hrest.tally_eq
      simp only [Fields.tally, Hoist.tally_append]
      omega

theorem Computation.Hoists.tally_eq {e e' : Computation} {ns : List String} {bs : List Binding} :
    e.Hoists mixed ns e' bs -> e'.tally c + Hoist.tally c bs = e.tally c
  | .hole => rfl
  | .ret hv | .extract hv | .get hv | .link hv => by
      have hv := hv.tally_eq
      simp only [Computation.tally]
      omega
  | .put ha hb | .assert _ ha hb => by
      have ha := ha.tally_eq
      have hb := hb.tally_eq
      simp only [Computation.tally, Hoist.tally_append]
      omega
  | .nest hv he | .spawn hv he | .apply hv he | .project hv he => by
      have hv := hv.tally_eq
      have he := he.tally_eq
      simp only [Computation.tally, Computation.tally_close, Hoist.tally_append]
      omega
  | .lambda _ he => by
      have he := he.tally_eq
      simp only [Computation.tally, Computation.tally_close, Hoist.tally]
      omega
  | .bind _ he₁ he₂ | .bindBox _ he₁ he₂ => by
      have he₁ := he₁.tally_eq
      have he₂ := he₂.tally_eq
      simp only [Computation.tally, Computation.tally_close, Hoist.tally]
      omega
  | .switch hv hcases => by
      have hv := hv.tally_eq
      have hcases := hcases.tally_eq
      simp only [Computation.tally, Hoist.tally_append]
      omega
  | .branches hbs => by
      have hbs := hbs.tally_eq
      simp only [Computation.tally]
      omega

theorem Cases.Hoists.tally_eq {cs cs' : Cases} {ns : List String} {bs : List Binding} :
    cs.Hoists mixed ns cs' bs -> cs'.tally c + Hoist.tally c bs = cs.tally c
  | .nil => rfl
  | .cons _ hl he hrest => by
      have hl := hl.tally_eq
      have he := he.tally_eq
      have hrest := hrest.tally_eq
      simp only [Cases.tally, Computation.tally_close, Hoist.tally_append]
      omega

theorem Branches.Hoists.tally_eq {bs bs' : Branches} {ns : List String} {cs : List Binding} :
    bs.Hoists mixed ns bs' cs -> bs'.tally c + Hoist.tally c cs = bs.tally c
  | .nil => rfl
  | .cons hl he hrest => by
      have hl := hl.tally_eq
      have he := he.tally_eq
      have hrest := hrest.tally_eq
      simp only [Branches.tally, Computation.tally_close, Hoist.tally_append]
      omega
  | .foreign _ hp hrest => by
      have hp := hp.tally_eq
      have hrest := hrest.tally_eq
      simp only [Branches.tally, Hoist.tally_append]
      omega

theorem Part.Hoists.tally_eq {p : Part} {ns : List String} {l : Value} {e : Computation}
    {bs : List Binding} :
    p.Hoists mixed ns l e bs -> l.tally c + e.tally c + Hoist.tally c bs = p.tally c
  | .case _ hl he | .branch hl he => by
      have hl := hl.tally_eq
      have he := he.tally_eq
      simp only [Part.tally, Computation.tally_close]
      omega

end

end Hoisting

/-!
## Selected parts
-/

section Selection

variable {c : Cost} {env : Environment} {s : Symbol} {part : Part}

theorem Part.tally_body_le {body : Computation} (h : part.body = .ok body) :
    body.tally c ≤ part.tally c := by
  cases part with
  | case l p e | branch l e =>
      cases h
      exact Nat.le_add_left _ _
  | _ => cases h

theorem Part.eq_or_later {label : Except Failure Symbol} {here : Part}
    {later : Except Failure Part}
    (h : (label >>= fun l => if l = s then Pure.pure here else later) = .ok part) :
    part = here ∨ later = .ok part := by
  cases label with
  | error f => cases h
  | ok l =>
      by_cases hl : l = s
      · exact .inl (Except.ok.inj ((if_pos hl).symm.trans h)).symm
      · exact .inr ((if_neg hl).symm.trans h)

theorem Part.eq_or_later_of_foreign {p : Part} {later : Except Failure Part}
    (h : (p.resolveLabel env >>= fun v => v.toSymbol >>= fun l =>
      if l = s then Pure.pure p else later) = .ok part) : part = p ∨ later = .ok part := by
  cases hp : p.resolveLabel env with
  | error f =>
      rw [hp] at h
      cases h
  | ok v =>
      rw [hp] at h
      exact eq_or_later h

theorem Cases.tally_select_le {cs : Cases} (h : cs.select env s = .ok part) :
    part.tally c ≤ cs.tally c := by
  cases cs with
  | nil => cases h
  | cons l p e rest =>
      rcases Part.eq_or_later h with rfl | hrest
      · exact Nat.le_add_right _ _
      · exact Nat.le_add_left_of_le (tally_select_le hrest)
  | foreign p rest =>
      rcases Part.eq_or_later_of_foreign h with rfl | hrest
      · exact Nat.le_add_right _ _
      · exact Nat.le_add_left_of_le (tally_select_le hrest)

theorem Branches.tally_select_le {bs : Branches} (h : bs.select env s = .ok part) :
    part.tally c ≤ bs.tally c := by
  cases bs with
  | nil => cases h
  | cons l e rest =>
      rcases Part.eq_or_later h with rfl | hrest
      · exact Nat.le_add_right _ _
      · exact Nat.le_add_left_of_le (tally_select_le hrest)
  | foreign p rest =>
      rcases Part.eq_or_later_of_foreign h with rfl | hrest
      · exact Nat.le_add_right _ _
      · exact Nat.le_add_left_of_le (tally_select_le hrest)

end Selection

/-!
## Processes
-/

section Processes

variable (c : Cost)

def Context.tally : Context -> Nat
  | .bind _ _ body | .bindBox _ _ body => body.tally c
  | .nest _ => c.step
  | .argument _ | .label _ | .stray _ => 0

def Frame.tally (frame : Frame) : Nat :=
  match frame.context with
  | .ok context => context.tally c
  | .error _ => 0

def Stack.tally : Stack -> Nat
  | [] => 0
  | frame :: rest => frame.tally c + tally rest

def Running.tally (r : Running) : Nat := r.control.tally c + r.stack.tally c

/-- The cost of what a step leaves to be done.  A process that is put to sleep has its link ahead
of it. -/
def Attempt.tally (a : Attempt) : Nat :=
  match a.outcome with
  | .moved => a.running.tally c
  | .signal (.spawn _ _ body) => a.running.tally c + body.tally c
  | .signal (.awaitEntry _) | .signal (.awaitHalt _) => 3 * c.step + a.running.stack.tally c
  | .signal (.halt _) | .failed _ => 0

end Processes

section Steps

variable {c : Cost} {store : Store} {r r' : Running} {a : Attempt} {v : Value}
  {frame : Frame} {rest : Stack} {context : Context}

theorem Stack.tally_cons (hcontext : frame.context = .ok context) :
    Stack.tally c (frame :: rest) = context.tally c + Stack.tally c rest := by
  rw [Stack.tally, Frame.tally, hcontext]

theorem Running.Hands.step_le_tally (h : r.Hands v r') (c : Cost) :
    c.step ≤ r.control.tally c := by
  cases h with
  | first hcontrol hu =>
      rw [hcontrol, Computation.tally]
      exact Nat.le_add_right _ _
  | again hcontrol =>
      have hcost : r.control.tally c = c.step := by rw [hcontrol, Computation.tally]
      exact Nat.le_of_eq hcost.symm

theorem Running.Hands.tally_resume_le (hv : r.Hands v r') (hstack : r.stack = frame :: rest)
    (hcontext : frame.context = .ok context) {body : Computation}
    (hbody : context.tally c = body.tally c) (env : Environment) :
    (Running.resume { r' with stack := rest } frame env body).tally c + c.step ≤ r.tally c := by
  have hpaid := hv.step_le_tally c
  show body.tally c + Stack.tally c rest + c.step ≤ r.control.tally c + r.stack.tally c
  rw [hstack, Stack.tally_cons hcontext, hbody]
  omega

/-- A step that extracts nothing costs at least the rate of a step. -/
theorem Reduction.tally_le (h : Reduction store r a) (hextract : ∀ v, r.control ≠ .extract v) :
    a.tally c + c.step ≤ r.tally c := by
  cases h with
  | halt hv hstack =>
      have hpaid := hv.step_le_tally c
      show 0 + c.step ≤ r.control.tally c + r.stack.tally c
      omega
  | @leave v r' frame rest s hv hstack hcontext =>
      have hpaid := hv.step_le_tally c
      show r'.control.tally c + Stack.tally c rest + c.step ≤ r.control.tally c + r.stack.tally c
      rw [hstack, Stack.tally_cons hcontext, hv.control_eq, Computation.tally, Context.tally]
      omega
  | bound hv hstack hcontext hp => exact hv.tally_resume_le hstack hcontext rfl _
  | boundBox hv hstack hcontext hx => exact hv.tally_resume_le hstack hcontext rfl _
  | droppedBox hv hstack hcontext => exact hv.tally_resume_le hstack hcontext rfl _
  | @nest v body s hcontrol hv =>
      show body.tally c + (c.step + r.stack.tally c) + c.step ≤ r.control.tally c + r.stack.tally c
      rw [hcontrol, Computation.tally]
      omega
  | @spawn v body s hcontrol hv hfree =>
      show c.step + r.stack.tally c + body.tally c + c.step ≤ r.control.tally c + r.stack.tally c
      rw [hcontrol, Computation.tally]
      omega
  | @bind p e₁ e₂ hcontrol =>
      show e₁.tally c + (e₂.tally c + r.stack.tally c) + c.step ≤ _
      rw [Running.tally, hcontrol, Computation.tally]
      omega
  | @bindBox p e₁ e₂ hcontrol hp =>
      show e₁.tally c + (e₂.tally c + r.stack.tally c) + c.step ≤ _
      rw [Running.tally, hcontrol, Computation.tally]
      omega
  | extract hcontrol => exact absurd hcontrol (hextract _)
  | @enter p body frame rest v env hcontrol hstack hcontext hp =>
      show body.tally c + Stack.tally c rest + c.step ≤ r.control.tally c + r.stack.tally c
      rw [hstack, Stack.tally_cons hcontext, hcontrol, Computation.tally]
      omega
  | @choose bs frame rest v s part body hcontrol hstack hcontext hv hpart hbody =>
      have hpart : part.tally c ≤ bs.tally c := Branches.tally_select_le hpart
      have hbody : body.tally c ≤ part.tally c := Part.tally_body_le hbody
      show body.tally c + Stack.tally c rest + c.step ≤ r.control.tally c + r.stack.tally c
      rw [hstack, Stack.tally_cons hcontext, hcontrol, Computation.tally]
      omega
  | @apply e v w hcontrol hv =>
      show e.tally c + (0 + r.stack.tally c) + c.step ≤ r.control.tally c + r.stack.tally c
      rw [hcontrol, Computation.tally]
      omega
  | @project e v w hcontrol hv =>
      show e.tally c + (0 + r.stack.tally c) + c.step ≤ r.control.tally c + r.stack.tally c
      rw [hcontrol, Computation.tally]
      omega
  | put hcontrol | get hcontrol | link hcontrol =>
      show c.step + r.stack.tally c + c.step ≤ r.control.tally c + r.stack.tally c
      rw [hcontrol, Computation.tally]
      omega
  | @switch v l payload cs s part env body hcontrol hv hl hpart hbind hbody =>
      have hpart : part.tally c ≤ cs.tally c := Cases.tally_select_le hpart
      have hbody : body.tally c ≤ part.tally c := Part.tally_body_le hbody
      show body.tally c + r.stack.tally c + c.step ≤ r.control.tally c + r.stack.tally c
      rw [hcontrol, Computation.tally]
      omega
  | awaitEntry hcontrol | awaitHalt hcontrol =>
      show 3 * c.step + r.stack.tally c + c.step ≤ r.control.tally c + r.stack.tally c
      rw [hcontrol, Computation.tally]
      omega
  | assert hcontrol =>
      show c.step + (r.recordReturn .unit).stack.tally c + c.step ≤ _
      rw [r.recordReturn_stack, Running.tally, hcontrol, Computation.tally]
      omega

end Steps

end PushValue
