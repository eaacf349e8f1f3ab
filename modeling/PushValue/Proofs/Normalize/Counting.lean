import PushValue.Proofs.Normalize.Hoisting

/-!
# How many names are drawn

One name is drawn for each operand of a term, those inside operands and in the code of boxes
included.  A well-sorted term without return markers is hoisted with any list of that many names.
-/

namespace PushValue

mutual

/-- The number of operands in a value.  Patterns and captured boxes are not searched. -/
def Value.operandCount : Value -> Nat
  | .number _ | .symbol _ | .pointer _ | .process _ | .variable _ | .stray _ => 0
  | .variant l p => l.operandCount + p.operandCount
  | .record fs => fs.operandCount
  | .extend b l v => b.operandCount + (l.operandCount + v.operandCount)
  | .extendBy b p => b.operandCount + p.operandCount
  | .box b => b.operandCount
  | .operand e => e.operandCount + 1

def Fields.operandCount : Fields -> Nat
  | .nil => 0
  | .cons l v rest => l.operandCount + (v.operandCount + rest.operandCount)
  | .foreign p rest => p.operandCount + rest.operandCount

def Box.operandCount : Box -> Nat
  | .mk code _ _ => code.operandCount
  | .stray _ => 0

def Computation.operandCount : Computation -> Nat
  | .hole | .stray _ => 0
  | .ret v | .returned v | .extract v | .get v | .link v => v.operandCount
  | .put a b | .assert a _ b => a.operandCount + b.operandCount
  | .nest v e | .spawn v e | .apply e v | .project e v => v.operandCount + e.operandCount
  | .lambda _ e => e.operandCount
  | .bind _ e₁ e₂ | .bindBox _ e₁ e₂ => e₁.operandCount + e₂.operandCount
  | .switch v cs => v.operandCount + cs.operandCount
  | .branches bs => bs.operandCount

def Cases.operandCount : Cases -> Nat
  | .nil => 0
  | .cons l _ e rest => l.operandCount + (e.operandCount + rest.operandCount)
  | .foreign p rest => p.operandCount + rest.operandCount

def Branches.operandCount : Branches -> Nat
  | .nil => 0
  | .cons l e rest => l.operandCount + (e.operandCount + rest.operandCount)
  | .foreign p rest => p.operandCount + rest.operandCount

def Part.operandCount : Part -> Nat
  | .field l v => l.operandCount + v.operandCount
  | .case l _ e | .branch l e => l.operandCount + e.operandCount
  | .fieldPattern l _ | .labelled l _ => l.operandCount
  | .stray _ => 0

end

def Screen.written : Screen := { sorted with returned := false }

theorem Screen.written_within_unmixed : written.Within unmixed where
  symbol _ _ := rfl
  pointer _ _ := rfl
  process _ _ := rfl
  operand _ := rfl
  spawn _ := rfl
  returned _ := rfl
  hole _ := rfl
  foreign h := h
  stray _ _ := rfl

theorem Screen.source_within_written : source.Within written where
  symbol _ h := h
  pointer _ h := h
  process _ h := h
  operand h := h
  spawn h := h
  returned h := h
  hole _ := rfl
  foreign h := h
  stray _ h := h

/-- Any list of the given length is one of the names with which something is hoisted. -/
def Hoist.Serves (n : Nat) (holds : List String -> Prop) : Prop :=
  ∀ names, names.length = n -> holds names

namespace Hoist.Serves

variable {m n k : Nat} {P Q R T : List String -> Prop}

theorem none (h : P []) : Serves 0 P := by
  intro names hlength
  rw [List.length_eq_zero_iff.mp hlength]
  exact h

theorem imp (hP : Serves n P) (h : ∀ ns, P ns -> Q ns) : Serves n Q :=
  fun names hlength => h names (hP names hlength)

theorem pair (hP : Serves m P) (hQ : Serves n Q) (h : ∀ ns ms, P ns -> Q ms -> R (ns ++ ms)) :
    Serves (m + n) R := by
  intro names hlength
  rw [← List.take_append_drop m names]
  apply h
  · apply hP
    rw [List.length_take, hlength]
    omega
  · apply hQ
    rw [List.length_drop, hlength]
    omega

theorem triple (hP : Serves m P) (hQ : Serves n Q) (hR : Serves k R)
    (h : ∀ ns ms ks, P ns -> Q ms -> R ks -> T (ns ++ (ms ++ ks))) : Serves (m + (n + k)) T := by
  have hrest : Serves (n + k) fun names => ∃ ms ks, names = ms ++ ks ∧ Q ms ∧ R ks :=
    hQ.pair hR fun ms ks hms hks => ⟨ms, ks, rfl, hms, hks⟩
  refine hP.pair hrest ?_
  rintro ns _ hns ⟨ms, ks, rfl, hms, hks⟩
  exact h ns ms ks hns hms hks

theorem one : Serves 1 fun names => ∃ x, names = [x] :=
  fun _ hlength => List.length_eq_one_iff.mp hlength

end Hoist.Serves

section Existence

open Hoist

variable {mixed : Prop}

mutual

/-- A well-sorted value without return markers is hoisted with any list of as many names as it
has operands. -/
theorem Value.exists_hoists : (v : Value) -> v.passes .written ->
    Serves v.operandCount fun ns => ∃ v' bs, v.Hoists mixed ns v' bs
  | .number n, _ => .none ⟨_, _, .number n⟩
  | .symbol s, _ => .none ⟨_, _, .symbol s⟩
  | .pointer s, _ => .none ⟨_, _, .pointer s⟩
  | .process s, _ => .none ⟨_, _, .process s⟩
  | .variable x, _ => .none ⟨_, _, .variable x⟩
  | .variant l p, h => by
      have h := Bool.and_eq_true_iff.mp h
      refine (l.exists_hoists h.1).pair (p.exists_hoists h.2) ?_
      rintro ns ms ⟨l', bs, hl⟩ ⟨p', cs, hp⟩
      exact ⟨_, _, .variant hl hp⟩
  | .record fs, h => by
      refine (fs.exists_hoists h).imp ?_
      rintro ns ⟨fs', bs, hfs⟩
      exact ⟨_, _, .record hfs⟩
  | .extend b l v, h => by
      simp only [Value.passes, Bool.and_eq_true] at h
      refine (b.exists_hoists h.1.1).triple (l.exists_hoists h.1.2) (v.exists_hoists h.2) ?_
      rintro ns ms ks ⟨b', bs, hb⟩ ⟨l', cs, hl⟩ ⟨v', ds, hv⟩
      exact ⟨_, _, .extend hb hl hv⟩
  | .box b, h => by
      refine (b.exists_hoists h).imp ?_
      rintro ns ⟨b', hb⟩
      exact ⟨_, _, .box hb⟩
  | .operand e, h => by
      refine (e.exists_hoists (Bool.and_eq_true_iff.mp h).2).pair .one ?_
      rintro ns _ ⟨e', bs, he⟩ ⟨x, rfl⟩
      exact ⟨_, _, .operand x he⟩

theorem Fields.exists_hoists : (fs : Fields) -> fs.passes .written ->
    Serves fs.operandCount fun ns => ∃ fs' bs, fs.Hoists mixed ns fs' bs
  | .nil, _ => .none ⟨_, _, .nil⟩
  | .cons l v rest, h => by
      simp only [Fields.passes, Bool.and_eq_true] at h
      refine (l.exists_hoists h.1.1).triple (v.exists_hoists h.1.2) (rest.exists_hoists h.2) ?_
      rintro ns ms ks ⟨l', bs, hl⟩ ⟨v', cs, hv⟩ ⟨rest', ds, hrest⟩
      exact ⟨_, _, .cons hl hv hrest⟩

theorem Box.exists_hoists : (b : Box) -> b.passes .written ->
    Serves b.operandCount fun ns => ∃ b', b.Hoists mixed ns b'
  | .mk code self captured, h => by
      refine (code.exists_hoists (Bool.and_eq_true_iff.mp h).1).imp ?_
      rintro ns ⟨code', bs, hcode⟩
      exact ⟨_, .mk self captured hcode⟩

theorem Computation.exists_hoists : (e : Computation) -> e.passes .written ->
    Serves e.operandCount fun ns => ∃ e' bs, e.Hoists mixed ns e' bs
  | .hole, _ => .none ⟨_, _, .hole⟩
  | .ret v, h => by
      refine (v.exists_hoists h).imp ?_
      rintro ns ⟨v', bs, hv⟩
      exact ⟨_, _, .ret hv⟩
  | .extract v, h => by
      refine (v.exists_hoists h).imp ?_
      rintro ns ⟨v', bs, hv⟩
      exact ⟨_, _, .extract hv⟩
  | .get v, h => by
      refine (v.exists_hoists h).imp ?_
      rintro ns ⟨v', bs, hv⟩
      exact ⟨_, _, .get hv⟩
  | .link v, h => by
      refine (v.exists_hoists h).imp ?_
      rintro ns ⟨v', bs, hv⟩
      exact ⟨_, _, .link hv⟩
  | .put a b, h => by
      have h := Bool.and_eq_true_iff.mp h
      refine (a.exists_hoists h.1).pair (b.exists_hoists h.2) ?_
      rintro ns ms ⟨a', bs, ha⟩ ⟨b', cs, hb⟩
      exact ⟨_, _, .put ha hb⟩
  | .assert a equal b, h => by
      have h := Bool.and_eq_true_iff.mp h
      refine (a.exists_hoists h.1).pair (b.exists_hoists h.2) ?_
      rintro ns ms ⟨a', bs, ha⟩ ⟨b', cs, hb⟩
      exact ⟨_, _, .assert equal ha hb⟩
  | .nest v e, h => by
      have h := Bool.and_eq_true_iff.mp h
      refine (v.exists_hoists h.1).pair (e.exists_hoists h.2) ?_
      rintro ns ms ⟨v', bs, hv⟩ ⟨e', cs, he⟩
      exact ⟨_, _, .nest hv he⟩
  | .spawn v e, h => by
      have h := Bool.and_eq_true_iff.mp h
      refine (v.exists_hoists h.1).pair (e.exists_hoists h.2) ?_
      rintro ns ms ⟨v', bs, hv⟩ ⟨e', cs, he⟩
      exact ⟨_, _, .spawn hv he⟩
  | .apply e v, h => by
      have h := Bool.and_eq_true_iff.mp h
      refine (v.exists_hoists h.2).pair (e.exists_hoists h.1) ?_
      rintro ns ms ⟨v', bs, hv⟩ ⟨e', cs, he⟩
      exact ⟨_, _, .apply hv he⟩
  | .project e v, h => by
      have h := Bool.and_eq_true_iff.mp h
      refine (v.exists_hoists h.2).pair (e.exists_hoists h.1) ?_
      rintro ns ms ⟨v', bs, hv⟩ ⟨e', cs, he⟩
      exact ⟨_, _, .project hv he⟩
  | .lambda p e, h => by
      refine (e.exists_hoists (Bool.and_eq_true_iff.mp h).2).imp ?_
      rintro ns ⟨e', bs, he⟩
      exact ⟨_, _, .lambda p he⟩
  | .bind p e₁ e₂, h => by
      simp only [Computation.passes, Bool.and_eq_true] at h
      refine (e₁.exists_hoists h.1.2).pair (e₂.exists_hoists h.2) ?_
      rintro ns ms ⟨e₁', bs, he₁⟩ ⟨e₂', cs, he₂⟩
      exact ⟨_, _, .bind p he₁ he₂⟩
  | .bindBox p e₁ e₂, h => by
      simp only [Computation.passes, Bool.and_eq_true] at h
      refine (e₁.exists_hoists h.1.2).pair (e₂.exists_hoists h.2) ?_
      rintro ns ms ⟨e₁', bs, he₁⟩ ⟨e₂', cs, he₂⟩
      exact ⟨_, _, .bindBox p he₁ he₂⟩
  | .switch v cases, h => by
      have h := Bool.and_eq_true_iff.mp h
      refine (v.exists_hoists h.1).pair (cases.exists_hoists h.2) ?_
      rintro ns ms ⟨v', bs, hv⟩ ⟨cases', cs, hcases⟩
      exact ⟨_, _, .switch hv hcases⟩
  | .branches bs, h => by
      refine (bs.exists_hoists h).imp ?_
      rintro ns ⟨bs', cs, hbs⟩
      exact ⟨_, _, .branches hbs⟩

theorem Cases.exists_hoists : (cs : Cases) -> cs.passes .written ->
    Serves cs.operandCount fun ns => ∃ cs' bs, cs.Hoists mixed ns cs' bs
  | .nil, _ => .none ⟨_, _, .nil⟩
  | .cons l p e rest, h => by
      simp only [Cases.passes, Bool.and_eq_true] at h
      refine (l.exists_hoists h.1.1.1).triple (e.exists_hoists h.1.2) (rest.exists_hoists h.2) ?_
      rintro ns ms ks ⟨l', bs, hl⟩ ⟨e', cs, he⟩ ⟨rest', ds, hrest⟩
      exact ⟨_, _, .cons p hl he hrest⟩

theorem Branches.exists_hoists : (bs : Branches) -> bs.passes .written ->
    Serves bs.operandCount fun ns => ∃ bs' cs, bs.Hoists mixed ns bs' cs
  | .nil, _ => .none ⟨_, _, .nil⟩
  | .cons l e rest, h => by
      simp only [Branches.passes, Bool.and_eq_true] at h
      refine (l.exists_hoists h.1.1).triple (e.exists_hoists h.1.2) (rest.exists_hoists h.2) ?_
      rintro ns ms ks ⟨l', bs, hl⟩ ⟨e', cs, he⟩ ⟨rest', ds, hrest⟩
      exact ⟨_, _, .cons hl he hrest⟩

end

end Existence

end PushValue
