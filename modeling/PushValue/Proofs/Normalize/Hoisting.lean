import PushValue.Normalize.Hoist
import PushValue.Proofs.Screen.Basic

/-!
# What hoisting does

A term that can be hoisted gives rise to a term without operands and to bindings, and a
list of names is drawn from the supply on the way.  The relations below tell how these
hang together, one rule for each form of term and without the supply.  All that is proved about
normalization is read off the rules.

A part that stands among branches without being one may still become a branch, which
happens under the rules for mixed terms only.
-/

namespace PushValue

/-!
## Names that are drawn
-/

namespace NameSupply

/-- A supply gives the names of a list, in order, and goes on as another supply. -/
def Gives (supply : NameSupply) (names : List String) (rest : NameSupply) : Prop :=
  supply.take names.length = (names, rest)

variable {supply rest later : NameSupply}

theorem gives_nil (supply : NameSupply) : supply.Gives [] supply := rfl

theorem gives_of_next? {x : String} (h : supply.next? = some (x, rest)) :
    supply.Gives [x] rest := by
  simp only [Gives, List.length_singleton, take, h]

theorem gives_cons_iff {x : String} {ns : List String} :
    supply.Gives (x :: ns) later ↔ ∃ rest, supply.next? = some (x, rest) ∧ rest.Gives ns later := by
  unfold Gives
  rw [List.length_cons, take]
  cases hnext : supply.next? with
  | none =>
      constructor
      · intro h
        cases h
      · rintro ⟨rest, h, _⟩
        cases h
  | some drawn =>
      rcases drawn with ⟨y, rest⟩
      constructor
      · intro h
        simp only [Prod.mk.injEq, List.cons.injEq] at h
        rw [h.1.1]
        exact ⟨rest, rfl, Prod.ext h.1.2 h.2⟩
      · rintro ⟨rest, h, hrest⟩
        cases h
        simp only [hrest]

theorem gives_append_iff {ns ms : List String} :
    supply.Gives (ns ++ ms) later ↔ ∃ rest, supply.Gives ns rest ∧ rest.Gives ms later := by
  induction ns generalizing supply with
  | nil =>
      constructor
      · intro h
        exact ⟨supply, supply.gives_nil, h⟩
      · rintro ⟨rest, h, hrest⟩
        cases h
        exact hrest
  | cons x ns ih =>
      simp only [List.cons_append, gives_cons_iff, ih]
      constructor
      · rintro ⟨after, hnext, rest, hns, hms⟩
        exact ⟨rest, ⟨after, hnext, hns⟩, hms⟩
      · rintro ⟨rest, ⟨after, hnext, hns⟩, hms⟩
        exact ⟨after, hnext, rest, hns, hms⟩

theorem Gives.append {ns ms : List String} (hns : supply.Gives ns rest)
    (hms : rest.Gives ms later) : supply.Gives (ns ++ ms) later :=
  gives_append_iff.mpr ⟨rest, hns, hms⟩

theorem take_listed (names : List String) (n : Nat) :
    (listed names).take n = (names.take n, listed (names.drop n)) := by
  induction n generalizing names with
  | zero => rfl
  | succ n ih =>
      cases names with
      | nil => rfl
      | cons x rest => simp only [take, next?, ih, List.take_succ_cons, List.drop_succ_cons]

theorem eq_append_of_gives_listed {listing names rest : List String}
    (h : (listed listing).Gives names (listed rest)) : listing = names ++ rest := by
  rw [Gives, take_listed, Prod.mk.injEq, listed.injEq] at h
  calc
    listing = listing.take names.length ++ listing.drop names.length :=
      (List.take_append_drop _ _).symm
    _ = names ++ rest := by rw [h.1, h.2]

theorem gives_listed (names rest : List String) :
    (listed (names ++ rest)).Gives names (listed rest) := by
  rw [Gives, take_listed, List.take_left, List.drop_left]

theorem gives_listed_take (names : List String) (n : Nat) :
    (listed names).Gives (names.take n) (listed (names.drop n)) := by
  have h := gives_listed (names.take n) (names.drop n)
  rw [List.take_append_drop] at h
  exact h

theorem gives_listed_self (names : List String) : (listed names).Gives names (listed []) := by
  have h := gives_listed names []
  rw [List.append_nil] at h
  exact h

end NameSupply

/-!
## Rules
-/

theorem Hoist.perm_regroup {α : Type} (as bs cs ds : List α) :
    (as ++ cs ++ (bs ++ ds)).Perm (as ++ bs ++ (cs ++ ds)) := by
  simp only [List.append_assoc]
  apply List.Perm.append_left
  simp only [← List.append_assoc]
  exact List.perm_append_comm.append_right _

@[simp]
theorem Computation.close_nil (e : Computation) : e.close [] = e := rfl

theorem Computation.close_cons (b : Binding) (bs : List Binding) (e : Computation) :
    e.close (b :: bs) = (Computation.bind (.variable b.name) b.bound e).close bs := rfl

/-- If a computation that binds a variable has what its two parts have, then a closed computation has
what it had when it was open and what its bindings have. -/
theorem Computation.perm_close {α : Type} (f : Computation -> List α)
    (hbind : ∀ x e₁ e₂, f (.bind (.variable x) e₁ e₂) = f e₁ ++ f e₂) (e : Computation)
    (bs : List Binding) : (f (e.close bs)).Perm (f e ++ bs.flatMap fun b => f b.bound) := by
  induction bs generalizing e with
  | nil => exact List.Perm.of_eq (List.append_nil _).symm
  | cons b rest ih =>
      have hrest := ih (.bind (.variable b.name) b.bound e)
      rw [hbind] at hrest
      rw [close_cons, List.flatMap_cons, ← List.append_assoc]
      exact hrest.trans (List.perm_append_comm.append_right _)

mutual

/-- Hoisting a value draws names and leaves a value and bindings. -/
inductive Value.Hoists (mixed : Prop) : Value -> List String -> Value -> List Binding -> Prop where
  | number (n : Int) : Value.Hoists mixed (.number n) [] (.number n) []
  | symbol (s : Symbol) : Value.Hoists mixed (.symbol s) [] (.symbol s) []
  | pointer (s : Symbol) : Value.Hoists mixed (.pointer s) [] (.pointer s) []
  | process (s : Symbol) : Value.Hoists mixed (.process s) [] (.process s) []
  | «variable» (x : String) : Value.Hoists mixed (.variable x) [] (.variable x) []
  | variant {l l' p p' : Value} {ns ms : List String} {bs cs : List Binding}
      (hl : Value.Hoists mixed l ns l' bs) (hp : Value.Hoists mixed p ms p' cs) :
      Value.Hoists mixed (.variant l p) (ns ++ ms) (.variant l' p') (bs ++ cs)
  | record {fs fs' : Fields} {ns : List String} {bs : List Binding}
      (hfs : Fields.Hoists mixed fs ns fs' bs) :
      Value.Hoists mixed (.record fs) ns (.record fs') bs
  | extend {b b' l l' v v' : Value} {ns ms ks : List String} {bs cs ds : List Binding}
      (hb : Value.Hoists mixed b ns b' bs) (hl : Value.Hoists mixed l ms l' cs)
      (hv : Value.Hoists mixed v ks v' ds) :
      Value.Hoists mixed (.extend b l v) (ns ++ (ms ++ ks)) (.extend b' l' v') (bs ++ cs ++ ds)
  | box {b b' : Box} {ns : List String} (hb : Box.Hoists mixed b ns b') :
      Value.Hoists mixed (.box b) ns (.box b') []
  /-- An operand leaves a variable behind and becomes a binding. -/
  | operand {e e' : Computation} {ns : List String} {bs : List Binding} (x : String)
      (he : Computation.Hoists mixed e ns e' bs) :
      Value.Hoists mixed (.operand e) (ns ++ [x]) (.variable x) [⟨x, e'.close bs⟩]

inductive Fields.Hoists (mixed : Prop) :
    Fields -> List String -> Fields -> List Binding -> Prop where
  | nil : Fields.Hoists mixed .nil [] .nil []
  | cons {l l' v v' : Value} {rest rest' : Fields} {ns ms ks : List String}
      {bs cs ds : List Binding} (hl : Value.Hoists mixed l ns l' bs)
      (hv : Value.Hoists mixed v ms v' cs) (hrest : Fields.Hoists mixed rest ks rest' ds) :
      Fields.Hoists mixed (.cons l v rest) (ns ++ (ms ++ ks)) (.cons l' v' rest') (bs ++ cs ++ ds)

inductive Box.Hoists (mixed : Prop) : Box -> List String -> Box -> Prop where
  | mk {code code' : Computation} {ns : List String} {bs : List Binding} (self : Option String)
      (captured : Boxes) (hcode : Computation.Hoists mixed code ns code' bs) :
      Box.Hoists mixed (.mk code self captured) ns (.mk (code'.close bs) self captured)

inductive Computation.Hoists (mixed : Prop) :
    Computation -> List String -> Computation -> List Binding -> Prop where
  | hole : Computation.Hoists mixed .hole [] .hole []
  | ret {v v' : Value} {ns : List String} {bs : List Binding}
      (hv : Value.Hoists mixed v ns v' bs) : Computation.Hoists mixed (.ret v) ns (.ret v') bs
  | extract {v v' : Value} {ns : List String} {bs : List Binding}
      (hv : Value.Hoists mixed v ns v' bs) :
      Computation.Hoists mixed (.extract v) ns (.extract v') bs
  | get {v v' : Value} {ns : List String} {bs : List Binding}
      (hv : Value.Hoists mixed v ns v' bs) : Computation.Hoists mixed (.get v) ns (.get v') bs
  | link {v v' : Value} {ns : List String} {bs : List Binding}
      (hv : Value.Hoists mixed v ns v' bs) : Computation.Hoists mixed (.link v) ns (.link v') bs
  | put {a a' b b' : Value} {ns ms : List String} {bs cs : List Binding}
      (ha : Value.Hoists mixed a ns a' bs) (hb : Value.Hoists mixed b ms b' cs) :
      Computation.Hoists mixed (.put a b) (ns ++ ms) (.put a' b') (bs ++ cs)
  | assert {a a' b b' : Value} {ns ms : List String} {bs cs : List Binding} (equal : Bool)
      (ha : Value.Hoists mixed a ns a' bs) (hb : Value.Hoists mixed b ms b' cs) :
      Computation.Hoists mixed (.assert a equal b) (ns ++ ms) (.assert a' equal b') (bs ++ cs)
  | nest {v v' : Value} {e e' : Computation} {ns ms : List String} {bs cs : List Binding}
      (hv : Value.Hoists mixed v ns v' bs) (he : Computation.Hoists mixed e ms e' cs) :
      Computation.Hoists mixed (.nest v e) (ns ++ ms) (.nest v' (e'.close cs)) bs
  | spawn {v v' : Value} {e e' : Computation} {ns ms : List String} {bs cs : List Binding}
      (hv : Value.Hoists mixed v ns v' bs) (he : Computation.Hoists mixed e ms e' cs) :
      Computation.Hoists mixed (.spawn v e) (ns ++ ms) (.spawn v' (e'.close cs)) bs
  | apply {v v' : Value} {e e' : Computation} {ns ms : List String} {bs cs : List Binding}
      (hv : Value.Hoists mixed v ns v' bs) (he : Computation.Hoists mixed e ms e' cs) :
      Computation.Hoists mixed (.apply e v) (ns ++ ms) (.apply e' v') (bs ++ cs)
  | project {v v' : Value} {e e' : Computation} {ns ms : List String} {bs cs : List Binding}
      (hv : Value.Hoists mixed v ns v' bs) (he : Computation.Hoists mixed e ms e' cs) :
      Computation.Hoists mixed (.project e v) (ns ++ ms) (.project e' v') (bs ++ cs)
  | lambda {e e' : Computation} {ns : List String} {bs : List Binding} (p : Pattern)
      (he : Computation.Hoists mixed e ns e' bs) :
      Computation.Hoists mixed (.lambda p e) ns (.lambda p (e'.close bs)) []
  | bind {e₁ e₁' e₂ e₂' : Computation} {ns ms : List String} {bs cs : List Binding} (p : Pattern)
      (he₁ : Computation.Hoists mixed e₁ ns e₁' bs)
      (he₂ : Computation.Hoists mixed e₂ ms e₂' cs) :
      Computation.Hoists mixed (.bind p e₁ e₂) (ns ++ ms)
        (.bind p (e₁'.close bs) (e₂'.close cs)) []
  | bindBox {e₁ e₁' e₂ e₂' : Computation} {ns ms : List String} {bs cs : List Binding}
      (p : Pattern) (he₁ : Computation.Hoists mixed e₁ ns e₁' bs)
      (he₂ : Computation.Hoists mixed e₂ ms e₂' cs) :
      Computation.Hoists mixed (.bindBox p e₁ e₂) (ns ++ ms)
        (.bindBox p (e₁'.close bs) (e₂'.close cs)) []
  | switch {v v' : Value} {cases cases' : Cases} {ns ms : List String} {bs cs : List Binding}
      (hv : Value.Hoists mixed v ns v' bs) (hcases : Cases.Hoists mixed cases ms cases' cs) :
      Computation.Hoists mixed (.switch v cases) (ns ++ ms) (.switch v' cases') (bs ++ cs)
  | branches {bs bs' : Branches} {ns : List String} {cs : List Binding}
      (hbs : Branches.Hoists mixed bs ns bs' cs) :
      Computation.Hoists mixed (.branches bs) ns (.branches bs') cs

inductive Cases.Hoists (mixed : Prop) :
    Cases -> List String -> Cases -> List Binding -> Prop where
  | nil : Cases.Hoists mixed .nil [] .nil []
  | cons {l l' : Value} {e e' : Computation} {rest rest' : Cases} {ns ms ks : List String}
      {bs cs ds : List Binding} (p : Pattern) (hl : Value.Hoists mixed l ns l' bs)
      (he : Computation.Hoists mixed e ms e' cs) (hrest : Cases.Hoists mixed rest ks rest' ds) :
      Cases.Hoists mixed (.cons l p e rest) (ns ++ (ms ++ ks)) (.cons l' p (e'.close cs) rest')
        (bs ++ ds)

inductive Branches.Hoists (mixed : Prop) :
    Branches -> List String -> Branches -> List Binding -> Prop where
  | nil : Branches.Hoists mixed .nil [] .nil []
  | cons {l l' : Value} {e e' : Computation} {rest rest' : Branches} {ns ms ks : List String}
      {bs cs ds : List Binding} (hl : Value.Hoists mixed l ns l' bs)
      (he : Computation.Hoists mixed e ms e' cs) (hrest : Branches.Hoists mixed rest ks rest' ds) :
      Branches.Hoists mixed (.cons l e rest) (ns ++ (ms ++ ks)) (.cons l' (e'.close cs) rest')
        (bs ++ ds)
  | foreign {p : Part} {l : Value} {e : Computation} {rest rest' : Branches}
      {ns ms : List String} {bs cs : List Binding} (hmixed : mixed)
      (hp : Part.Hoists mixed p ns l e bs) (hrest : Branches.Hoists mixed rest ms rest' cs) :
      Branches.Hoists mixed (.foreign p rest) (ns ++ ms) (.cons l e rest') (bs ++ cs)

/-- A part that stands among branches has to have a label and a body. -/
inductive Part.Hoists (mixed : Prop) :
    Part -> List String -> Value -> Computation -> List Binding -> Prop where
  | case {l l' : Value} {e e' : Computation} {ns ms : List String} {bs cs : List Binding}
      (p : Pattern) (hl : Value.Hoists mixed l ns l' bs)
      (he : Computation.Hoists mixed e ms e' cs) :
      Part.Hoists mixed (.case l p e) (ns ++ ms) l' (e'.close cs) bs
  | branch {l l' : Value} {e e' : Computation} {ns ms : List String} {bs cs : List Binding}
      (hl : Value.Hoists mixed l ns l' bs) (he : Computation.Hoists mixed e ms e' cs) :
      Part.Hoists mixed (.branch l e) (ns ++ ms) l' (e'.close cs) bs

end

/-!
## Hoisting follows the rules
-/

def Hoist.Refuses {α : Type} (m : Hoist α) : Prop := ∀ supply, ∃ err, m supply = .error err

namespace Hoist.Refuses

variable {α β : Type}

theorem throw {err : NormalizeError} : Refuses (MonadExcept.throw err : Hoist α) := by
  intro supply
  exact ⟨err, rfl⟩

theorem bind {m : Hoist α} {f : α -> Hoist β} (hf : ∀ a, Refuses (f a)) : Refuses (m >>= f) := by
  intro supply
  show ∃ err, (m supply >>= fun out => f out.1 out.2) = .error err
  cases m supply with
  | error err => exact ⟨err, rfl⟩
  | ok out => exact hf out.1 out.2

end Hoist.Refuses

/-- A step of normalization that, if it succeeds, draws names with which its result has a
property. -/
def Hoist.Draws {α : Type} (m : Hoist α) (holds : List String -> α -> Prop) : Prop :=
  ∀ supply a rest, m supply = .ok (a, rest) -> ∃ names, supply.Gives names rest ∧ holds names a

namespace Hoist.Draws

variable {α β : Type} {m : Hoist α} {f : α -> Hoist β} {before : List String -> α -> Prop}
  {after : List String -> β -> Prop}

theorem pure {a : α} (h : before [] a) : Draws (Pure.pure a : Hoist α) before := by
  intro supply b rest heq
  cases heq
  exact ⟨[], supply.gives_nil, h⟩

theorem of_refuses (h : m.Refuses) : Draws m before := by
  intro supply a rest heq
  rcases h supply with ⟨err, herror⟩
  rw [herror] at heq
  cases heq

theorem fresh : Draws Hoist.fresh fun names x => names = [x] := by
  intro supply x rest heq
  unfold Hoist.fresh at heq
  cases hnext : supply.next? with
  | none =>
      rw [hnext] at heq
      cases heq
  | some drawn =>
      rw [hnext] at heq
      cases heq
      exact ⟨[x], NameSupply.gives_of_next? hnext, rfl⟩

theorem bind (hm : Draws m before)
    (hf : ∀ ns a, before ns a -> Draws (f a) fun ms b => after (ns ++ ms) b) :
    Draws (m >>= f) after := by
  intro supply b later heq
  change (m supply >>= fun out => f out.1 out.2) = .ok (b, later) at heq
  cases hrun : m supply with
  | error err =>
      rw [hrun] at heq
      cases heq
  | ok out =>
      rw [hrun] at heq
      rcases hm supply out.1 out.2 hrun with ⟨ns, hns, ha⟩
      rcases hf ns out.1 ha out.2 b later heq with ⟨ms, hms, hb⟩
      exact ⟨ns ++ ms, hns.append hms, hb⟩

theorem last (hm : Draws m before)
    (hf : ∀ ns a, before ns a -> ∃ b, f a = Pure.pure b ∧ after ns b) : Draws (m >>= f) after := by
  apply bind hm
  intro ns a ha
  rcases hf ns a ha with ⟨b, hfa, hb⟩
  rw [hfa]
  apply pure
  rw [List.append_nil]
  exact hb

end Hoist.Draws

def Screen.unmixed : Screen where
  symbol _ := true
  pointer _ := true
  process _ := true
  stray _ := true

section Rules

open Hoist

variable {mixed : Prop}

theorem mixed_or_left {a b : Bool} (h : mixed ∨ (a && b) = true) : mixed ∨ a = true :=
  h.imp_right fun h => (Bool.and_eq_true_iff.mp h).1

theorem mixed_or_right {a b : Bool} (h : mixed ∨ (a && b) = true) : mixed ∨ b = true :=
  h.imp_right fun h => (Bool.and_eq_true_iff.mp h).2

mutual

theorem Value.hoist_draws : (v : Value) -> mixed ∨ v.passes .unmixed ->
    Draws v.hoist fun ns out => v.Hoists mixed ns out.1 out.2
  | .number n, _ => .pure (.number n)
  | .symbol s, _ => .pure (.symbol s)
  | .pointer s, _ => .pure (.pointer s)
  | .process s, _ => .pure (.process s)
  | .variable x, _ => .pure (.variable x)
  | .variant l p, h =>
      .bind (l.hoist_draws (mixed_or_left h)) fun _ _ hl =>
      .last (p.hoist_draws (mixed_or_right h)) fun _ _ hp => ⟨_, rfl, .variant hl hp⟩
  | .record fs, h =>
      .last (fs.hoist_draws h) fun _ _ hfs => ⟨_, rfl, .record hfs⟩
  | .extend b l v, h =>
      .bind (b.hoist_draws (mixed_or_left (mixed_or_left h))) fun _ _ hb =>
      .bind (l.hoist_draws (mixed_or_right (mixed_or_left h))) fun _ _ hl =>
      .last (v.hoist_draws (mixed_or_right h)) fun _ _ hv => ⟨_, rfl, .extend hb hl hv⟩
  | .extendBy _ _, _ => .of_refuses (.bind fun _ => .bind fun _ => .throw)
  | .box b, h =>
      .last (b.hoist_draws h) fun _ _ hb => ⟨_, rfl, .box hb⟩
  | .operand e, h =>
      .bind (e.hoist_draws (mixed_or_right h)) fun _ _ he =>
      .last .fresh fun _ x hx => ⟨_, rfl, hx ▸ .operand x he⟩
  | .stray _, _ => .of_refuses .throw

theorem Fields.hoist_draws : (fs : Fields) -> mixed ∨ fs.passes .unmixed ->
    Draws fs.hoist fun ns out => fs.Hoists mixed ns out.1 out.2
  | .nil, _ => .pure .nil
  | .cons l v rest, h =>
      .bind (l.hoist_draws (mixed_or_left (mixed_or_left h))) fun _ _ hl =>
      .bind (v.hoist_draws (mixed_or_right (mixed_or_left h))) fun _ _ hv =>
      .last (rest.hoist_draws (mixed_or_right h)) fun _ _ hrest => ⟨_, rfl, .cons hl hv hrest⟩
  | .foreign _ _, _ => .of_refuses (.bind fun _ => .throw)

theorem Box.hoist_draws : (b : Box) -> mixed ∨ b.passes .unmixed ->
    Draws b.hoist fun ns b' => b.Hoists mixed ns b'
  | .mk code self captured, h =>
      .last (code.hoist_draws (mixed_or_left h)) fun _ _ hcode => ⟨_, rfl, .mk self captured hcode⟩
  | .stray _, _ => .of_refuses .throw

theorem Computation.hoist_draws : (e : Computation) -> mixed ∨ e.passes .unmixed ->
    Draws e.hoist fun ns out => e.Hoists mixed ns out.1 out.2
  | .hole, _ => .pure .hole
  | .returned _, _ => .of_refuses .throw
  | .ret v, h => .last (v.hoist_draws h) fun _ _ hv => ⟨_, rfl, .ret hv⟩
  | .extract v, h => .last (v.hoist_draws h) fun _ _ hv => ⟨_, rfl, .extract hv⟩
  | .get v, h => .last (v.hoist_draws h) fun _ _ hv => ⟨_, rfl, .get hv⟩
  | .link v, h => .last (v.hoist_draws h) fun _ _ hv => ⟨_, rfl, .link hv⟩
  | .put a b, h =>
      .bind (a.hoist_draws (mixed_or_left h)) fun _ _ ha =>
      .last (b.hoist_draws (mixed_or_right h)) fun _ _ hb => ⟨_, rfl, .put ha hb⟩
  | .assert a equal b, h =>
      .bind (a.hoist_draws (mixed_or_left h)) fun _ _ ha =>
      .last (b.hoist_draws (mixed_or_right h)) fun _ _ hb => ⟨_, rfl, .assert equal ha hb⟩
  | .nest v e, h =>
      .bind (v.hoist_draws (mixed_or_left h)) fun _ _ hv =>
      .last (e.hoist_draws (mixed_or_right h)) fun _ _ he => ⟨_, rfl, .nest hv he⟩
  | .spawn v e, h =>
      .bind (v.hoist_draws (mixed_or_right (mixed_or_left h))) fun _ _ hv =>
      .last (e.hoist_draws (mixed_or_right h)) fun _ _ he => ⟨_, rfl, .spawn hv he⟩
  | .apply e v, h =>
      .bind (v.hoist_draws (mixed_or_right h)) fun _ _ hv =>
      .last (e.hoist_draws (mixed_or_left h)) fun _ _ he => ⟨_, rfl, .apply hv he⟩
  | .project e v, h =>
      .bind (v.hoist_draws (mixed_or_right h)) fun _ _ hv =>
      .last (e.hoist_draws (mixed_or_left h)) fun _ _ he => ⟨_, rfl, .project hv he⟩
  | .lambda p e, h =>
      .last (e.hoist_draws (mixed_or_right h)) fun _ _ he => ⟨_, rfl, .lambda p he⟩
  | .bind p e₁ e₂, h =>
      .bind (e₁.hoist_draws (mixed_or_right (mixed_or_left h))) fun _ _ he₁ =>
      .last (e₂.hoist_draws (mixed_or_right h)) fun _ _ he₂ => ⟨_, rfl, .bind p he₁ he₂⟩
  | .bindBox p e₁ e₂, h =>
      .bind (e₁.hoist_draws (mixed_or_right (mixed_or_left h))) fun _ _ he₁ =>
      .last (e₂.hoist_draws (mixed_or_right h)) fun _ _ he₂ => ⟨_, rfl, .bindBox p he₁ he₂⟩
  | .switch v cases, h =>
      .bind (v.hoist_draws (mixed_or_left h)) fun _ _ hv =>
      .last (cases.hoist_draws (mixed_or_right h)) fun _ _ hcases => ⟨_, rfl, .switch hv hcases⟩
  | .branches bs, h => .last (bs.hoist_draws h) fun _ _ hbs => ⟨_, rfl, .branches hbs⟩
  | .stray _, _ => .of_refuses .throw

theorem Cases.hoist_draws : (cs : Cases) -> mixed ∨ cs.passes .unmixed ->
    Draws cs.hoist fun ns out => cs.Hoists mixed ns out.1 out.2
  | .nil, _ => .pure .nil
  | .cons l p e rest, h =>
      .bind (l.hoist_draws (mixed_or_left (mixed_or_left (mixed_or_left h)))) fun _ _ hl =>
      .bind (e.hoist_draws (mixed_or_right (mixed_or_left h))) fun _ _ he =>
      .last (rest.hoist_draws (mixed_or_right h)) fun _ _ hrest => ⟨_, rfl, .cons p hl he hrest⟩
  | .foreign _ _, _ => .of_refuses (.bind fun _ => .throw)

theorem Branches.hoist_draws : (bs : Branches) -> mixed ∨ bs.passes .unmixed ->
    Draws bs.hoist fun ns out => bs.Hoists mixed ns out.1 out.2
  | .nil, _ => .pure .nil
  | .cons l e rest, h =>
      .bind (l.hoist_draws (mixed_or_left (mixed_or_left h))) fun _ _ hl =>
      .bind (e.hoist_draws (mixed_or_right (mixed_or_left h))) fun _ _ he =>
      .last (rest.hoist_draws (mixed_or_right h)) fun _ _ hrest => ⟨_, rfl, .cons hl he hrest⟩
  | .foreign p rest, h => by
      have hmixed : mixed := h.resolve_right Bool.false_ne_true
      exact .bind (p.hoistBranch_draws hmixed) fun _ _ hp =>
        .last (rest.hoist_draws (.inl hmixed)) fun _ _ hrest => ⟨_, rfl, .foreign hmixed hp hrest⟩

theorem Part.hoistBranch_draws (hmixed : mixed) : (p : Part) ->
    Draws p.hoistBranch fun ns out => p.Hoists mixed ns out.1 out.2.1 out.2.2
  | .case l p e =>
      .bind (l.hoist_draws (.inl hmixed)) fun _ _ hl =>
      .last (e.hoist_draws (.inl hmixed)) fun _ _ he => ⟨_, rfl, .case p hl he⟩
  | .branch l e =>
      .bind (l.hoist_draws (.inl hmixed)) fun _ _ hl =>
      .last (e.hoist_draws (.inl hmixed)) fun _ _ he => ⟨_, rfl, .branch hl he⟩
  | .field _ _ | .fieldPattern _ _ | .labelled _ _ => .of_refuses (.bind fun _ => .throw)
  | .stray _ => .of_refuses .throw

end

end Rules

/-!
## The rules are runs of hoisting

What the rules give is what hoisting gives when the supply begins with the names that are drawn.
-/

/-- A step of normalization draws the given names from any supply that begins with them. -/
def Hoist.Runs {α : Type} (m : Hoist α) (names : List String) (a : α) : Prop :=
  ∀ supply rest, supply.Gives names rest -> m supply = .ok (a, rest)

namespace Hoist.Runs

variable {α β : Type} {m : Hoist α} {f : α -> Hoist β} {ns ms : List String} {a : α} {b : β}

theorem pure : Runs (Pure.pure a : Hoist α) [] a := by
  intro supply rest h
  cases h
  rfl

theorem fresh (x : String) : Runs Hoist.fresh [x] x := by
  intro supply rest h
  rcases NameSupply.gives_cons_iff.mp h with ⟨after, hnext, hafter⟩
  cases hafter
  rw [Hoist.fresh, hnext]

theorem bind (hm : Runs m ns a) (hf : Runs (f a) ms b) : Runs (m >>= f) (ns ++ ms) b := by
  intro supply later h
  rcases NameSupply.gives_append_iff.mp h with ⟨rest, hns, hms⟩
  show (m supply >>= fun out => f out.1 out.2) = _
  rw [hm supply rest hns]
  exact hf rest later hms

theorem last (hm : Runs m ns a) (hf : f a = Pure.pure b) : Runs (m >>= f) ns b := by
  rw [← List.append_nil ns]
  apply bind hm
  rw [hf]
  exact pure

end Hoist.Runs

section Runs

open Hoist

variable {mixed : Prop}

mutual

theorem Value.Hoists.runs {v v' : Value} {ns : List String} {bs : List Binding} :
    v.Hoists mixed ns v' bs -> Runs v.hoist ns (v', bs)
  | .number _ | .symbol _ | .pointer _ | .process _ | .variable _ => .pure
  | .variant hl hp => .bind hl.runs (.last hp.runs rfl)
  | .record hfs => .last hfs.runs rfl
  | .extend hb hl hv => .bind hb.runs (.bind hl.runs (.last hv.runs rfl))
  | .box hb => .last hb.runs rfl
  | .operand x he => .bind he.runs (.last (.fresh x) rfl)

theorem Fields.Hoists.runs {fs fs' : Fields} {ns : List String} {bs : List Binding} :
    fs.Hoists mixed ns fs' bs -> Runs fs.hoist ns (fs', bs)
  | .nil => .pure
  | .cons hl hv hrest => .bind hl.runs (.bind hv.runs (.last hrest.runs rfl))

theorem Box.Hoists.runs {b b' : Box} {ns : List String} :
    b.Hoists mixed ns b' -> Runs b.hoist ns b'
  | .mk _ _ hcode => .last hcode.runs rfl

theorem Computation.Hoists.runs {e e' : Computation} {ns : List String} {bs : List Binding} :
    e.Hoists mixed ns e' bs -> Runs e.hoist ns (e', bs)
  | .hole => .pure
  | .ret hv | .extract hv | .get hv | .link hv => .last hv.runs rfl
  | .put ha hb | .assert _ ha hb => .bind ha.runs (.last hb.runs rfl)
  | .nest hv he | .spawn hv he | .apply hv he | .project hv he =>
      .bind hv.runs (.last he.runs rfl)
  | .lambda _ he => .last he.runs rfl
  | .bind _ he₁ he₂ | .bindBox _ he₁ he₂ => .bind he₁.runs (.last he₂.runs rfl)
  | .switch hv hcases => .bind hv.runs (.last hcases.runs rfl)
  | .branches hbs => .last hbs.runs rfl

theorem Cases.Hoists.runs {cs cs' : Cases} {ns : List String} {bs : List Binding} :
    cs.Hoists mixed ns cs' bs -> Runs cs.hoist ns (cs', bs)
  | .nil => .pure
  | .cons _ hl he hrest => .bind hl.runs (.bind he.runs (.last hrest.runs rfl))

theorem Branches.Hoists.runs {bs bs' : Branches} {ns : List String} {cs : List Binding} :
    bs.Hoists mixed ns bs' cs -> Runs bs.hoist ns (bs', cs)
  | .nil => .pure
  | .cons hl he hrest => .bind hl.runs (.bind he.runs (.last hrest.runs rfl))
  | .foreign _ hp hrest => .bind hp.runs (.last hrest.runs rfl)

theorem Part.Hoists.runs {p : Part} {ns : List String} {l : Value} {e : Computation}
    {bs : List Binding} : p.Hoists mixed ns l e bs -> Runs p.hoistBranch ns (l, e, bs)
  | .case _ hl he | .branch hl he => .bind hl.runs (.last he.runs rfl)

end

end Runs

/-!
## Normalization
-/

namespace Computation

variable {e e' : Computation} {supply rest : NameSupply}

theorem normalize_eq_ok_iff :
    e.normalize supply = .ok (e', rest) ↔
      ∃ hoisted bs, e.hoist supply = .ok ((hoisted, bs), rest) ∧ e' = hoisted.close bs := by
  unfold normalize
  rw [StateT.run]
  cases e.hoist supply with
  | error err =>
      constructor
      · intro h
        cases h
      · rintro ⟨hoisted, bs, h, _⟩
        cases h
  | ok out =>
      constructor
      · intro h
        cases h
        exact ⟨_, _, rfl, rfl⟩
      · rintro ⟨hoisted, bs, h, rfl⟩
        cases h
        rfl

theorem hoist_of_normalize_eq_error {err : NormalizeError}
    (h : e.normalize supply = .error err) : e.hoist supply = .error err := by
  unfold normalize at h
  rw [StateT.run] at h
  cases hrun : e.hoist supply with
  | error err' =>
      rw [hrun] at h
      cases h
      rfl
  | ok out =>
      rw [hrun] at h
      cases h

/-- Normalization that succeeds draws names and closes what hoisting leaves. -/
theorem exists_of_normalize {mixed : Prop} (he : mixed ∨ e.passes .unmixed)
    (h : e.normalize supply = .ok (e', rest)) :
    ∃ names hoisted bs, supply.Gives names rest ∧ e.Hoists mixed names hoisted bs ∧
      e' = hoisted.close bs := by
  rcases normalize_eq_ok_iff.mp h with ⟨hoisted, bs, hrun, rfl⟩
  rcases e.hoist_draws he supply (hoisted, bs) rest hrun with ⟨names, hgives, hhoists⟩
  exact ⟨names, hoisted, bs, hgives, hhoists, rfl⟩

/-- What the rules give is closed by normalization, with any supply that begins with the names. -/
theorem Hoists.normalize_eq {mixed : Prop} {names : List String} {bs : List Binding}
    (h : e.Hoists mixed names e' bs) (hgives : supply.Gives names rest) :
    e.normalize supply = .ok (e'.close bs, rest) :=
  normalize_eq_ok_iff.mpr ⟨e', bs, h.runs supply rest hgives, rfl⟩

end Computation

end PushValue
