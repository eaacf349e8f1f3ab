import Mathlib.Data.List.Forall2
import PushValue.Machine.Match
import PushValue.Proofs.Contract
import PushValue.Proofs.Scope.Basic
import PushValue.Proofs.Tables

/-!
# Where bound values come from

A pattern leads from a value to some of its parts: to the fields under the labels that it writes
down, and to the payloads of variants.  Each variable of the pattern is bound to the part to which
the way to it leads.  The labels on the way are resolved in the environment as extended by the
variables that stand before them, and of several variables with one name the last one counts.
-/

namespace PushValue

/-!
## Ways to variables
-/

/-- A step from a value to a part of it, with the label that a pattern writes down for it and the
number of variables that stand before the label. -/
inductive Access where
  | field (label : Value) (before : Nat)
  | payload (label : Value) (before : Nat)

/-- A variable of a pattern, with the way from the whole value to it. -/
structure Spot where
  name : String
  way : List Access

def Spot.behind (a : Access) (spot : Spot) : Spot := ⟨spot.name, a :: spot.way⟩

mutual

/-- The variables of a pattern from left to right, when so many others stand before it. -/
def Pattern.spots (before : Nat) : Pattern -> List Spot
  | .variable x => [⟨x, []⟩]
  | .fields ps => ps.spots before
  | .variant l p => (p.spots before).map (Spot.behind (.payload l before))
  | .variantBy p => p.spots .payload before
  | .ignore | .stray _ => []

def FieldPatterns.spots (before : Nat) : FieldPatterns -> List Spot
  | .nil => []
  | .cons l p rest =>
      let spots := (p.spots before).map (Spot.behind (.field l before))
      spots ++ rest.spots (before + spots.length)
  | .foreign p rest =>
      let spots := p.spots .field before
      spots ++ rest.spots (before + spots.length)

def Part.spots (access : Value -> Nat -> Access) (before : Nat) : Part -> List Spot
  | .fieldPattern l p | .case l p _ => (p.spots before).map (Spot.behind (access l before))
  | .field _ _ | .branch _ _ | .labelled _ _ | .stray _ => []

end

mutual

theorem Pattern.mem_names_iff {x : String} (before : Nat) :
    (p : Pattern) -> (x ∈ p.names ↔ x ∈ (p.spots before).map Spot.name)
  | .variable y => by simp [Pattern.names, Pattern.spots]
  | .fields ps => ps.mem_names_iff before
  | .variant l p => by
      rw [Pattern.names, Pattern.spots, List.map_map]
      exact p.mem_names_iff before
  | .variantBy p => p.mem_names_iff .payload before
  | .ignore | .stray _ => Iff.rfl

theorem FieldPatterns.mem_names_iff {x : String} (before : Nat) :
    (ps : FieldPatterns) -> (x ∈ ps.names ↔ x ∈ (ps.spots before).map Spot.name)
  | .nil => Iff.rfl
  | .cons l p rest => by
      rw [FieldPatterns.names, FieldPatterns.spots, List.map_append, List.map_map, List.mem_append,
        List.mem_append, or_comm]
      exact or_congr (p.mem_names_iff before) (rest.mem_names_iff _)
  | .foreign p rest => by
      rw [FieldPatterns.names, FieldPatterns.spots, List.map_append, List.mem_append,
        List.mem_append, or_comm]
      exact or_congr (p.mem_names_iff .field before) (rest.mem_names_iff _)

theorem Part.mem_names_iff {x : String} (access : Value -> Nat -> Access) (before : Nat) :
    (p : Part) -> (x ∈ p.names ↔ x ∈ (p.spots access before).map Spot.name)
  | .fieldPattern l p | .case l p _ => by
      rw [Part.names, Part.spots, List.map_map]
      exact p.mem_names_iff before
  | .field _ _ | .branch _ _ | .labelled _ _ | .stray _ => Iff.rfl

end

/-!
## Where ways lead
-/

/-- A step leads from a value to a part, when `scope n` is the environment in which the first `n`
variables are bound. -/
inductive Access.Leads (scope : Nat -> Environment) : Access -> Value -> Value -> Prop where
  | field {l label v w : Value} {n : Nat} (hl : l.resolve (scope n) = .ok label)
      (hv : v.field label = .ok w) : Access.Leads scope (.field l n) v w
  | payload {l label w : Value} {n : Nat} (hl : l.resolve (scope n) = .ok label) :
      Access.Leads scope (.payload l n) (.variant label w) w

inductive Leads (scope : Nat -> Environment) : List Access -> Value -> Value -> Prop where
  | here (v : Value) : Leads scope [] v v
  | step {a : Access} {way : List Access} {v u w : Value} (ha : a.Leads scope v u)
      (hway : Leads scope way u w) : Leads scope (a :: way) v w

/-- Each of the spots comes with its name and the part of a value to which its way leads. -/
def Picked (scope : Nat -> Environment) (v : Value) : List Spot -> List (String × Value) -> Prop :=
  List.Forall₂ fun spot pick => pick.1 = spot.name ∧ Leads scope spot.way v pick.2

namespace Picked

variable {scope : Nat -> Environment} {u v : Value} {spots spots' : List Spot}
  {picks picks' : List (String × Value)}

theorem append (h : Picked scope v spots picks) (h' : Picked scope v spots' picks') :
    Picked scope v (spots ++ spots') (picks ++ picks') :=
  List.rel_append h h'

theorem behind {a : Access} (ha : a.Leads scope v u) (h : Picked scope u spots picks) :
    Picked scope v (spots.map (Spot.behind a)) picks := by
  rw [Picked, List.forall₂_map_left_iff]
  exact h.imp fun _ _ hpick => ⟨hpick.1, .step ha hpick.2⟩

theorem names (h : Picked scope v spots picks) : picks.map Prod.fst = spots.map Spot.name := by
  induction h with
  | nil => rfl
  | cons hpick _ ih => rw [List.map_cons, List.map_cons, hpick.1, ih]

end Picked

def Environment.extended (vs : Table String Value) (boxes : Boxes)
    (picks : List (String × Value)) : Environment :=
  .mk (picks.foldl (fun vs pick => vs.insert pick.1 pick.2) vs) boxes

def Environment.stages (vs : Table String Value) (boxes : Boxes) (picks : List (String × Value))
    (n : Nat) : Environment :=
  extended vs boxes (picks.take n)

section Binding

variable {vs : Table String Value} {boxes : Boxes}

theorem Environment.stages_length (done later : List (String × Value)) :
    stages vs boxes (done ++ later) done.length = extended vs boxes done := by
  rw [stages, List.take_left]

/-- After some variables are bound, those of the given spots are bound to the parts of a value to
which the ways lead, whatever is bound later. -/
def Binds (vs : Table String Value) (boxes : Boxes) (done : List (String × Value)) (v : Value)
    (spots : List Spot) (env : Environment) : Prop :=
  ∃ picks, env = .extended vs boxes (done ++ picks) ∧
    ∀ later, Picked (.stages vs boxes (done ++ picks ++ later)) v spots picks

namespace Binds

variable {done : List (String × Value)} {u v : Value} {spots spots' : List Spot}
  {env : Environment}

theorem none : Binds vs boxes done v [] (.extended vs boxes done) :=
  ⟨[], by rw [List.append_nil], fun _ => .nil⟩

theorem one (x : String) :
    Binds vs boxes done v [⟨x, []⟩] (.extended vs boxes (done ++ [(x, v)])) :=
  ⟨[(x, v)], rfl, fun _ => .cons ⟨rfl, .here v⟩ .nil⟩

theorem behind {a : Access} (ha : ∀ later, a.Leads (.stages vs boxes (done ++ later)) v u)
    (h : Binds vs boxes done u spots env) :
    Binds vs boxes done v (spots.map (Spot.behind a)) env := by
  rcases h with ⟨picks, henv, hpicks⟩
  refine ⟨picks, henv, fun later => (hpicks later).behind ?_⟩
  rw [List.append_assoc]
  exact ha _

theorem append {next : Environment -> Except Failure Environment}
    (h : Binds vs boxes done v spots env)
    (hnext : ∀ picks, picks.length = spots.length ->
      Meets (fun _ => True) (Binds vs boxes (done ++ picks) v spots')
        (next (.extended vs boxes (done ++ picks)))) :
    Meets (fun _ => True) (Binds vs boxes done v (spots ++ spots')) (next env) := by
  rcases h with ⟨picks, rfl, hpicks⟩
  apply (hnext picks (hpicks []).length_eq.symm).mono
  rintro env ⟨picks', henv, hpicks'⟩
  refine ⟨picks ++ picks', ?_, fun later => ?_⟩
  · rw [henv, List.append_assoc]
  · have hall : done ++ (picks ++ picks') ++ later = done ++ picks ++ (picks' ++ later) := by
      simp only [List.append_assoc]
    have hall' : done ++ (picks ++ picks') ++ later = done ++ picks ++ picks' ++ later := by
      simp only [List.append_assoc]
    exact .append (hall ▸ hpicks _) (hall' ▸ hpicks' later)

end Binds

theorem Part.resolve_label {p : Part} {env : Environment} {l label : Value}
    (h : p.resolveLabel env = .ok label) (hl : p.label = .ok l) : l.resolve env = .ok label := by
  cases p <;> cases hl <;> exact h

theorem Access.leads_field {done : List (String × Value)} {l label v w : Value}
    (hl : l.resolve (.extended vs boxes done) = .ok label) (hv : v.field label = .ok w)
    (later : List (String × Value)) :
    (Access.field l done.length).Leads (.stages vs boxes (done ++ later)) v w := by
  rw [← Environment.stages_length done later] at hl
  exact .field hl hv

theorem Access.leads_payload {done : List (String × Value)} {l label w : Value}
    (hl : l.resolve (.extended vs boxes done) = .ok label) (later : List (String × Value)) :
    (Access.payload l done.length).Leads (.stages vs boxes (done ++ later))
      (.variant label w) w := by
  rw [← Environment.stages_length done later] at hl
  exact .payload hl

mutual

/-- Binding a pattern binds its variables, each to the part to which its way leads. -/
theorem Pattern.binds (done : List (String × Value)) (v : Value) : (p : Pattern) ->
    Meets (fun _ => True) (Binds vs boxes done v (p.spots done.length))
      (p.bind v (.extended vs boxes done))
  | .ignore => .none
  | .variable x => by
      have hbind : (Pattern.variable x).bind v (.extended vs boxes done) =
          .ok (.extended vs boxes (done ++ [(x, v)])) := by
        rw [Environment.extended, Environment.extended, List.foldl_append]
        rfl
      rw [hbind]
      exact .one x
  | .fields ps => by
      rw [Pattern.bind]
      split
      · exact ps.binds done v
      · trivial
  | .variant l p => by
      cases v with
      | variant found payload =>
          rw [Pattern.bind]
          apply (Meets.self _).bind
          intro expected hl
          split
          next hfound =>
            rw [← hfound] at hl
            exact (p.binds done payload).mono fun env => .behind (Access.leads_payload hl)
          next => trivial
      | _ => trivial
  | .variantBy part => by
      cases v with
      | variant found payload =>
          rw [Pattern.bind]
          apply (Meets.self _).bind
          intro expected hl
          split
          next hfound =>
            rw [← hfound] at hl
            apply part.binds done payload
            intro l hlabel
            exact Access.leads_payload (part.resolve_label hl hlabel)
          next => trivial
      | _ => trivial
  | .stray _ => trivial
termination_by structural p => p

theorem FieldPatterns.binds (done : List (String × Value)) (v : Value) : (ps : FieldPatterns) ->
    Meets (fun _ => True) (Binds vs boxes done v (ps.spots done.length))
      (ps.bind v (.extended vs boxes done))
  | .nil => .none
  | .cons l p rest => by
      rw [FieldPatterns.bind]
      apply (Meets.self _).bind
      intro label hl
      apply (Meets.self _).bind
      intro part hv
      apply (p.binds done part).bind
      intro env henv
      apply (henv.behind (Access.leads_field hl hv)).append
      intro picks hlength
      rw [← hlength, ← List.length_append]
      exact rest.binds (done ++ picks) v
  | .foreign p rest => by
      rw [FieldPatterns.bind]
      apply (Meets.self _).bind
      intro label hl
      apply (Meets.self _).bind
      intro _ _
      apply (Meets.self _).bind
      intro part hv
      have hpart : Meets (fun _ => True) (Binds vs boxes done v (p.spots .field done.length))
          (p.bind part (.extended vs boxes done)) :=
        p.binds done part fun l hlabel => Access.leads_field (p.resolve_label hl hlabel) hv
      apply hpart.bind
      intro env henv
      apply henv.append
      intro picks hlength
      rw [← hlength, ← List.length_append]
      exact rest.binds (done ++ picks) v
termination_by structural ps => ps

theorem Part.binds {access : Value -> Nat -> Access} {v : Value} (done : List (String × Value))
    (u : Value) : (p : Part) ->
    (∀ l, p.label = .ok l -> ∀ later,
      (access l done.length).Leads (.stages vs boxes (done ++ later)) v u) ->
    Meets (fun _ => True) (Binds vs boxes done v (p.spots access done.length))
      (p.bind u (.extended vs boxes done))
  | .fieldPattern l p, ha | .case l p _, ha =>
      (p.binds done u).mono fun _ => .behind (ha l rfl)
  | .field _ _, _ | .branch _ _, _ | .labelled _ _, _ | .stray _, _ => trivial
termination_by structural p => p

end

end Binding

/-!
## What a pattern binds
-/

theorem exists_last_pick {x : String} {picks : List (String × Value)}
    (hx : x ∈ picks.map Prod.fst) (vs : Table String Value) :
    ∃ before w after, picks = before ++ (x, w) :: after ∧ x ∉ after.map Prod.fst ∧
      (picks.foldl (fun vs pick => vs.insert pick.1 pick.2) vs).get? x = some w := by
  induction picks generalizing vs with
  | nil => cases hx
  | cons pick rest ih =>
      by_cases hrest : x ∈ rest.map Prod.fst
      · rcases ih hrest (vs.insert pick.1 pick.2) with ⟨before, w, after, rfl, hafter, hget⟩
        exact ⟨pick :: before, w, after, rfl, hafter, hget⟩
      · rw [List.map_cons, List.mem_cons] at hx
        rcases hx with rfl | hx
        · refine ⟨[], pick.2, rest, rfl, hrest, ?_⟩
          rw [List.foldl_cons, Table.get?_foldl_insert_of_notMem hrest, Table.get?_insert_self]
        · exact absurd hx hrest

/-- A pattern that binds leaves the boxes in scope alone.  It binds its own names besides those that
were bound, and leaves all other names as they were.  Each of its variables stands for the part of
the value to which the way to it leads, and a name of the pattern is bound to what the last variable
of that name stands for. -/
theorem Pattern.bind_provenance (p : Pattern) (v : Value) (vs : Table String Value)
    (boxes : Boxes) (env : Environment) (h : p.bind v (.mk vs boxes) = .ok env) :
    ∃ (vs' : Table String Value) (picks : List (String × Value)), env = .mk vs' boxes ∧
      Picked (.stages vs boxes picks) v (p.spots 0) picks ∧
      (∀ x, vs'.contains x ↔ vs.contains x ∨ x ∈ p.names) ∧
      (∀ x, x ∉ p.names -> vs'.get? x = vs.get? x) ∧
      ∀ x, x ∈ p.names -> ∃ before w after, picks = before ++ (x, w) :: after ∧
        x ∉ after.map Prod.fst ∧ vs'.get? x = some w := by
  rcases (p.binds [] v).of_eq_ok h with ⟨picks, rfl, hpicked⟩
  have hpicks := hpicked []
  rw [List.append_nil, List.nil_append] at hpicks
  let vs' := picks.foldl (fun vs pick => vs.insert pick.1 pick.2) vs
  have hmem {x : String} : x ∈ p.names ↔ x ∈ picks.map Prod.fst := by
    rw [hpicks.names]
    exact p.mem_names_iff 0
  have hother (x : String) (hx : x ∉ p.names) : vs'.get? x = vs.get? x :=
    Table.get?_foldl_insert_of_notMem (fun hpick => hx (hmem.mpr hpick)) vs
  have hlast (x : String) (hx : x ∈ p.names) : ∃ before w after,
      picks = before ++ (x, w) :: after ∧ x ∉ after.map Prod.fst ∧ vs'.get? x = some w :=
    exists_last_pick (hmem.mp hx) vs
  refine ⟨vs', picks, rfl, hpicks, fun x => ?_, hother, hlast⟩
  by_cases hx : x ∈ p.names
  · rcases hlast x hx with ⟨_, w, _, _, _, hget⟩
    exact ⟨fun _ => .inr hx, fun _ => Table.contains_iff.mpr ⟨w, hget⟩⟩
  · rw [Table.contains_congr (hother x hx)]
    exact ⟨.inl, fun hor => hor.resolve_right hx⟩

def labelFromField : Pattern :=
  .fields (.cons (.symbol (.name "a")) (.variable "k")
    (.cons (.variable "k") (.variable "x")
      (.cons (.symbol (.name "b")) (.variant (.symbol (.name "l")) (.variable "x")) .nil)))

def extendedRecord : Value :=
  .extend (.record (.cons (.symbol (.name "c")) (.number 9)
      (.cons (.symbol (.name "b")) (.variant (.symbol (.name "l")) (.number 7)) .nil)))
    (.symbol (.name "a")) (.symbol (.name "c"))

def outerScope : Table String Value := Table.empty.insert "k" (.symbol (.name "z"))

theorem labelFromField_provenance :
    ∃ vs', labelFromField.bind extendedRecord (.mk outerScope .nil) = .ok (.mk vs' .nil) ∧
      (∃ picks,
        Picked (.stages outerScope .nil picks) extendedRecord (labelFromField.spots 0) picks ∧
        ∃ before w after, picks = before ++ ("x", w) :: after ∧ "x" ∉ after.map Prod.fst ∧
          vs'.get? "x" = some w) ∧
      vs'.get? "k" = some (.symbol (.name "c")) ∧ vs'.get? "x" = some (.number 7) := by
  rcases labelFromField.bind_provenance extendedRecord outerScope .nil _ rfl with
    ⟨vs', picks, henv, hpicked, _, _, hlast⟩
  cases henv
  exact ⟨_, rfl, ⟨picks, hpicked, hlast "x" (by decide)⟩, rfl, rfl⟩

end PushValue
