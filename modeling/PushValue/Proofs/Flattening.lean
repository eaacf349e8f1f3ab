import PushValue.Machine.Match

/-!
# Flattened records

A value may be extended again and again, and what is extended need not be a record.  Unfolding a
value gives the parts by which it is extended, from the outermost inward, and its root, which is no
extension.  Flattened, a value is the list of these parts, followed by those of its root if this is
a record.

A label is looked up in the flattened value, from its beginning to the first part that is not under
another label.  If this is a field its value is found; a part that is no field cannot be read.
Only if all parts are under other labels does the root count: the field is not found in a record,
and anything else is no record.
-/

namespace PushValue

/-!
## Unfolding
-/

/-- The parts by which a value is extended, the outermost first. -/
def Value.extensions : Value -> List Part
  | .extend base l v => .field l v :: base.extensions
  | .extendBy base p => p :: base.extensions
  | _ => []

def Value.root : Value -> Value
  | .extend base _ _ | .extendBy base _ => base.root
  | v => v

def Value.isExtension : Value -> Bool
  | .extend _ _ _ | .extendBy _ _ => true
  | _ => false

def Value.extendedBy (base : Value) (ps : List Part) : Value :=
  ps.foldr (fun p v => .extendBy v p) base

theorem Value.isExtension_root : (v : Value) -> v.root.isExtension = false
  | .extend base _ _ | .extendBy base _ => base.isExtension_root
  | .number _ | .symbol _ | .pointer _ | .process _ | .variable _ | .variant _ _ | .record _
  | .box _ | .operand _ | .stray _ => rfl

/-- A value and its root under its extensions are written as one and the same object. -/
theorem Value.toObject_extendedBy_root :
    (v : Value) -> (v.root.extendedBy v.extensions).toObject = v.toObject
  | .extend base l w => by
      have hbase := base.toObject_extendedBy_root
      show Object.node .extension
          [(base.root.extendedBy base.extensions).toObject, (Part.field l w).toObject] = _
      rw [hbase]
      rfl
  | .extendBy base p => by
      have hbase := base.toObject_extendedBy_root
      show Object.node .extension
          [(base.root.extendedBy base.extensions).toObject, p.toObject] = _
      rw [hbase]
      rfl
  | .number _ | .symbol _ | .pointer _ | .process _ | .variable _ | .variant _ _ | .record _
  | .box _ | .operand _ | .stray _ => rfl

/-!
## Flattening
-/

def Fields.parts : Fields -> List Part
  | .nil => []
  | .cons l v rest => .field l v :: rest.parts
  | .foreign p rest => p :: rest.parts

def Fields.ofParts : List Part -> Fields
  | [] => .nil
  | .field l v :: rest => .cons l v (ofParts rest)
  | p :: rest => .foreign p (ofParts rest)

theorem Fields.parts_ofParts (ps : List Part) : (ofParts ps).parts = ps := by
  induction ps with
  | nil => rfl
  | cons p rest ih =>
      cases p with
      | _ => exact congrArg (_ :: ·) ih

def Value.ownParts : Value -> List Part
  | .record fs => fs.parts
  | _ => []

def Value.flattened (v : Value) : List Part := v.extensions ++ v.root.ownParts

def Value.absence (v label : Value) : Fault :=
  if v.root.isRecord then .fieldNotFound label else .notRecord

/-!
## Searching parts
-/

namespace Part

variable {label : Value} {absent : Fault} {p : Part} {ps : List Part}

def UnderOther (label : Value) (p : Part) : Prop := ∃ l, p.label = .ok l ∧ l ≠ label

/-- A part stands in a list behind parts that are all under other labels. -/
def IsFirst (label : Value) (p : Part) (ps : List Part) : Prop :=
  ∃ before after, ps = before ++ p :: after ∧ ∀ q ∈ before, q.UnderOther label

/-- A part that is read for its value under a label has no label, or it has this one and no value. -/
def Misses (label : Value) (p : Part) (lack : Lack) : Prop :=
  p.label = .error lack ∨ p.label = .ok label ∧ p.value = .error lack

/-- Whether a search ends at a part: it has the label that is searched, or none at all. -/
def stops (label : Value) (p : Part) : Bool :=
  match p.label with
  | .ok l => l = label
  | .error _ => true

def read (p : Part) : Except Failure Value := do
  let _ <- Failure.ofLack p.label
  Failure.ofLack p.value

def search (label : Value) (absent : Fault) (ps : List Part) : Except Failure Value :=
  match ps.find? (stops label) with
  | some p => p.read
  | none => .error (.fault absent)

theorem not_stops_iff : ¬ p.stops label ↔ p.UnderOther label := by
  unfold stops UnderOther
  cases p.label with
  | ok l => simp
  | error lack => simp

instance : Decidable (p.UnderOther label) := decidable_of_iff _ not_stops_iff

theorem find?_stops_eq_some_iff :
    ps.find? (stops label) = some p ↔ p.stops label ∧ p.IsFirst label ps := by
  simp only [List.find?_eq_some_iff_append, IsFirst, ← not_stops_iff, Bool.not_eq_true,
    Bool.not_eq_eq_eq_not, Bool.not_true]

theorem find?_stops_eq_none_iff :
    ps.find? (stops label) = none ↔ ∀ p ∈ ps, p.UnderOther label := by
  simp only [List.find?_eq_none, not_stops_iff]

theorem search_cons (p : Part) (ps : List Part) :
    search label absent (p :: ps) = (do
      if (<- Failure.ofLack p.label) = label then Failure.ofLack p.value
      else search label absent ps) := by
  -- A part without a label stops the search as well: asking for its label fails.
  cases hlabel : p.label with
  | error lack =>
      have hstops : p.stops label = true := by rw [stops, hlabel]
      rw [search, List.find?_cons, hstops]
      show p.read = _
      rw [read, hlabel]
      rfl
  | ok l =>
      have hstops : p.stops label = decide (l = label) := by rw [stops, hlabel]
      show _ = if l = label then _ else _
      by_cases hl : l = label
      · rw [if_pos hl, search, List.find?_cons, hstops, decide_eq_true hl]
        show p.read = _
        rw [read, hlabel]
        rfl
      · rw [if_neg hl, search, List.find?_cons, hstops, decide_eq_false hl]
        rfl

theorem eq_field_of_read {w : Value} (hstops : p.stops label) (h : p.read = .ok w) :
    p = .field label w := by
  cases p with
  | field l v =>
      cases h
      rw [of_decide_eq_true hstops]
  | _ => cases h

theorem exists_misses_of_read {f : Failure} (hstops : p.stops label) (h : p.read = .error f) :
    ∃ lack, p.Misses label lack ∧ f = .breakage (.lacks lack) := by
  unfold stops at hstops
  unfold read at h
  cases hlabel : p.label with
  | error lack =>
      rw [hlabel] at h
      cases h
      exact ⟨lack, .inl hlabel, rfl⟩
  | ok l =>
      rw [hlabel] at h hstops
      have hl : l = label := of_decide_eq_true hstops
      cases hvalue : p.value with
      | error lack =>
          rw [hvalue] at h
          cases h
          exact ⟨lack, .inr ⟨hl ▸ hlabel, hvalue⟩, rfl⟩
      | ok w =>
          rw [hvalue] at h
          cases h

theorem Misses.stops {lack : Lack} (h : p.Misses label lack) : p.stops label := by
  unfold Part.stops
  rcases h with hlabel | ⟨hlabel, _⟩
  · rw [hlabel]
  · rw [hlabel]
    exact decide_eq_true rfl

theorem Misses.read {lack : Lack} (h : p.Misses label lack) :
    p.read = .error (.breakage (.lacks lack)) := by
  unfold Part.read
  rcases h with hlabel | ⟨hlabel, hvalue⟩
  · rw [hlabel]
    rfl
  · rw [hlabel, hvalue]
    rfl

theorem search_eq_ok_iff {w : Value} :
    search label absent ps = .ok w ↔ (field label w).IsFirst label ps := by
  constructor
  · intro h
    unfold search at h
    split at h
    next p hfind =>
      rcases find?_stops_eq_some_iff.mp hfind with ⟨hstops, hfirst⟩
      rw [eq_field_of_read hstops h] at hfirst
      exact hfirst
    next => cases h
  · intro hfirst
    have hstops : (field label w).stops label := decide_eq_true rfl
    rw [search, find?_stops_eq_some_iff.mpr ⟨hstops, hfirst⟩]
    rfl

theorem search_eq_fault_iff {f : Fault} :
    search label absent ps = .error (.fault f) ↔ f = absent ∧ ∀ p ∈ ps, p.UnderOther label := by
  constructor
  · intro h
    unfold search at h
    split at h
    next p hfind =>
      rcases exists_misses_of_read (find?_stops_eq_some_iff.mp hfind).1 h with ⟨_, _, hf⟩
      cases hf
    next hfind =>
      cases h
      exact ⟨rfl, find?_stops_eq_none_iff.mp hfind⟩
  · rintro ⟨rfl, hall⟩
    rw [search, find?_stops_eq_none_iff.mpr hall]

theorem search_eq_breakage_iff {b : Breakage} :
    search label absent ps = .error (.breakage b) ↔
      ∃ (p : Part) (lack : Lack), p.IsFirst label ps ∧ p.Misses label lack ∧ b = .lacks lack := by
  constructor
  · intro h
    unfold search at h
    split at h
    next p hfind =>
      rcases find?_stops_eq_some_iff.mp hfind with ⟨hstops, hfirst⟩
      rcases exists_misses_of_read hstops h with ⟨lack, hmisses, hb⟩
      cases hb
      exact ⟨p, lack, hfirst, hmisses, rfl⟩
    next => cases h
  · rintro ⟨p, lack, hfirst, hmisses, rfl⟩
    rw [search, find?_stops_eq_some_iff.mpr ⟨hmisses.stops, hfirst⟩]
    exact hmisses.read

end Part

/-!
## Looking labels up
-/

theorem Fields.find_eq_search (label : Value) (fs : Fields) :
    fs.find label = Part.search label (.fieldNotFound label) fs.parts := by
  cases fs with
  | nil => rfl
  | cons l v rest =>
      rw [Fields.find, rest.find_eq_search label, Fields.parts, Part.search_cons]
      rfl
  | foreign p rest =>
      rw [Fields.find, rest.find_eq_search label, Fields.parts, Part.search_cons]
termination_by structural fs

theorem Value.field_eq_search : (v label : Value) ->
    v.field label = Part.search label (v.absence label) v.flattened
  | .record fs, label => fs.find_eq_search label
  | .extend base l w, label => by
      -- An extension has the root of its base, and so the same fault if nothing is found.
      rw [Value.field, base.field_eq_search label]
      exact (Part.search_cons (.field l w) base.flattened).symm
  | .extendBy base p, label => by
      rw [Value.field, base.field_eq_search label]
      exact (Part.search_cons p base.flattened).symm
  | .number _, _ | .symbol _, _ | .pointer _, _ | .process _, _ | .variable _, _
  | .variant _ _, _ | .box _, _ | .operand _, _ | .stray _, _ => rfl

theorem Value.field_eq_field_record {v : Value} (hroot : v.root.isRecord) (label : Value) :
    v.field label = (Value.record (.ofParts v.flattened)).field label := by
  have habsence : v.absence label = .fieldNotFound label := if_pos hroot
  rw [v.field_eq_search, habsence, Value.field, Fields.find_eq_search, Fields.parts_ofParts]

/-- A value unfolds into its extensions and a root that is no extension.  What is found under a
label is the value of the first field with this label among the extensions and then, if the root is
a record, among the fields of the root; a field among the extensions is found whatever the root is.
If there is none the field is not found in a record, and any other root is no record.  The lookup
breaks only at a part that is no field and comes before every field with the label.  So a record
under extensions is looked up like the flattened record. -/
theorem Value.field_flattened (v label : Value) :
    (v.root.isExtension = false ∧ (v.root.extendedBy v.extensions).toObject = v.toObject) ∧
      (∀ w, v.field label = .ok w ↔ (Part.field label w).IsFirst label v.flattened) ∧
      (∀ f, v.field label = .error (.fault f) ↔
        f = (if v.root.isRecord then .fieldNotFound label else .notRecord) ∧
          ∀ p ∈ v.flattened, p.UnderOther label) ∧
      (∀ b, v.field label = .error (.breakage b) ↔
        ∃ (p : Part) (lack : Lack), p.IsFirst label v.flattened ∧ p.Misses label lack ∧
          b = .lacks lack) ∧
      (v.root.isRecord -> v.field label = (Value.record (.ofParts v.flattened)).field label) := by
  have hfield := v.field_eq_search label
  refine ⟨⟨v.isExtension_root, v.toObject_extendedBy_root⟩, ?_, ?_, ?_,
    fun hroot => Value.field_eq_field_record hroot label⟩
  · intro w
    rw [hfield]
    exact Part.search_eq_ok_iff
  · intro f
    rw [hfield]
    exact Part.search_eq_fault_iff
  · intro b
    rw [hfield]
    exact Part.search_eq_breakage_iff

def shadowedRecord : Value :=
  .extend
    (.extend
      (.record (.cons (.symbol (.name "a")) (.number 1)
        (.cons (.symbol (.name "b")) (.number 2) (.cons (.symbol (.name "b")) (.number 3) .nil))))
      (.symbol (.name "a")) (.number 4))
    (.symbol (.name "c")) (.number 5)

theorem shadowedRecord_flattened :
    shadowedRecord.root.isRecord ∧
      (∀ label, shadowedRecord.field label =
        (Value.record (.ofParts shadowedRecord.flattened)).field label) ∧
      shadowedRecord.field (.symbol (.name "a")) = .ok (.number 4) ∧
      shadowedRecord.field (.symbol (.name "b")) = .ok (.number 2) ∧
      shadowedRecord.field (.symbol (.name "d")) =
        .error (.fault (.fieldNotFound (.symbol (.name "d")))) := by
  refine ⟨rfl, fun label => (shadowedRecord.field_flattened label).2.2.2.2 rfl, ?_, ?_, ?_⟩
  · apply ((shadowedRecord.field_flattened _).2.1 _).mpr
    exact ⟨shadowedRecord.flattened.take 1, _, rfl, by decide⟩
  · apply ((shadowedRecord.field_flattened _).2.1 _).mpr
    exact ⟨shadowedRecord.flattened.take 3, _, rfl, by decide⟩
  · apply ((shadowedRecord.field_flattened _).2.2.1 _).mpr
    exact ⟨rfl, by decide⟩

example : (Value.extend (.number 1) (.symbol (.name "a")) (.number 5)).field (.symbol (.name "a")) =
    .ok (.number 5) := rfl

example : (Value.extend (.number 1) (.symbol (.name "a")) (.number 5)).field (.symbol (.name "b")) =
    .error (.fault .notRecord) := rfl

end PushValue
