/-!
# Tables

A table is a finite map whose entries are kept in key order.  Stores, process
tables and the value bindings of an environment are tables.  The order of the
entries is part of the type, so two tables with the same look-ups are equal,
however their entries were inserted.
-/

namespace PushValue

/-- Finite maps, kept as a list of entries with strictly increasing keys. -/
structure Table (κ : Type) (α : Type) [Ord κ] where
  entries : List (κ × α)
  sorted : entries.Pairwise fun a b => compare a.1 b.1 = .lt

namespace Table

variable {κ α β : Type} [Ord κ]

/-!
## Operations on entry lists

An insertion walks to the place of its key and replaces the entry found there.
-/

def lookup (k : κ) : List (κ × α) -> Option α
  | [] => none
  | (j, a) :: rest => if compare k j = .eq then some a else lookup k rest

def place (k : κ) (a : α) : List (κ × α) -> List (κ × α)
  | [] => [(k, a)]
  | (j, b) :: rest =>
      match compare k j with
      | .lt => (k, a) :: (j, b) :: rest
      | .eq => (k, a) :: rest
      | .gt => (j, b) :: place k a rest

theorem mem_place {k : κ} {a : α} {e : κ × α} {es : List (κ × α)}
    (h : e ∈ place k a es) : e = (k, a) ∨ e ∈ es := by
  induction es with
  | nil => simpa [place] using h
  | cons d rest ih =>
      obtain ⟨j, b⟩ := d
      unfold place at h
      split at h
      · simpa using h
      · rcases List.mem_cons.mp h with h | h
        · exact .inl h
        · exact .inr (List.mem_cons_of_mem _ h)
      · rcases List.mem_cons.mp h with h | h
        · exact .inr (h ▸ List.mem_cons_self)
        · exact (ih h).imp_right (List.mem_cons_of_mem _)

theorem sorted_place [Std.TransOrd κ] [Std.LawfulEqOrd κ] (k : κ) (a : α)
    {es : List (κ × α)}
    (h : es.Pairwise fun a b => compare a.1 b.1 = .lt) :
    (place k a es).Pairwise fun a b => compare a.1 b.1 = .lt := by
  induction es with
  | nil => exact List.pairwise_singleton _ _
  | cons d rest ih =>
      obtain ⟨j, b⟩ := d
      have ⟨hj, hrest⟩ := List.pairwise_cons.mp h
      unfold place
      split
      next hlt =>
        refine List.pairwise_cons.mpr ⟨fun e he => ?_, h⟩
        rcases List.mem_cons.mp he with rfl | he
        · exact hlt
        · exact Std.TransCmp.lt_trans hlt (hj e he)
      next heq =>
        cases Std.LawfulEqOrd.eq_of_compare heq
        exact List.pairwise_cons.mpr ⟨hj, hrest⟩
      next hgt =>
        refine List.pairwise_cons.mpr ⟨fun e he => ?_, ih hrest⟩
        rcases mem_place he with rfl | he
        · exact Std.OrientedCmp.gt_iff_lt.mp hgt
        · exact hj e he

/-!
## The table interface
-/

def empty : Table κ α := ⟨[], List.Pairwise.nil⟩

instance : EmptyCollection (Table κ α) := ⟨empty⟩

instance : Inhabited (Table κ α) := ⟨empty⟩

def get? (t : Table κ α) (k : κ) : Option α := lookup k t.entries

def contains (t : Table κ α) (k : κ) : Bool := (t.get? k).isSome

def keys (t : Table κ α) : List κ := t.entries.map Prod.fst

def isEmpty (t : Table κ α) : Bool := t.entries.isEmpty

def insert [Std.TransOrd κ] [Std.LawfulEqOrd κ] (t : Table κ α) (k : κ) (a : α) :
    Table κ α :=
  ⟨place k a t.entries, sorted_place k a t.sorted⟩

def erase (t : Table κ α) (k : κ) : Table κ α :=
  ⟨t.entries.filter fun e => compare e.1 k != .eq, t.sorted.filter _⟩

/-- The table of the listed entries; of two entries with one key the later stays. -/
def ofList [Std.TransOrd κ] [Std.LawfulEqOrd κ] (es : List (κ × α)) : Table κ α :=
  es.foldl (fun t e => t.insert e.1 e.2) empty

def map (f : α -> β) (t : Table κ α) : Table κ β :=
  ⟨t.entries.map fun e => (e.1, f e.2), by
    exact List.pairwise_map.mpr t.sorted⟩

instance [DecidableEq κ] [DecidableEq α] : DecidableEq (Table κ α) := fun s t =>
  decidable_of_iff (s.entries = t.entries)
    ⟨fun h => by cases s; cases t; cases h; rfl, fun h => h ▸ rfl⟩

end Table

end PushValue
