import PushValue.Table.Lemmas

/-!
# Tables as finite maps

The facts about tables that the proofs about stores and process tables rest on.
Insertions are described by the look-ups of their results, a Boolean property of
all values is described by look-ups as well, and the keys are exactly the names
that are found.
-/

namespace PushValue
namespace Table

variable {κ α : Type} [Ord κ]

def all (p : α -> Bool) (t : Table κ α) : Bool := t.entries.all fun e => p e.2

theorem contains_iff {t : Table κ α} {k : κ} : t.contains k ↔ ∃ a, t.get? k = some a :=
  Option.isSome_iff_exists

theorem contains_congr {s t : Table κ α} {k : κ} (h : s.get? k = t.get? k) :
    s.contains k = t.contains k := by
  unfold contains
  rw [h]

theorem contains_map {β : Type} (f : α -> β) (t : Table κ α) (k : κ) :
    (t.map f).contains k = t.contains k := by
  rw [contains, get?_map, Option.isSome_map]
  rfl

theorem keys_nodup [Std.LawfulEqOrd κ] (t : Table κ α) : t.keys.Nodup := by
  unfold keys
  rw [List.nodup_iff_pairwise_ne, List.pairwise_map]
  apply t.sorted.imp
  intro a b hlt heq
  have hself : compare b.1 b.1 = .eq := Std.ReflCmp.compare_self
  rw [heq, hself] at hlt
  cases hlt

section Lookups

variable [Std.TransOrd κ] [Std.LawfulEqOrd κ]

theorem get?_insert [DecidableEq κ] (t : Table κ α) (j k : κ) (a : α) :
    (t.insert k a).get? j = if j = k then some a else t.get? j := by
  by_cases h : j = k
  · rw [h, get?_insert_self, if_pos rfl]
  · rw [get?_insert_of_ne t h, if_neg h]

theorem contains_insert [DecidableEq κ] (t : Table κ α) (j k : κ) (a : α) :
    (t.insert k a).contains j = (decide (j = k) || t.contains j) := by
  unfold contains
  rw [get?_insert]
  by_cases h : j = k
  · simp [h]
  · simp [h]

theorem contains_insert_of_contains [DecidableEq κ] {t : Table κ α} {j : κ} (k : κ) (a : α)
    (h : t.contains j) : (t.insert k a).contains j := by
  rw [contains_insert, h, Bool.or_true]

theorem all_iff {p : α -> Bool} {t : Table κ α} :
    t.all p ↔ ∀ k a, t.get? k = some a -> p a := by
  unfold all
  rw [List.all_eq_true]
  constructor
  · intro h k a hget
    exact h (k, a) (mem_entries_iff.mpr hget)
  · intro h e he
    exact h e.1 e.2 (mem_entries_iff.mp he)

theorem forall_insert [DecidableEq κ] {P : α -> Prop} {t : Table κ α} {k : κ} {a : α}
    (ht : ∀ j b, t.get? j = some b -> P b) (ha : P a) :
    ∀ j b, (t.insert k a).get? j = some b -> P b := by
  intro j b hget
  rw [get?_insert] at hget
  by_cases h : j = k
  · rw [if_pos h] at hget
    cases hget
    exact ha
  · rw [if_neg h] at hget
    exact ht j b hget

theorem all_insert [DecidableEq κ] {p : α -> Bool} {t : Table κ α} {a : α} (k : κ)
    (ht : t.all p) (ha : p a) : (t.insert k a).all p := by
  rw [all_iff] at ht ⊢
  exact forall_insert ht ha

theorem mem_keys_iff {t : Table κ α} {k : κ} : k ∈ t.keys ↔ t.contains k := by
  unfold keys
  rw [List.mem_map, contains_iff]
  constructor
  · rintro ⟨⟨j, a⟩, hmem, rfl⟩
    exact ⟨a, mem_entries_iff.mp hmem⟩
  · rintro ⟨a, hget⟩
    exact ⟨(k, a), mem_entries_iff.mpr hget, rfl⟩

/-!
Entries that are added one after the other are found if each has a key of its own.
-/

theorem get?_foldl_insert_of_notMem {es : List (κ × α)} {k : κ} (h : k ∉ es.map Prod.fst)
    (t : Table κ α) : (es.foldl (fun t e => t.insert e.1 e.2) t).get? k = t.get? k := by
  induction es generalizing t with
  | nil => rfl
  | cons e rest ih =>
      rw [List.map_cons, List.mem_cons, not_or] at h
      rw [List.foldl_cons, ih h.2, get?_insert_of_ne t h.1]

theorem get?_foldl_insert_of_mem {es : List (κ × α)} {k : κ} {a : α}
    (hdistinct : (es.map Prod.fst).Nodup) (h : (k, a) ∈ es) (t : Table κ α) :
    (es.foldl (fun t e => t.insert e.1 e.2) t).get? k = some a := by
  induction es generalizing t with
  | nil => cases h
  | cons e rest ih =>
      rw [List.map_cons, List.nodup_cons] at hdistinct
      rw [List.foldl_cons]
      rcases List.mem_cons.mp h with rfl | hrest
      · rw [get?_foldl_insert_of_notMem hdistinct.1, get?_insert_self]
      · exact ih hdistinct.2 hrest _

theorem get?_ofList {es : List (κ × α)} (hdistinct : (es.map Prod.fst).Nodup) {k : κ} {a : α} :
    (ofList es).get? k = some a ↔ (k, a) ∈ es := by
  constructor
  · intro h
    by_cases hk : k ∈ es.map Prod.fst
    · rcases List.mem_map.mp hk with ⟨⟨j, b⟩, hmem, rfl⟩
      rw [ofList, get?_foldl_insert_of_mem hdistinct hmem] at h
      cases h
      exact hmem
    · rw [ofList, get?_foldl_insert_of_notMem hk] at h
      cases h
  · intro h
    exact get?_foldl_insert_of_mem hdistinct h empty

theorem keys_congr {s t : Table κ α} (h : ∀ k, s.contains k = t.contains k) : s.keys = t.keys := by
  have hkeys (u : Table κ α) : (u.map fun _ => ()).keys = u.keys := by
    simp only [keys, map, List.map_map, Function.comp_def]
  have hunits : (s.map fun _ => ()) = t.map fun _ => () := by
    apply ext_get?
    intro k
    have hk := h k
    simp only [contains] at hk
    rw [get?_map, get?_map]
    cases hs : s.get? k with
    | none =>
        cases ht : t.get? k with
        | none => rfl
        | some b => simp [hs, ht] at hk
    | some a =>
        cases ht : t.get? k with
        | none => simp [hs, ht] at hk
        | some b => rfl
  rw [← hkeys s, hunits, hkeys t]

end Lookups

/-!
## Totals
-/

section Lists

variable {ι β : Type} {f g : β -> Nat}

def totalOf (f : β -> Nat) : List (ι × β) -> Nat
  | [] => 0
  | e :: rest => f e.2 + totalOf f rest

theorem totalOf_le_totalOf (h : ∀ a, f a ≤ g a) (es : List (ι × β)) :
    totalOf f es ≤ totalOf g es := by
  induction es with
  | nil => exact Nat.le_refl _
  | cons e rest ih => exact Nat.add_le_add (h e.2) ih

theorem totalOf_append (f : β -> Nat) (es ds : List (ι × β)) :
    totalOf f (es ++ ds) = totalOf f es + totalOf f ds := by
  induction es with
  | nil => exact (Nat.zero_add _).symm
  | cons e rest ih => rw [List.cons_append, totalOf, totalOf, ih, Nat.add_assoc]

theorem le_totalOf {e : ι × β} {es : List (ι × β)} (h : e ∈ es) : f e.2 ≤ totalOf f es := by
  induction es with
  | nil => cases h
  | cons d rest ih =>
      rcases List.mem_cons.mp h with rfl | hrest
      · exact Nat.le_add_right _ _
      · exact Nat.le_add_left_of_le (ih hrest)

end Lists

def total (f : α -> Nat) (t : Table κ α) : Nat := totalOf f t.entries

theorem total_le_total {f g : α -> Nat} (h : ∀ a, f a ≤ g a) (t : Table κ α) :
    t.total f ≤ t.total g :=
  totalOf_le_totalOf h t.entries

section Totals

variable [Std.TransOrd κ] [Std.LawfulEqOrd κ] {f : α -> Nat}

theorem le_total {t : Table κ α} {k : κ} {a : α} (h : t.get? k = some a) : f a ≤ t.total f :=
  le_totalOf (mem_entries_iff.mpr h)

theorem totalOf_place (f : α -> Nat) (k : κ) (a : α) {es : List (κ × α)}
    (h : es.Pairwise fun a b => compare a.1 b.1 = .lt) :
    totalOf f (place k a es) + ((lookup k es).map f).getD 0 = totalOf f es + f a := by
  induction es with
  | nil =>
      show f a + 0 + 0 = 0 + f a
      omega
  | cons d rest ih =>
      obtain ⟨j, b⟩ := d
      have ⟨hj, hrest⟩ := List.pairwise_cons.mp h
      rw [place, lookup]
      cases hcompare : compare k j with
      | lt =>
          have hnone : lookup k rest = none :=
            lookup_eq_none fun e he => Std.TransCmp.lt_trans hcompare (hj e he)
          rw [if_neg (by decide), hnone]
          show f a + (f b + totalOf f rest) + 0 = f b + totalOf f rest + f a
          omega
      | eq =>
          rw [if_pos rfl]
          show f a + totalOf f rest + f b = f b + totalOf f rest + f a
          omega
      | gt =>
          have ih := ih hrest
          rw [if_neg (by decide)]
          show f b + totalOf f (place k a rest) + _ = f b + totalOf f rest + f a
          omega

theorem total_insert (f : α -> Nat) (t : Table κ α) (k : κ) (a : α) :
    (t.insert k a).total f + ((t.get? k).map f).getD 0 = t.total f + f a :=
  totalOf_place f k a t.sorted

theorem total_insert_of_get? {t : Table κ α} {k : κ} {b : α} (h : t.get? k = some b) (a : α) :
    (t.insert k a).total f + f b = t.total f + f a := by
  have hinsert := total_insert f t k a
  rw [h] at hinsert
  exact hinsert

theorem total_insert_of_contains {t : Table κ α} {k : κ} (h : t.contains k = false) (a : α) :
    (t.insert k a).total f = t.total f + f a := by
  have hnone : t.get? k = none := Option.not_isSome_iff_eq_none.mp (Bool.eq_false_iff.mp h)
  have hinsert := total_insert f t k a
  rw [hnone] at hinsert
  exact hinsert

end Totals

end Table
end PushValue
