import PushValue.Table.Basic

/-!
# Look-ups in tables

Every operation on a table is described by the look-ups of its result.  Together
with `Table.ext_get?`, which says that look-ups determine a table, these
facts are all that later modules need to know about the entry lists.
-/

namespace PushValue
namespace Table

variable {κ α β : Type} [Ord κ]

/-!
## Entry lists
-/

private theorem compare_ne_eq_of_ne [Std.LawfulEqOrd κ] {j k : κ} (h : j ≠ k) :
    compare j k ≠ .eq :=
  fun heq => h (Std.LawfulEqOrd.eq_of_compare heq)

theorem lookup_place_self [Std.LawfulEqOrd κ] (k : κ) (a : α)
    (es : List (κ × α)) : lookup k (place k a es) = some a := by
  induction es with
  | nil => simp [place, lookup]
  | cons d rest ih =>
      obtain ⟨j, b⟩ := d
      unfold place
      split
      · simp [lookup]
      · simp [lookup]
      next hgt => simp [lookup, hgt, ih]

theorem lookup_place_of_ne [Std.LawfulEqOrd κ] {j k : κ} (h : j ≠ k) (a : α)
    (es : List (κ × α)) : lookup j (place k a es) = lookup j es := by
  have hjk := compare_ne_eq_of_ne h
  induction es with
  | nil => simp [place, lookup, hjk]
  | cons d rest ih =>
      obtain ⟨i, b⟩ := d
      unfold place
      split
      · simp [lookup, hjk]
      next heq =>
        cases Std.LawfulEqOrd.eq_of_compare heq
        simp [lookup, hjk]
      · simp [lookup, ih]

theorem lookup_eq_none [Std.LawfulEqOrd κ] {k : κ} {es : List (κ × α)}
    (h : ∀ e ∈ es, compare k e.1 = .lt) : lookup k es = none := by
  induction es with
  | nil => rfl
  | cons d rest ih =>
      obtain ⟨j, b⟩ := d
      have hj := h (j, b) List.mem_cons_self
      have hrest := ih fun e he => h e (List.mem_cons_of_mem _ he)
      simp only [lookup, hrest]
      simp_all

theorem mem_of_lookup_eq_some [Std.LawfulEqOrd κ] {k : κ} {a : α}
    {es : List (κ × α)} (h : lookup k es = some a) : (k, a) ∈ es := by
  induction es with
  | nil => simp [lookup] at h
  | cons d rest ih =>
      obtain ⟨j, b⟩ := d
      simp only [lookup] at h
      split at h
      next heq =>
        cases Std.LawfulEqOrd.eq_of_compare heq
        cases h
        exact List.mem_cons_self
      · exact List.mem_cons_of_mem _ (ih h)

theorem lookup_eq_some_of_mem [Std.TransOrd κ] [Std.LawfulEqOrd κ] {k : κ} {a : α}
    {es : List (κ × α)} (hs : es.Pairwise fun a b => compare a.1 b.1 = .lt)
    (h : (k, a) ∈ es) : lookup k es = some a := by
  induction es with
  | nil => cases h
  | cons d rest ih =>
      obtain ⟨j, b⟩ := d
      have ⟨hj, hrest⟩ := List.pairwise_cons.mp hs
      rcases List.mem_cons.mp h with h | h
      · cases h
        simp [lookup]
      · have hlt : compare j k = .lt := hj _ h
        have hgt : compare k j = .gt := Std.OrientedCmp.gt_iff_lt.mpr hlt
        simp [lookup, hgt, ih hrest h]

/-!
## Tables
-/

@[simp]
theorem get?_empty (k : κ) : (empty : Table κ α).get? k = none := rfl

@[simp]
theorem get?_insert_self [Std.TransOrd κ] [Std.LawfulEqOrd κ] (t : Table κ α) (k : κ)
    (a : α) : (t.insert k a).get? k = some a :=
  lookup_place_self k a t.entries

theorem get?_insert_of_ne [Std.TransOrd κ] [Std.LawfulEqOrd κ] (t : Table κ α)
    {j k : κ} (h : j ≠ k) (a : α) : (t.insert k a).get? j = t.get? j :=
  lookup_place_of_ne h a t.entries

theorem mem_entries_iff [Std.TransOrd κ] [Std.LawfulEqOrd κ] {t : Table κ α} {k : κ}
    {a : α} : (k, a) ∈ t.entries ↔ t.get? k = some a :=
  ⟨lookup_eq_some_of_mem t.sorted, mem_of_lookup_eq_some⟩

private theorem entries_ext [Std.TransOrd κ] [Std.LawfulEqOrd κ]
    {es ds : List (κ × α)}
    (hes : es.Pairwise fun a b => compare a.1 b.1 = .lt)
    (hds : ds.Pairwise fun a b => compare a.1 b.1 = .lt)
    (h : ∀ k, lookup k es = lookup k ds) : es = ds := by
  induction es generalizing ds with
  | nil =>
      cases ds with
      | nil => rfl
      | cons d rest =>
          have := h d.1
          simp [lookup] at this
  | cons e es ih =>
      cases ds with
      | nil =>
          have := h e.1
          simp [lookup] at this
      | cons d ds =>
          obtain ⟨j, a⟩ := e
          obtain ⟨k, b⟩ := d
          have ⟨hj, hes'⟩ := List.pairwise_cons.mp hes
          have ⟨hk, hds'⟩ := List.pairwise_cons.mp hds
          have below (i : κ) (c : α) (cs : List (κ × α))
              (hi : ∀ e ∈ cs, compare i e.1 = .lt) :
              ∀ m, compare m i = .lt -> lookup m ((i, c) :: cs) = none := by
            intro m hm
            apply lookup_eq_none
            intro e he
            rcases List.mem_cons.mp he with rfl | he
            · exact hm
            · exact Std.TransCmp.lt_trans hm (hi e he)
          have hjk : j = k := by
            apply Std.LawfulEqOrd.eq_of_compare
            cases hcmp : compare j k with
            | eq => rfl
            | lt =>
                have := h j
                rw [below k b ds hk j hcmp] at this
                simp [lookup] at this
            | gt =>
                have := h k
                rw [below j a es hj k (Std.OrientedCmp.gt_iff_lt.mp hcmp)] at this
                simp [lookup] at this
          subst hjk
          have hab : a = b := by
            have := h j
            simpa [lookup] using this
          subst hab
          have htail : es = ds := by
            apply ih hes' hds'
            intro m
            by_cases hm : m = j
            · subst hm
              rw [lookup_eq_none hj, lookup_eq_none hk]
            · have := h m
              simpa [lookup, compare_ne_eq_of_ne hm] using this
          rw [htail]

/-- Look-ups determine a table. -/
theorem ext_get? [Std.TransOrd κ] [Std.LawfulEqOrd κ] {s t : Table κ α}
    (h : ∀ k, s.get? k = t.get? k) : s = t := by
  have hentries := entries_ext s.sorted t.sorted h
  cases s
  cases t
  cases hentries
  rfl

private theorem lookup_filter_self [Std.LawfulEqOrd κ] (k : κ) (es : List (κ × α)) :
    lookup k (es.filter fun e => compare e.1 k != .eq) = none := by
  induction es with
  | nil => rfl
  | cons d rest ih =>
      obtain ⟨j, b⟩ := d
      by_cases hjk : j = k
      · subst hjk
        simpa using ih
      · have hkj := compare_ne_eq_of_ne (Ne.symm hjk)
        simp [compare_ne_eq_of_ne hjk, lookup, hkj, ih]

private theorem lookup_filter_of_ne [Std.LawfulEqOrd κ] {j k : κ} (h : j ≠ k)
    (es : List (κ × α)) :
    lookup j (es.filter fun e => compare e.1 k != .eq) = lookup j es := by
  induction es with
  | nil => rfl
  | cons d rest ih =>
      obtain ⟨i, b⟩ := d
      by_cases hik : i = k
      · subst hik
        simpa [lookup, compare_ne_eq_of_ne h] using ih
      · simp [compare_ne_eq_of_ne hik, lookup, ih]

@[simp]
theorem get?_erase_self [Std.LawfulEqOrd κ] (t : Table κ α) (k : κ) :
    (t.erase k).get? k = none :=
  lookup_filter_self k t.entries

theorem get?_erase_of_ne [Std.LawfulEqOrd κ] (t : Table κ α) {j k : κ} (h : j ≠ k) :
    (t.erase k).get? j = t.get? j :=
  lookup_filter_of_ne h t.entries

theorem get?_map (f : α -> β) (t : Table κ α) (k : κ) :
    (t.map f).get? k = (t.get? k).map f := by
  obtain ⟨es, hes⟩ := t
  simp only [map, get?]
  clear hes
  induction es with
  | nil => rfl
  | cons d rest ih =>
      simp only [List.map_cons, lookup, ih]
      split <;> rfl

end Table
end PushValue
