import PushValue.Symbol.Order

/-!
# Sort keys

A host that knows no order of symbols can sort them by keys made of plain data: the key of a
symbol is a row that begins with the number of its kind, and goes on with a number, a text or
the keys of its parts.  Rows are compared item by item.  Two numbers can be compared, and so
can two texts and two rows, but no two items of different kinds; so it has to be shown that
no such items ever meet.  The order of the keys is then that of the symbols.
-/

namespace PushValue

mutual

inductive SortKey where
  | integer (n : Int)
  | text (x : String)
  | row (items : SortKeys)
deriving DecidableEq

inductive SortKeys where
  | nil
  | cons (first : SortKey) (rest : SortKeys)
deriving DecidableEq

end

mutual

def SortKey.less? : SortKey -> SortKey -> Option Bool
  | .integer m, .integer n => some (m < n)
  | .text x, .text y => some (x < y)
  | .row ks, .row js => ks.less? js
  | _, _ => none

/-- The first items that differ decide; where there are none, the shorter row comes first. -/
def SortKeys.less? : SortKeys -> SortKeys -> Option Bool
  | .nil, .nil => some false
  | .nil, .cons _ _ => some true
  | .cons _ _, .nil => some false
  | .cons k ks, .cons j js => if k = j then ks.less? js else k.less? j

end

namespace SortKey

def listed (items : List SortKey) : SortKey := .row (items.foldr .cons .nil)

/-- Two keys that can be compared and are in the given order. -/
structure Compares (k j : SortKey) (o : Ordering) : Prop where
  same : k = j ↔ o = .eq
  less : k.less? j = some (decide (o = .lt))

namespace Compares

variable {k j : SortKey} {ks js : List SortKey} {o p : Ordering}

theorem integer (m n : Int) : Compares (.integer m) (.integer n) (compare m n) where
  same := by simp
  less := by simp [less?, Int.compare_eq_lt]

theorem natural (m n : Nat) : Compares (.integer m) (.integer n) (compare m n) where
  same := by simp only [integer.injEq, Int.natCast_inj, Nat.compare_eq_eq]
  less := by simp [less?, Nat.compare_eq_lt]

theorem text (x y : String) : Compares (.text x) (.text y) (compare x y) where
  same := by simp
  less := by
    have hlt : compare x y = .lt ↔ x < y := compareOfLessAndEq_eq_lt
    simp [less?, hlt]

theorem nil : Compares (listed []) (listed []) .eq where
  same := by simp
  less := rfl

theorem cons_of_ne (h : Compares k j o) (hne : o ≠ .eq) :
    Compares (listed (k :: ks)) (listed (j :: js)) o where
  same := by
    have hkj : k ≠ j := mt h.same.mp hne
    simp [listed, hkj, hne]
  less := by
    have hkj : k ≠ j := mt h.same.mp hne
    simp only [listed, List.foldr_cons, less?, SortKeys.less?, if_neg hkj]
    exact h.less

theorem cons (h : Compares k j o) (hrest : Compares (listed ks) (listed js) p) :
    Compares (listed (k :: ks)) (listed (j :: js)) (o.then p) := by
  by_cases ho : o = .eq
  · cases h.same.mpr ho
    cases ho
    exact {
      same := by simpa [listed] using hrest.same
      less := by simpa [listed, less?, SortKeys.less?] using hrest.less }
  · have hthen : o.then p = o := by
      cases o with
      | eq => exact absurd rfl ho
      | lt | gt => rfl
    rw [hthen]
    exact h.cons_of_ne ho

end Compares

end SortKey

namespace Symbol

open SortKey

/-- The sort key of a symbol.  A stray cannot be sorted, and what stands for its key is never
looked at. -/
def sortKey : Symbol -> SortKey
  | anonymous => listed [.integer 0]
  | number n => listed [.integer 1, .integer n]
  | name x => listed [.integer 2, .text x]
  | join l r => listed [.integer 3, l.sortKey, r.sortKey]
  | within o i => listed [.integer 4, o.sortKey, i.sortKey]
  | joinBy l m r => listed [.integer 5, l.sortKey, m.sortKey, r.sortKey]
  | mark s => listed [.integer (6 + s.rank : Nat)]
  | stray _ => listed []

/-- Whether a symbol comes before another one by their sort keys, if both have one and the two can
be compared. -/
def precedes? (s t : Symbol) : Option Bool :=
  if s.isProper && t.isProper then s.sortKey.less? t.sortKey else none

/-!
## The order of the keys
-/

variable {s t u : Symbol}

theorem sortKey_eq (h : s.isProper) : ∃ ks, s.sortKey = listed (.integer s.rank :: ks) := by
  cases s with
  | stray o => cases h
  | _ => exact ⟨_, rfl⟩

theorem compares_of_rank_ne (hs : s.isProper) (ht : t.isProper) (hne : s.rank ≠ t.rank) :
    Compares s.sortKey t.sortKey (cmp s t) := by
  rcases sortKey_eq hs with ⟨ks, hk⟩
  rcases sortKey_eq ht with ⟨js, hj⟩
  have hfirst : compare s.rank t.rank ≠ .eq := mt Nat.compare_eq_eq.mp hne
  rw [hk, hj, cmp_of_rank_ne hne]
  exact (Compares.natural s.rank t.rank).cons_of_ne hfirst

/-- The keys of symbols can be compared, and they are in the order of the symbols. -/
theorem compares_sortKey (hs : s.isProper) (ht : t.isProper) :
    Compares s.sortKey t.sortKey (cmp s t) := by
  induction s generalizing t with
  | anonymous =>
      cases t with
      | anonymous => exact (Compares.integer 0 0).cons .nil
      | _ => exact compares_of_rank_ne hs ht (by grind [rank])
  | number m =>
      cases t with
      | number n =>
          have hfields := (Compares.integer m n).cons .nil
          simpa [sortKey, cmp] using (Compares.integer 1 1).cons hfields
      | _ => exact compares_of_rank_ne hs ht (by grind [rank])
  | name x =>
      cases t with
      | name y =>
          have hfields := (Compares.text x y).cons .nil
          simpa [sortKey, cmp] using (Compares.integer 2 2).cons hfields
      | _ => exact compares_of_rank_ne hs ht (by grind [rank])
  | join l r ihl ihr =>
      cases t with
      | join l' r' =>
          simp only [isProper, Bool.and_eq_true] at hs ht
          have hfields := (ihl hs.1 ht.1).cons ((ihr hs.2 ht.2).cons .nil)
          simpa [sortKey, cmp] using (Compares.integer 3 3).cons hfields
      | _ => exact compares_of_rank_ne hs ht (by grind [rank])
  | within o i iho ihi =>
      cases t with
      | within o' i' =>
          simp only [isProper, Bool.and_eq_true] at hs ht
          have hfields := (iho hs.1 ht.1).cons ((ihi hs.2 ht.2).cons .nil)
          simpa [sortKey, cmp] using (Compares.integer 4 4).cons hfields
      | _ => exact compares_of_rank_ne hs ht (by grind [rank])
  | joinBy l m r ihl ihm ihr =>
      cases t with
      | joinBy l' m' r' =>
          simp only [isProper, Bool.and_eq_true] at hs ht
          have hfields := (ihl hs.1.1 ht.1.1).cons
            ((ihm hs.1.2 ht.1.2).cons ((ihr hs.2 ht.2).cons .nil))
          simpa [sortKey, cmp] using (Compares.integer 5 5).cons hfields
      | _ => exact compares_of_rank_ne hs ht (by grind [rank])
  | mark a =>
      cases t with
      | mark b =>
          simpa [sortKey, cmp, rank] using
            (Compares.natural (6 + a.rank) (6 + b.rank)).cons .nil
      | _ => exact compares_of_rank_ne hs ht (by grind [rank, Separator.rank_lt])
  | stray o => cases hs

theorem precedes?_eq (hs : s.isProper) (ht : t.isProper) :
    precedes? s t = some (decide (compare s t = .lt)) := by
  rw [precedes?, hs, ht]
  exact (compares_sortKey hs ht).less

/-!
## The laws of the order
-/

theorem precedes?_trichotomy (hs : s.isProper) (ht : t.isProper) :
    precedes? s t = some true ∧ s ≠ t ∧ precedes? t s = some false ∨
      precedes? s t = some false ∧ s = t ∧ precedes? t s = some false ∨
      precedes? s t = some false ∧ s ≠ t ∧ precedes? t s = some true := by
  rw [precedes?_eq hs ht, precedes?_eq ht hs]
  have hswap : compare t s = (compare s t).swap := cmp_swap t s
  have hsame : s = t ↔ compare s t = .eq := Std.compare_eq_iff_eq.symm
  rw [hswap, ne_eq, hsame]
  cases compare s t with
  | lt | eq | gt => simp

theorem precedes?_trans (hs : s.isProper) (ht : t.isProper) (hu : u.isProper)
    (hst : precedes? s t = some true) (htu : precedes? t u = some true) :
    precedes? s u = some true := by
  rw [precedes?_eq hs ht, Option.some.injEq, decide_eq_true_eq] at hst
  rw [precedes?_eq ht hu, Option.some.injEq, decide_eq_true_eq] at htu
  rw [precedes?_eq hs hu, Option.some.injEq, decide_eq_true_eq]
  exact cmp_lt_trans hst htu

end Symbol

end PushValue
