import PushValue.Symbol.Basic

/-!
# The order of symbols

Symbols are compared first by their kind and then field by field, from left to
right.  Numbers are compared as integers and names by code point.  Rounds visit
processes in this order and tables are printed in it, so it has to be a strict
total order: the instances at the end of this module say that it is one.  Strays
come after all symbols, in the order of objects.
-/

namespace PushValue

def Separator.rank : Separator -> Nat
  | dash => 0
  | underscore => 1
  | dot => 2
  | tick => 3

theorem Separator.rank_inj {a b : Separator} (h : a.rank = b.rank) : a = b := by
  cases a <;> cases b <;> first | rfl | contradiction

theorem Separator.rank_lt (s : Separator) : s.rank < 4 := by
  cases s <;> decide

namespace Symbol

/-- The place of a symbol's kind in the order; each mark is a kind of its own. -/
def rank : Symbol -> Nat
  | anonymous => 0
  | number _ => 1
  | name _ => 2
  | join _ _ => 3
  | within _ _ => 4
  | joinBy _ _ _ => 5
  | mark s => 6 + s.rank
  | stray _ => 10

def cmp : Symbol -> Symbol -> Ordering
  | number m, number n => compare m n
  | name x, name y => compare x y
  | join l r, join l' r' => (cmp l l').then (cmp r r')
  | within o i, within o' i' => (cmp o o').then (cmp i i')
  | joinBy l m r, joinBy l' m' r' =>
      (cmp l l').then ((cmp m m').then (cmp r r'))
  | stray o, stray o' => compare o o'
  | s, t => compare s.rank t.rank

instance : Ord Symbol := ⟨cmp⟩

/-!
## Laws

Symbols of different rank are ordered by rank.  Symbols of the same rank have
the same constructor, and then the comparison descends into the fields.
-/

theorem cmp_of_rank_ne {s t : Symbol} (h : s.rank ≠ t.rank) :
    cmp s t = compare s.rank t.rank := by
  cases s <;> cases t <;> first | rfl | exact absurd rfl h

theorem cmp_self (s : Symbol) : cmp s s = .eq := by
  induction s with
  | anonymous => rfl
  | number n => simp [cmp]
  | name x => simp [cmp]
  | join l r hl hr => simp [cmp, hl, hr]
  | within o i ho hi => simp [cmp, ho, hi]
  | joinBy l m r hl hm hr => simp [cmp, hl, hm, hr]
  | mark s => simp [cmp]
  | stray o => simp [cmp]

private theorem cmp_swap_of_rank_ne {s t : Symbol} (h : s.rank ≠ t.rank) :
    cmp s t = (cmp t s).swap := by
  rw [cmp_of_rank_ne h, cmp_of_rank_ne (Ne.symm h)]
  exact (Nat.compare_swap t.rank s.rank).symm

theorem cmp_swap (s t : Symbol) : cmp s t = (cmp t s).swap := by
  induction s generalizing t with
  | anonymous =>
      cases t with
      | anonymous => rfl
      | _ => exact cmp_swap_of_rank_ne (by grind [rank])
  | number m =>
      cases t with
      | number n => exact (Int.compare_swap n m).symm
      | _ => exact cmp_swap_of_rank_ne (by grind [rank])
  | name x =>
      cases t with
      | name y => exact @Std.OrientedCmp.eq_swap String compare _ x y
      | _ => exact cmp_swap_of_rank_ne (by grind [rank])
  | join l r hl hr =>
      cases t with
      | join l' r' => rw [cmp, cmp, hl, hr, Ordering.swap_then]
      | _ => exact cmp_swap_of_rank_ne (by grind [rank])
  | within o i ho hi =>
      cases t with
      | within o' i' => rw [cmp, cmp, ho, hi, Ordering.swap_then]
      | _ => exact cmp_swap_of_rank_ne (by grind [rank])
  | joinBy l m r hl hm hr =>
      cases t with
      | joinBy l' m' r' =>
          rw [cmp, cmp, hl, hm, hr, Ordering.swap_then, Ordering.swap_then]
      | _ => exact cmp_swap_of_rank_ne (by grind [rank])
  | mark a =>
      cases t with
      | mark b => exact (Nat.compare_swap (mark b).rank (mark a).rank).symm
      | _ => exact cmp_swap_of_rank_ne (by grind [rank, Separator.rank_lt])
  | stray o =>
      cases t with
      | stray o' => exact @Std.OrientedCmp.eq_swap Object compare _ o o'
      | _ => exact cmp_swap_of_rank_ne (by grind [rank, Separator.rank_lt])

theorem rank_eq_of_cmp_eq {s t : Symbol} (h : cmp s t = .eq) :
    s.rank = t.rank := by
  refine Decidable.byContradiction fun hne => ?_
  rw [cmp_of_rank_ne hne] at h
  exact hne (Nat.compare_eq_eq.mp h)

theorem rank_le_of_cmp_lt {s t : Symbol} (h : cmp s t = .lt) :
    s.rank ≤ t.rank := by
  by_cases hne : s.rank = t.rank
  · exact Nat.le_of_eq hne
  · rw [cmp_of_rank_ne hne] at h
    exact Nat.le_of_lt (Nat.compare_eq_lt.mp h)

theorem eq_of_cmp_eq {s t : Symbol} (h : cmp s t = .eq) : s = t := by
  have hrank := rank_eq_of_cmp_eq h
  induction s generalizing t with
  | anonymous =>
      cases t with
      | anonymous => rfl
      | _ => grind [rank]
  | number m =>
      cases t with
      | number n => rw [Int.compare_eq_eq.mp h]
      | _ => grind [rank]
  | name x =>
      cases t with
      | name y => rw [Std.LawfulEqOrd.eq_of_compare h]
      | _ => grind [rank]
  | join l r hl hr =>
      cases t with
      | join l' r' =>
          have ⟨h₁, h₂⟩ := Ordering.then_eq_eq.mp h
          rw [hl h₁ (rank_eq_of_cmp_eq h₁), hr h₂ (rank_eq_of_cmp_eq h₂)]
      | _ => grind [rank]
  | within o i ho hi =>
      cases t with
      | within o' i' =>
          have ⟨h₁, h₂⟩ := Ordering.then_eq_eq.mp h
          rw [ho h₁ (rank_eq_of_cmp_eq h₁), hi h₂ (rank_eq_of_cmp_eq h₂)]
      | _ => grind [rank]
  | joinBy l m r hl hm hr =>
      cases t with
      | joinBy l' m' r' =>
          have ⟨h₁, h₂⟩ := Ordering.then_eq_eq.mp h
          have ⟨h₂, h₃⟩ := Ordering.then_eq_eq.mp h₂
          rw [hl h₁ (rank_eq_of_cmp_eq h₁), hm h₂ (rank_eq_of_cmp_eq h₂),
            hr h₃ (rank_eq_of_cmp_eq h₃)]
      | _ => grind [rank]
  | mark a =>
      cases t with
      | mark b => rw [Separator.rank_inj (Nat.add_left_cancel hrank)]
      | _ => grind [rank, Separator.rank_lt]
  | stray o =>
      cases t with
      | stray o' => rw [Std.LawfulEqOrd.eq_of_compare h]
      | _ => grind [rank, Separator.rank_lt]

/-- Transitivity passes from two comparisons to their lexicographic product. -/
private theorem then_lt_trans {o₁ o₂ o₃ p₁ p₂ p₃ : Ordering}
    (hlt : o₁ = .lt -> o₂ = .lt -> o₃ = .lt)
    (hleft : o₁ = .eq -> o₃ = o₂) (hright : o₂ = .eq -> o₃ = o₁)
    (hp : p₁ = .lt -> p₂ = .lt -> p₃ = .lt)
    (h₁ : o₁.then p₁ = .lt) (h₂ : o₂.then p₂ = .lt) : o₃.then p₃ = .lt := by
  cases o₁ <;> cases o₂ <;> simp_all

private theorem cmp_left_of_eq {s t : Symbol} (u : Symbol) (h : cmp s t = .eq) :
    cmp s u = cmp t u := by
  rw [eq_of_cmp_eq h]

private theorem cmp_right_of_eq {t u : Symbol} (s : Symbol) (h : cmp t u = .eq) :
    cmp s u = cmp s t := by
  rw [eq_of_cmp_eq h]

private theorem cmp_lt_of_rank_ne {s t u : Symbol} (h₁ : cmp s t = .lt)
    (h₂ : cmp t u = .lt) (h : s.rank ≠ t.rank ∨ t.rank ≠ u.rank) :
    cmp s u = .lt := by
  have hst := rank_le_of_cmp_lt h₁
  have htu := rank_le_of_cmp_lt h₂
  rw [cmp_of_rank_ne (by omega)]
  exact Nat.compare_eq_lt.mpr (by omega)

theorem cmp_lt_trans {s t u : Symbol} (h₁ : cmp s t = .lt)
    (h₂ : cmp t u = .lt) : cmp s u = .lt := by
  induction s generalizing t u with
  | anonymous =>
      cases t with
      | anonymous => cases h₁
      | _ => exact cmp_lt_of_rank_ne h₁ h₂ (.inl (by grind [rank]))
  | number m =>
      cases t with
      | number n =>
          cases u with
          | number k =>
              exact @Std.TransCmp.lt_trans Int compare _ m n k h₁ h₂
          | _ => exact cmp_lt_of_rank_ne h₁ h₂ (.inr (by grind [rank]))
      | _ => exact cmp_lt_of_rank_ne h₁ h₂ (.inl (by grind [rank]))
  | name x =>
      cases t with
      | name y =>
          cases u with
          | name z =>
              exact @Std.TransCmp.lt_trans String compare _ x y z h₁ h₂
          | _ => exact cmp_lt_of_rank_ne h₁ h₂ (.inr (by grind [rank]))
      | _ => exact cmp_lt_of_rank_ne h₁ h₂ (.inl (by grind [rank]))
  | join l r hl hr =>
      cases t with
      | join l' r' =>
          cases u with
          | join l'' r'' =>
              exact then_lt_trans hl (cmp_left_of_eq l'') (cmp_right_of_eq l)
                hr h₁ h₂
          | _ => exact cmp_lt_of_rank_ne h₁ h₂ (.inr (by grind [rank]))
      | _ => exact cmp_lt_of_rank_ne h₁ h₂ (.inl (by grind [rank]))
  | within o i ho hi =>
      cases t with
      | within o' i' =>
          cases u with
          | within o'' i'' =>
              exact then_lt_trans ho (cmp_left_of_eq o'') (cmp_right_of_eq o)
                hi h₁ h₂
          | _ => exact cmp_lt_of_rank_ne h₁ h₂ (.inr (by grind [rank]))
      | _ => exact cmp_lt_of_rank_ne h₁ h₂ (.inl (by grind [rank]))
  | joinBy l m r hl hm hr =>
      cases t with
      | joinBy l' m' r' =>
          cases u with
          | joinBy l'' m'' r'' =>
              exact then_lt_trans hl (cmp_left_of_eq l'') (cmp_right_of_eq l)
                (then_lt_trans hm (cmp_left_of_eq m'') (cmp_right_of_eq m) hr)
                h₁ h₂
          | _ => exact cmp_lt_of_rank_ne h₁ h₂ (.inr (by grind [rank]))
      | _ => exact cmp_lt_of_rank_ne h₁ h₂ (.inl (by grind [rank]))
  | mark a =>
      cases t with
      | mark b =>
          cases u with
          | mark c =>
              exact @Std.TransCmp.lt_trans Nat compare _ _ _ _ h₁ h₂
          | _ => exact cmp_lt_of_rank_ne h₁ h₂ (.inr (by grind [rank, Separator.rank_lt]))
      | _ => exact cmp_lt_of_rank_ne h₁ h₂ (.inl (by grind [rank, Separator.rank_lt]))
  | stray o =>
      cases t with
      | stray o' =>
          cases u with
          | stray o'' => exact @Std.TransCmp.lt_trans Object compare _ o o' o'' h₁ h₂
          | _ => exact cmp_lt_of_rank_ne h₁ h₂ (.inr (by grind [rank, Separator.rank_lt]))
      | _ => exact cmp_lt_of_rank_ne h₁ h₂ (.inl (by grind [rank, Separator.rank_lt]))

theorem cmp_isLE_trans {s t u : Symbol} (h₁ : (cmp s t).isLE)
    (h₂ : (cmp t u).isLE) : (cmp s u).isLE := by
  rcases Ordering.isLE_iff_eq_lt_or_eq_eq.mp h₁ with hlt | heq
  · rcases Ordering.isLE_iff_eq_lt_or_eq_eq.mp h₂ with hlt' | heq'
    · exact Ordering.isLE_of_eq_lt (cmp_lt_trans hlt hlt')
    · rwa [cmp_right_of_eq s heq']
  · rwa [cmp_left_of_eq u heq]

instance : Std.TransOrd Symbol where
  eq_swap := cmp_swap _ _
  isLE_trans := cmp_isLE_trans

instance : Std.LawfulEqOrd Symbol where
  compare_self := cmp_self _
  eq_of_compare := eq_of_cmp_eq

end Symbol
end PushValue
