import PushValue.Term.Basic

/-!
# Boxes by name

Box environments map names to boxes.  A box carries such an environment in its
turn, so the map is one of the term types and is kept as a list in name order.
Insertion keeps the order, and two maps built by insertion are equal as soon as
they have the same entries.
-/

namespace PushValue

namespace Boxes

def get? (x : String) : Boxes -> Option Box
  | nil => none
  | cons y b rest => if x = y then some b else rest.get? x

def insert (x : String) (b : Box) : Boxes -> Boxes
  | nil => cons x b nil
  | cons y c rest =>
      match compare x y with
      | .lt => cons x b (cons y c rest)
      | .eq => cons x b rest
      | .gt => cons y c (rest.insert x b)

/-- All boxes of both maps; where both have a name, the first map's box. -/
def union : Boxes -> Boxes -> Boxes
  | nil, base => base
  | cons x b rest, base => (rest.union base).insert x b

/-- The boxes that a box carries once it captured a scope: its own and those of the scope beneath
them.  In an empty scope there is nothing to capture. -/
def capture (own : Boxes) : Boxes -> Boxes
  | nil => own
  | scope => own.union scope

/-!
## Look-ups
-/

@[simp]
theorem get?_insert_self (x : String) (b : Box) (bs : Boxes) :
    (bs.insert x b).get? x = some b := by
  match bs with
  | nil => simp [insert, get?]
  | cons y c rest =>
      unfold insert
      split
      · simp [get?]
      · simp [get?]
      next hgt =>
        have hne : x ≠ y := fun h => by simp [h] at hgt
        simp [get?, hne, get?_insert_self x b rest]

theorem get?_insert_of_ne {x y : String} (h : x ≠ y) (b : Box) (bs : Boxes) :
    (bs.insert y b).get? x = bs.get? x := by
  match bs with
  | nil => simp [insert, get?, h]
  | cons z c rest =>
      unfold insert
      split
      · simp [get?, h]
      next heq =>
        cases Std.LawfulEqOrd.eq_of_compare heq
        simp [get?, h]
      · simp [get?, get?_insert_of_ne h b rest]

theorem get?_union (x : String) (bs base : Boxes) :
    (bs.union base).get? x = (bs.get? x).or (base.get? x) := by
  match bs with
  | nil => simp [union, get?]
  | cons y b rest =>
      by_cases h : x = y
      · simp [union, get?, h]
      · simp [union, get?, h, get?_insert_of_ne h, get?_union x rest base]

theorem get?_capture (x : String) (own scope : Boxes) :
    (own.capture scope).get? x = (own.get? x).or (scope.get? x) := by
  cases scope with
  | nil => simp [capture, get?]
  | cons y b rest => exact get?_union x own (cons y b rest)

end Boxes

end PushValue
