import PushValue.Fraction.Text
import PushValue.Object.Kind

/-!
# Objects

An object is a tree: plain data at the leaves, and nodes that have a kind and
list their parts.  Nothing forces the parts of a node to be of the sort that its
kind asks for.  Sequences and maps inside objects are nodes as well; the entries of
a map are kept in the order of their keys.

Each object has a code, a list of numbers from which it can be read back.  Equality
and order of objects are those of their codes.
-/

namespace PushValue

inductive Scalar where
  | integer (value : Int)
  | text (value : String)
  | boolean (value : Bool)
  /-- A number that counts as a fraction, even if it is whole. -/
  | fraction (value : Fraction)
  | null
deriving DecidableEq

inductive Object where
  | scalar (s : Scalar)
  | node (kind : Kind) (parts : List Object)

instance : Inhabited Object := ⟨.scalar .null⟩

def Scalar.title : Scalar -> String
  | integer _ => "int"
  | text _ => "str"
  | boolean _ => "bool"
  | fraction _ => "float"
  | null => "NoneType"

def Scalar.plainText : Scalar -> String
  | integer n => toString n
  | text x => x
  | boolean true => "True"
  | boolean false => "False"
  | fraction f => f.text
  | null => "None"

/-- A part that was asked of an object that has none of that name. -/
structure Lack where
  /-- The title of the object's kind. -/
  title : String
  part : String
deriving DecidableEq

namespace Lack

def message (l : Lack) : String :=
  "'" ++ l.title ++ "' object has no attribute '" ++ l.part ++ "'"

end Lack

/-!
## Plain numbers

Whole numbers, truth values and fractions are the same if they have the same value; a
truth value counts as one or zero.
-/

namespace Scalar

/-- The sign and the size of a number, the size as a multiple of a power of two. -/
def magnitude? : Scalar -> Option (Int × Int)
  | integer n => some (n, 0)
  | boolean b => some (b.toNat, 0)
  | fraction (.finite negative mantissa exponent) =>
      some (if negative then -(mantissa : Int) else mantissa, exponent)
  | _ => none

def isSame (a b : Scalar) : Bool :=
  match a.magnitude?, b.magnitude? with
  | some (m, d), some (n, e) =>
      m * Int.pow 2 d.toNat * Int.pow 2 (-e).toNat == n * Int.pow 2 e.toNat * Int.pow 2 (-d).toNat
  | _, _ => a == b && a != fraction .undefined

end Scalar

/-!
## Codes

No code is the beginning of another one, so codes may be put one after the other
and still be told apart.
-/

namespace Scalar

/-- A text is coded by its characters, each moved up by one, and a zero at the end. -/
def textCode : List Char -> List Nat
  | [] => [0]
  | c :: cs => (c.toNat + 1) :: textCode cs

/-- A whole number is coded by its sign and its distance from the first number of that sign. -/
def intCode : Int -> List Nat
  | .ofNat n => [0, n]
  | .negSucc n => [1, n]

def fractionCode : Fraction -> List Nat
  | .finite negative mantissa exponent => 0 :: negative.toNat :: mantissa :: intCode exponent
  | .infinite negative => [1, negative.toNat]
  | .undefined => [2]

def code : Scalar -> List Nat
  | integer n => 0 :: intCode n
  | text x => 1 :: textCode x.toList
  | boolean b => [2, b.toNat]
  | fraction f => 3 :: fractionCode f
  | null => [4]

theorem textCode_append_inj {cs ds : List Char} {s t : List Nat}
    (h : textCode cs ++ s = textCode ds ++ t) : cs = ds ∧ s = t := by
  induction cs generalizing ds with
  | nil =>
      cases ds with
      | nil => exact ⟨rfl, by simpa [textCode] using h⟩
      | cons d ds => simp [textCode] at h
  | cons c cs ih =>
      cases ds with
      | nil => simp [textCode] at h
      | cons d ds =>
          simp only [textCode, List.cons_append, List.cons.injEq, Nat.add_right_cancel_iff] at h
          have ⟨hcs, hst⟩ := ih h.2
          exact ⟨by rw [Char.toNat_inj.mp h.1, hcs], hst⟩

theorem intCode_append_inj {m n : Int} {s t : List Nat}
    (h : intCode m ++ s = intCode n ++ t) : m = n ∧ s = t := by
  cases m <;> cases n <;> simp_all [intCode]

theorem toNat_inj {p q : Bool} (h : p.toNat = q.toNat) : p = q := by
  cases p <;> cases q <;> simp_all

theorem fractionCode_append_inj {a b : Fraction} {s t : List Nat}
    (h : fractionCode a ++ s = fractionCode b ++ t) : a = b ∧ s = t := by
  cases a <;> cases b <;>
    simp only [fractionCode, List.cons_append, List.nil_append, List.cons.injEq, true_and] at h
  case finite.finite _ _ _ _ _ _ =>
      have ⟨he, hst⟩ := intCode_append_inj h.2.2
      exact ⟨by rw [toNat_inj h.1, h.2.1, he], hst⟩
  case infinite.infinite _ _ => exact ⟨by rw [toNat_inj h.1], h.2⟩
  case undefined.undefined => exact ⟨rfl, h⟩
  all_goals exact absurd h.1 (by decide)

theorem code_append_inj {a b : Scalar} {s t : List Nat} (h : a.code ++ s = b.code ++ t) :
    a = b ∧ s = t := by
  cases a <;> cases b <;>
    simp only [code, List.cons_append, List.nil_append, List.cons.injEq, true_and] at h
  case integer.integer m n =>
      have ⟨hmn, hst⟩ := intCode_append_inj h
      exact ⟨by rw [hmn], hst⟩
  case text.text x y =>
      have ⟨hxy, hst⟩ := textCode_append_inj h
      exact ⟨by rw [String.toList_inj.mp hxy], hst⟩
  case boolean.boolean p q => exact ⟨by rw [toNat_inj h.1], h.2⟩
  case fraction.fraction f g =>
      have ⟨hfg, hst⟩ := fractionCode_append_inj h
      exact ⟨by rw [hfg], hst⟩
  case null.null => exact ⟨rfl, h⟩
  all_goals exact absurd h.1 (by decide)

end Scalar

namespace Object

mutual

def code : Object -> List Nat
  | scalar s => 0 :: s.code
  | node k os => 1 :: k.ctorIdx :: codeAll os

def codeAll : List Object -> List Nat
  | [] => [0]
  | o :: os => 1 :: (o.code ++ codeAll os)

end

theorem ctorIdx_inj {j k : Kind} (h : j.ctorIdx = k.ctorIdx) : j = k := by
  rw [<- Kind.ofNat_ctorIdx j, h, Kind.ofNat_ctorIdx]

mutual

theorem code_append_inj (a b : Object) {s t : List Nat} (h : a.code ++ s = b.code ++ t) :
    a = b ∧ s = t := by
  match a, b with
  | scalar a, scalar b =>
      simp only [code, List.cons_append, List.cons.injEq, true_and] at h
      have ⟨hab, hst⟩ := Scalar.code_append_inj h
      exact ⟨by rw [hab], hst⟩
  | node j os, node k ps =>
      simp only [code, List.cons_append, List.cons.injEq, true_and] at h
      have ⟨hps, hst⟩ := codeAll_append_inj os ps h.2
      exact ⟨by rw [ctorIdx_inj h.1, hps], hst⟩
  | scalar _, node _ _ => simp [code] at h
  | node _ _, scalar _ => simp [code] at h

theorem codeAll_append_inj (os ps : List Object) {s t : List Nat}
    (h : codeAll os ++ s = codeAll ps ++ t) : os = ps ∧ s = t := by
  match os, ps with
  | [], [] => exact ⟨rfl, by simpa [codeAll] using h⟩
  | o :: os, p :: ps =>
      simp only [codeAll, List.cons_append, List.append_assoc, List.cons.injEq, true_and] at h
      have ⟨hop, h⟩ := code_append_inj o p h
      have ⟨hps, hst⟩ := codeAll_append_inj os ps h
      exact ⟨by rw [hop, hps], hst⟩
  | [], _ :: _ => simp [codeAll] at h
  | _ :: _, [] => simp [codeAll] at h

end

theorem code_inj {a b : Object} : a.code = b.code ↔ a = b :=
  ⟨fun h => (@code_append_inj a b [] [] (by rw [h])).1, fun h => h ▸ rfl⟩

instance : DecidableEq Object := fun _ _ => decidable_of_iff _ code_inj

instance : Ord Object := ⟨compareOn code⟩

instance : Std.TransOrd Object := inferInstanceAs (Std.TransCmp (compareOn code))

instance : Std.LawfulEqOrd Object where
  compare_self {a} := @Std.ReflCmp.compare_self _ compare _ a.code
  eq_of_compare h := code_inj.mp (Std.LawfulEqOrd.eq_of_compare h)

def isSame : Object -> Object -> Bool
  | scalar a, scalar b => a.isSame b
  | a, b => a == b

/-!
## Parts
-/

def title : Object -> String
  | scalar s => s.title
  | node k _ => k.title

def tiers : Object -> List Kind
  | scalar _ => []
  | node k _ => k.tiers

def hasPart (name : String) : Object -> Bool
  | scalar _ => false
  | node k _ => k.parts.any fun part => part.1 == name

/-- The first of the named parts that an object does not have. -/
def lack (o : Object) : List String -> Lack
  | [] => ⟨o.title, ""⟩
  | [name] => ⟨o.title, name⟩
  | name :: rest => if o.hasPart name then o.lack rest else ⟨o.title, name⟩

/-!
## Collections
-/

def sequence (os : List Object) : Object := node .sequence os

def text (x : String) : Object := scalar (.text x)

def flag (b : Bool) : Object := scalar (.boolean b)

/-- A general fault with an optional detail, told from all others by a number. -/
def generalFault (k : Kind) (detail : Option String) (identity : Nat) : Object :=
  node k [
    match detail with
    | some x => text x
    | none => scalar .null,
    scalar (.integer identity)]

def optionalText : Option String -> Object
  | some x => text x
  | none => scalar .null

/-- A map with the given entries, which are in the order of their keys. -/
def mapping (entries : List (Object × Object)) : Object :=
  node .mapping (entries.map fun e => node .entry [e.1, e.2])

def entries : List Object -> List (Object × Object)
  | node .entry [k, o] :: rest => (k, o) :: entries rest
  | _ => []

def namedEntries : List Object -> List (String × Object)
  | node .entry [scalar (.text x), o] :: rest => (x, o) :: namedEntries rest
  | _ => []

end Object

end PushValue
