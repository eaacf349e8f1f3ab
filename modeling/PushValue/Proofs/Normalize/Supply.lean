import Mathlib.Data.List.Nodup
import PushValue.Proofs.Normalize.Counting
import PushValue.Proofs.Numerals

/-!
# How long a supply lasts

Normalization of a well-sorted term without return markers fails for want of names only.  It draws
one name for each operand and no other, so a list of names is enough exactly if it has that many,
and a counter moves on by that number.
-/

namespace PushValue

/-!
## Names of a counter
-/

namespace NameSupply

variable {base : String}

theorem numbered_injective {i j : Int} (h : numbered base i = numbered base j) : i = j := by
  -- The index is read back from the text behind the base.
  have htext : toString i = toString j := (String.append_right_inj base).mp h
  have hread := Text.integer?_toString i
  rw [htext, Text.integer?_toString j] at hread
  exact (Option.some.inj hread).symm

def numberedFrom (base : String) (index : Int) (n : Nat) : List String :=
  (List.range n).map fun j : Nat => numbered base (index + (j : Int))

theorem nodup_numberedFrom (base : String) (index : Int) (n : Nat) :
    (numberedFrom base index n).Nodup := by
  apply List.Nodup.map _ List.nodup_range
  intro i j h
  have hij := numbered_injective h
  omega

theorem length_numberedFrom (base : String) (index : Int) (n : Nat) :
    (numberedFrom base index n).length = n := by
  rw [numberedFrom, List.length_map, List.length_range]

theorem take_counter (base : String) (index : Int) (n : Nat) :
    (counter base index).take n = (numberedFrom base index n, counter base (index + n)) := by
  induction n generalizing index with
  | zero => simp [take, numberedFrom]
  | succ n ih =>
      have hnext (j : Int) : index + 1 + j = index + (j + 1) := by omega
      simp [take, next?, ih, numberedFrom, List.range_succ_eq_map, hnext, Function.comp_def]

theorem gives_counter (base : String) (index : Int) (n : Nat) :
    (counter base index).Gives (numberedFrom base index n) (counter base (index + n)) := by
  rw [Gives, length_numberedFrom, take_counter]

end NameSupply

/-!
## Want of names
-/

/-- A step of normalization that fails only for want of names. -/
def Hoist.Starves {α : Type} (m : Hoist α) : Prop :=
  ∀ supply err, m supply = .error err -> err = .namesExhausted

namespace Hoist.Starves

variable {α β : Type} {m : Hoist α} {f : α -> Hoist β}

theorem pure {a : α} : Starves (Pure.pure a : Hoist α) := by
  intro supply err h
  cases h

theorem fresh : Starves Hoist.fresh := by
  intro supply err h
  unfold Hoist.fresh at h
  cases hnext : supply.next? with
  | none =>
      rw [hnext] at h
      cases h
      rfl
  | some drawn =>
      rw [hnext] at h
      cases h

theorem bind (hm : Starves m) (hf : ∀ a, Starves (f a)) : Starves (m >>= f) := by
  intro supply err h
  change (m supply >>= fun out => f out.1 out.2) = .error err at h
  cases hrun : m supply with
  | error err' =>
      rw [hrun] at h
      cases h
      exact hm supply err hrun
  | ok out =>
      rw [hrun] at h
      exact hf out.1 out.2 err h

end Hoist.Starves

section Starving

open Hoist

mutual

theorem Value.hoist_starves : (v : Value) -> v.passes .written -> Starves v.hoist
  | .number _, _ | .symbol _, _ | .pointer _, _ | .process _, _ | .variable _, _ => .pure
  | .variant l p, h => by
      have h := Bool.and_eq_true_iff.mp h
      exact .bind (l.hoist_starves h.1) fun _ => .bind (p.hoist_starves h.2) fun _ => .pure
  | .record fs, h => .bind (fs.hoist_starves h) fun _ => .pure
  | .extend b l v, h => by
      simp only [Value.passes, Bool.and_eq_true] at h
      exact .bind (b.hoist_starves h.1.1) fun _ => .bind (l.hoist_starves h.1.2) fun _ =>
        .bind (v.hoist_starves h.2) fun _ => .pure
  | .box b, h => .bind (b.hoist_starves h) fun _ => .pure
  | .operand e, h =>
      .bind (e.hoist_starves (Bool.and_eq_true_iff.mp h).2) fun _ => .bind .fresh fun _ => .pure

theorem Fields.hoist_starves : (fs : Fields) -> fs.passes .written -> Starves fs.hoist
  | .nil, _ => .pure
  | .cons l v rest, h => by
      simp only [Fields.passes, Bool.and_eq_true] at h
      exact .bind (l.hoist_starves h.1.1) fun _ => .bind (v.hoist_starves h.1.2) fun _ =>
        .bind (rest.hoist_starves h.2) fun _ => .pure

theorem Box.hoist_starves : (b : Box) -> b.passes .written -> Starves b.hoist
  | .mk code _ _, h => .bind (code.hoist_starves (Bool.and_eq_true_iff.mp h).1) fun _ => .pure

theorem Computation.hoist_starves : (e : Computation) -> e.passes .written -> Starves e.hoist
  | .hole, _ => .pure
  | .ret v, h | .extract v, h | .get v, h | .link v, h => .bind (v.hoist_starves h) fun _ => .pure
  | .put a b, h | .assert a _ b, h => by
      have h := Bool.and_eq_true_iff.mp h
      exact .bind (a.hoist_starves h.1) fun _ => .bind (b.hoist_starves h.2) fun _ => .pure
  | .nest v e, h | .spawn v e, h => by
      have h := Bool.and_eq_true_iff.mp h
      exact .bind (v.hoist_starves h.1) fun _ => .bind (e.hoist_starves h.2) fun _ => .pure
  | .apply e v, h | .project e v, h => by
      have h := Bool.and_eq_true_iff.mp h
      exact .bind (v.hoist_starves h.2) fun _ => .bind (e.hoist_starves h.1) fun _ => .pure
  | .lambda _ e, h => .bind (e.hoist_starves (Bool.and_eq_true_iff.mp h).2) fun _ => .pure
  | .bind _ e₁ e₂, h | .bindBox _ e₁ e₂, h => by
      simp only [Computation.passes, Bool.and_eq_true] at h
      exact .bind (e₁.hoist_starves h.1.2) fun _ => .bind (e₂.hoist_starves h.2) fun _ => .pure
  | .switch v cs, h => by
      have h := Bool.and_eq_true_iff.mp h
      exact .bind (v.hoist_starves h.1) fun _ => .bind (cs.hoist_starves h.2) fun _ => .pure
  | .branches bs, h => .bind (bs.hoist_starves h) fun _ => .pure

theorem Cases.hoist_starves : (cs : Cases) -> cs.passes .written -> Starves cs.hoist
  | .nil, _ => .pure
  | .cons l _ e rest, h => by
      simp only [Cases.passes, Bool.and_eq_true] at h
      exact .bind (l.hoist_starves h.1.1.1) fun _ => .bind (e.hoist_starves h.1.2) fun _ =>
        .bind (rest.hoist_starves h.2) fun _ => .pure

theorem Branches.hoist_starves : (bs : Branches) -> bs.passes .written -> Starves bs.hoist
  | .nil, _ => .pure
  | .cons l e rest, h => by
      simp only [Branches.passes, Bool.and_eq_true] at h
      exact .bind (l.hoist_starves h.1.1) fun _ => .bind (e.hoist_starves h.1.2) fun _ =>
        .bind (rest.hoist_starves h.2) fun _ => .pure

end

end Starving

/-!
## Names that normalization draws
-/

namespace Computation

variable {e e' : Computation} {supply rest : NameSupply} {names : List String}

/-- Normalization comes to the same result with any supply that begins with the same names, as many
as there are operands. -/
theorem normalizes_with (he : e.passes .written) (hlength : names.length = e.operandCount) :
    ∃ e', ∀ supply rest, supply.Gives names rest -> e.normalize supply = .ok (e', rest) := by
  rcases @exists_hoists True e he names hlength with ⟨hoisted, bs, hhoists⟩
  exact ⟨hoisted.close bs, fun _ _ hgives => hhoists.normalize_eq hgives⟩

theorem length_of_hoists {mixed : Prop} {bs : List Binding} (he : e.passes .written)
    (h : e.Hoists mixed names e' bs) : names.length = e.operandCount := by
  -- With more names behind those that are drawn, as many are left over as there were more.
  let more := List.replicate e.operandCount ""
  have hlength : ((names ++ more).take e.operandCount).length = e.operandCount := by
    rw [List.length_take, List.length_append, List.length_replicate]
    omega
  rcases @exists_hoists mixed e he _ hlength with ⟨hoisted, cs, hhoists⟩
  have hrun := h.runs _ _ (NameSupply.gives_listed names more)
  have hrun' := hhoists.runs _ _ (NameSupply.gives_listed_take (names ++ more) e.operandCount)
  rw [hrun] at hrun'
  injection hrun' with hout
  have hleft : more = (names ++ more).drop e.operandCount :=
    NameSupply.listed.inj (congrArg Prod.snd hout)
  have hcount := congrArg List.length hleft
  rw [List.length_drop, List.length_append, List.length_replicate] at hcount
  omega

theorem gives_of_normalize (he : e.passes .written) (h : e.normalize supply = .ok (e', rest)) :
    ∃ names, supply.Gives names rest ∧ names.length = e.operandCount := by
  rcases exists_of_normalize (.inl trivial) h with ⟨names, hoisted, bs, hgives, hhoists, _⟩
  exact ⟨names, hgives, length_of_hoists he hhoists⟩

theorem normalize_listed_eq_error_iff (he : e.passes .written) (names : List String) :
    e.normalize (.listed names) = .error .namesExhausted ↔ names.length < e.operandCount := by
  constructor
  · intro herror
    by_contra henough
    have hlength : (names.take e.operandCount).length = e.operandCount :=
      List.length_take_of_le (Nat.not_lt.mp henough)
    rcases normalizes_with he hlength with ⟨e', hnormalize⟩
    have hok := hnormalize _ _ (NameSupply.gives_listed_take names e.operandCount)
    rw [herror] at hok
    cases hok
  · intro hshort
    cases hresult : e.normalize (.listed names) with
    | error err => rw [e.hoist_starves he _ err (hoist_of_normalize_eq_error hresult)]
    | ok out =>
        rcases gives_of_normalize he hresult with ⟨drawn, hgives, hlength⟩
        have hdrawn : names.take drawn.length = drawn := by
          rw [NameSupply.Gives, NameSupply.take_listed] at hgives
          exact congrArg Prod.fst hgives
        have hle := congrArg List.length hdrawn
        rw [List.length_take] at hle
        omega

/-- A well-sorted computation without return markers has as many names drawn for it as it has
operands, at whatever depth.  A list that is shorter runs out.  From a longer one the first names
are drawn, which alone decide the result, and the rest is left.  A counter never runs out: the names
are distinct, the result is the one for the list of these names, and the next name has the number
that comes after theirs. -/
theorem supply_accounting (e : Computation) (he : e.passes .written) :
    (∀ names : List String,
        e.normalize (.listed names) = .error .namesExhausted ↔ names.length < e.operandCount) ∧
      (∀ names : List String, e.operandCount ≤ names.length ->
        ∃ e', e.normalize (.listed names) = .ok (e', .listed (names.drop e.operandCount)) ∧
          ∀ rest, e.normalize (.listed (names.take e.operandCount ++ rest)) =
            .ok (e', .listed rest)) ∧
      ∀ base index, ∃ e' names rest,
        e.normalize (.counter base index) = .ok (e', rest) ∧
        (NameSupply.counter base index).Gives names rest ∧
        names.length = e.operandCount ∧ names.Nodup ∧
        e.normalize (.listed names) = .ok (e', .listed []) ∧
        rest.next?.map Prod.fst = some (base ++ toString (index + e.operandCount)) := by
  refine ⟨normalize_listed_eq_error_iff he, ?_, ?_⟩
  · intro names henough
    have hlength := List.length_take_of_le henough
    rcases normalizes_with he hlength with ⟨e', hnormalize⟩
    exact ⟨e', hnormalize _ _ (NameSupply.gives_listed_take names e.operandCount),
      fun rest => hnormalize _ _ (NameSupply.gives_listed _ rest)⟩
  · intro base index
    have hgives := NameSupply.gives_counter base index e.operandCount
    have hlength := NameSupply.length_numberedFrom base index e.operandCount
    rcases normalizes_with he hlength with ⟨e', hnormalize⟩
    exact ⟨e', _, _, hnormalize _ _ hgives, hgives, hlength,
      NameSupply.nodup_numberedFrom base index e.operandCount,
      hnormalize _ _ (NameSupply.gives_listed_self _), rfl⟩

def threeOperands : Computation :=
  .bind (.variant (.operand (.ret (.symbol (.name "l")))) .ignore)
    (.put (.operand (.get (.operand (.ret (.pointer (.name "p")))))) (.number 1))
    (.ret (.box (.mk (.link (.operand (.ret (.symbol (.name "a"))))) none .nil)))

theorem threeOperands_supply :
    threeOperands.passes .written ∧ threeOperands.operandCount = 3 ∧
      threeOperands.normalize (.listed ["a", "b"]) = .error .namesExhausted ∧
      (∃ e', threeOperands.normalize (.listed ["a", "b", "c", "d"]) = .ok (e', .listed ["d"]) ∧
        threeOperands.normalize (.listed ["a", "b", "c"]) = .ok (e', .listed [])) ∧
      ∃ e' names rest, threeOperands.normalize (.counter "_t_" (-1)) = .ok (e', rest) ∧
        (NameSupply.counter "_t_" (-1)).Gives names rest ∧ names.length = 3 ∧ names.Nodup ∧
        rest.next?.map Prod.fst = some "_t_2" := by
  rcases supply_accounting threeOperands rfl with ⟨hshort, hlong, hcounter⟩
  refine ⟨rfl, rfl, (hshort ["a", "b"]).mpr (by decide), ?_, ?_⟩
  · rcases hlong ["a", "b", "c", "d"] (by decide) with ⟨e', hfirst, hrest⟩
    exact ⟨e', hfirst, hrest []⟩
  · rcases hcounter "_t_" (-1) with ⟨e', names, rest, hok, hgives, hlength, hnodup, _, hnext⟩
    exact ⟨e', names, rest, hok, hgives, hlength, hnodup, hnext⟩

end Computation

end PushValue
