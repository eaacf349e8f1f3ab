import Mathlib.Data.List.Nodup
import PushValue.Proofs.SortKey
import PushValue.Proofs.Tables
import PushValue.Symbol.Sorting
import PushValue.World.Round

/-!
# Listings

A host may list the entries of a store and the processes of a world in any order, say in
the order of their insertion.  A round that sorts the names by their sort keys, and a text
with the entries sorted so, do not depend on that order: they are those of the world.
-/

namespace PushValue

theorem Symbol.ofObject_toObject {s : Symbol} (h : s.isProper) : ofObject s.toObject = s := by
  induction s with
  | anonymous | number | name => rfl
  | join l r ihl ihr | within l r ihl ihr =>
      simp only [isProper, Bool.and_eq_true] at h
      rw [toObject, ofObject, ihl h.1, ihr h.2]
  | joinBy l m r ihl ihm ihr =>
      simp only [isProper, Bool.and_eq_true] at h
      rw [toObject, ofObject, ihl h.1.1, ihm h.1.2, ihr h.2]
  | mark s =>
      cases s with
      | dash | underscore | dot | tick => rfl
  | stray o => cases h

/-!
## Listings of a table
-/

/-- Items under symbols, each under a symbol of its own, in any order. -/
structure Listing (α : Type) where
  items : List (Symbol × α)
  proper : ∀ e ∈ items, e.1.isProper
  distinct : (items.map Prod.fst).Nodup

namespace Listing

variable {α : Type} (l : Listing α)

def table : Table Symbol α := .ofList l.items

/-- The items in the order of their sort keys; one stays before another unless that precedes it. -/
def sorted : List (Symbol × α) :=
  l.items.mergeSort fun a b => Symbol.precedes? b.1 a.1 != some true

theorem mem_entries_table (e : Symbol × α) : e ∈ l.table.entries ↔ e ∈ l.items := by
  rw [Table.mem_entries_iff, table, Table.get?_ofList l.distinct]

theorem items_nodup : l.items.Nodup := List.Nodup.of_map Prod.fst l.distinct

theorem items_perm : l.items.Perm l.table.entries := by
  rw [List.perm_ext_iff_of_nodup l.items_nodup (List.Nodup.of_map Prod.fst l.table.keys_nodup)]
  intro e
  exact (l.mem_entries_table e).symm

theorem sorted_eq_mergeSort :
    l.sorted = l.items.mergeSort fun a b => (compare a.1 b.1).isLE := by
  have hmap := @List.map_mergeSort _ _ (fun a b => Symbol.precedes? b.1 a.1 != some true)
    (fun a b => (compare a.1 b.1).isLE) id l.items
  rw [List.map_id_fun, id, id] at hmap
  apply hmap
  intro a ha b hb
  have hswap : compare b.1 a.1 = (compare a.1 b.1).swap := Std.OrientedCmp.eq_swap
  rw [Symbol.precedes?_eq (l.proper b hb) (l.proper a ha), hswap]
  show _ = (compare a.1 b.1).isLE
  cases compare a.1 b.1 with
  | lt | eq | gt => rfl

theorem sorted_pairwise : l.sorted.Pairwise fun a b => (compare a.1 b.1).isLE := by
  rw [sorted_eq_mergeSort]
  apply List.pairwise_mergeSort
  · intro a b c hab hbc
    exact Std.TransCmp.isLE_trans hab hbc
  · intro a b
    have hswap : compare b.1 a.1 = (compare a.1 b.1).swap := Std.OrientedCmp.eq_swap
    rw [hswap]
    cases compare a.1 b.1 with
    | lt | eq | gt => rfl

theorem sorted_eq : l.sorted = l.table.entries := by
  have hperm : l.sorted.Perm l.table.entries := (List.mergeSort_perm _ _).trans l.items_perm
  have hentries : l.table.entries.Pairwise fun a b => (compare a.1 b.1).isLE := by
    apply l.table.sorted.imp
    intro a b hlt
    rw [hlt]
    rfl
  refine List.Perm.eq_of_pairwise ?_ l.sorted_pairwise hentries hperm
  rintro ⟨k, a⟩ ⟨j, b⟩ ha hb hab hba
  cases Std.LawfulEqOrd.eq_of_compare (Std.OrientedCmp.isLE_antisymm hab hba)
  have hleft := Table.mem_entries_iff.mp (hperm.mem_iff.mp ha)
  have hright := Table.mem_entries_iff.mp hb
  rw [hleft] at hright
  cases hright
  rfl

theorem table_congr {l l' : Listing α} (h : l'.items.Perm l.items) : l'.table = l.table := by
  apply Table.ext_get?
  intro k
  apply Option.ext
  intro a
  rw [table, table, Table.get?_ofList l'.distinct, Table.get?_ofList l.distinct, h.mem_iff]

/-- A map by symbols that a host lists is put in the order of the sort keys. -/
theorem keyed_items (f : α -> Object) :
    Object.keyed (l.items.map fun e => (e.1.toObject, f e.2)) =
      .mapping (l.sorted.map fun e => (e.1.toObject, f e.2)) := by
  rw [sorted_eq_mergeSort, Object.keyed]
  congr 1
  symm
  apply List.map_mergeSort
  intro a ha b hb
  rw [Symbol.ofObject_toObject (l.proper a ha), Symbol.ofObject_toObject (l.proper b hb)]

end Listing

/-!
## Listings of a world
-/

structure WorldListing where
  store : Listing Value
  processes : Listing Stage

namespace WorldListing

variable (l : WorldListing)

def world : World := ⟨l.store.table, l.processes.table⟩

def round : Round := l.world.roundIn (l.processes.sorted.map Prod.fst)

def text : Printed :=
  Object.render (.node .world
    [.mapping (l.store.sorted.map fun e => (e.1.toObject, e.2.toObject)),
      .mapping (l.processes.sorted.map fun e => (e.1.toObject, e.2.toObject))])

/-- The object as a host hands it over. -/
def toObject : Object :=
  .node .world
    [.keyed (l.store.items.map fun e => (e.1.toObject, e.2.toObject)),
      .keyed (l.processes.items.map fun e => (e.1.toObject, e.2.toObject))]

theorem round_eq : l.round = l.world.round := by
  have hkeys : l.processes.sorted.map Prod.fst = l.world.processes.keys := by
    rw [Listing.sorted_eq]
    rfl
  have hproper : l.world.processes.keys.all Symbol.isProper := by
    rw [List.all_eq_true]
    intro name hname
    rcases List.mem_map.mp hname with ⟨e, he, rfl⟩
    exact l.processes.proper e ((l.processes.mem_entries_table e).mp he)
  rw [round, World.round, hkeys, if_pos hproper]

theorem text_eq : l.text = l.world.toObject.render := by
  rw [text, Listing.sorted_eq, Listing.sorted_eq]
  rfl

theorem toObject_eq : l.toObject = l.world.toObject := by
  rw [toObject, Listing.keyed_items, Listing.keyed_items, Listing.sorted_eq, Listing.sorted_eq]
  rfl

theorem world_congr {l l' : WorldListing} (hstore : l'.store.items.Perm l.store.items)
    (hprocesses : l'.processes.items.Perm l.processes.items) : l'.world = l.world := by
  rw [world, world, Listing.table_congr hstore, Listing.table_congr hprocesses]

/-- The order of symbols by their sort keys is a strict total order: no comparison is undefined, of
two symbols exactly one precedes the other unless they are the same, and what precedes is
transitive.  So a round that goes by the sort keys, and a text that does, depend only on what is
listed and not on the order in which it is. -/
theorem listing_order_irrelevant :
    (∀ s t u : Symbol, s.isProper -> t.isProper -> u.isProper ->
      (s.precedes? t = some true ∧ s ≠ t ∧ t.precedes? s = some false ∨
        s.precedes? t = some false ∧ s = t ∧ t.precedes? s = some false ∨
        s.precedes? t = some false ∧ s ≠ t ∧ t.precedes? s = some true) ∧
      (s.precedes? t = some true -> t.precedes? u = some true -> s.precedes? u = some true)) ∧
    ∀ l : WorldListing,
      l.round = l.world.round ∧ l.text = l.world.toObject.render ∧ l.toObject.render = l.text ∧
      ∀ l' : WorldListing, l'.store.items.Perm l.store.items ->
        l'.processes.items.Perm l.processes.items ->
        l'.world = l.world ∧ l'.round = l.round ∧ l'.text = l.text := by
  constructor
  · intro s t u hs ht hu
    exact ⟨Symbol.precedes?_trichotomy hs ht, Symbol.precedes?_trans hs ht hu⟩
  · intro l
    refine ⟨l.round_eq, l.text_eq, ?_, ?_⟩
    · rw [toObject_eq, text_eq]
    · intro l' hstore hprocesses
      have hworld := world_congr hstore hprocesses
      refine ⟨hworld, ?_, ?_⟩
      · rw [round_eq, round_eq, hworld]
      · rw [text_eq, text_eq, hworld]

def unsorted : WorldListing where
  store := {
    items := [(.join (.name "b") (.number 1), .number 7), (.name "b", .unit),
      (.within (.name "a") (.mark .dot), .symbol (.number 2))]
    proper := by decide
    distinct := by decide }
  processes := {
    items := [(.name "w", .awaitingEntry (Running.start (.link (.symbol (.name "x"))) .empty)
        (.name "x")),
      (.anonymous, .pending (.ret (.number 1))),
      (.number 3, .running (Running.start (.put (.symbol (.name "x")) (.number 2)) .empty))]
    proper := by decide
    distinct := by decide }

def unsortedReversed : WorldListing where
  store := ⟨unsorted.store.items.reverse, by decide, by decide⟩
  processes := ⟨unsorted.processes.items.reverse, by decide, by decide⟩

theorem unsorted_listing_order :
    Symbol.precedes? (.number 3) (.within (.name "a") (.mark .dot)) = some true ∧
      unsortedReversed.world = unsorted.world ∧ unsortedReversed.round = unsorted.round ∧
      unsortedReversed.text = unsorted.text ∧
      unsorted.round.result = .ok .progress ∧
      unsorted.round.world.processes.keys = [.anonymous, .number 3, .name "w"] := by
  rcases listing_order_irrelevant with ⟨horder, hlisting⟩
  rcases hlisting unsorted with ⟨hround, _, _, hsame⟩
  rcases hsame unsortedReversed (List.reverse_perm _) (List.reverse_perm _) with
    ⟨hworld, hback, htext⟩
  have hfirst : Symbol.precedes? (.number 3) (.join (.name "b") (.number 1)) = some true := by
    decide
  have hnext : Symbol.precedes? (.join (.name "b") (.number 1))
      (.within (.name "a") (.mark .dot)) = some true := by
    decide
  refine ⟨(horder _ _ _ rfl rfl rfl).2 hfirst hnext, hworld, hback, htext, ?_, ?_⟩
  · rw [hround]
    rfl
  · rw [hround]
    rfl

end WorldListing

end PushValue
