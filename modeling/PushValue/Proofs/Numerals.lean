import Mathlib.Data.List.Basic
import Mathlib.Data.List.TakeWhile
import Mathlib.Data.Nat.Digits.Defs
import Mathlib.Data.Set.List
import PushValue.Settings

/-!
# Numerals and round limits

A numeral is an optional sign and one or more groups of decimal digits, which are set apart by
single underscores.  The decimal text of an integer is one and is read back.  A round limit is read
from a numeral that may have blanks around it; a text of blanks alone sets no limit, and every other
text is refused.
-/

namespace PushValue
namespace Text

/-!
## Blanks around a text
-/

/-- A text is another one with blanks around it. -/
def Padded (cs core : List Char) : Prop :=
  ∃ left right, (∀ c ∈ left, isBlank c) ∧ (∀ c ∈ right, isBlank c) ∧ cs = left ++ (core ++ right)

theorem padded_strip (cs : List Char) : Padded cs (strip cs) := by
  let tail := cs.dropWhile isBlank
  have hblank (ds : List Char) : ∀ c ∈ ds.takeWhile isBlank, isBlank c :=
    fun c hc => List.mem_takeWhile_imp hc
  refine ⟨cs.takeWhile isBlank, (tail.reverse.takeWhile isBlank).reverse, hblank cs, ?_, ?_⟩
  · intro c hc
    exact hblank _ c (List.mem_reverse.mp hc)
  · rw [strip, ← List.reverse_append, List.takeWhile_append_dropWhile, List.reverse_reverse,
      List.takeWhile_append_dropWhile]

theorem strip_eq_nil {cs : List Char} (h : Padded cs []) : strip cs = [] := by
  rcases h with ⟨left, right, hleft, hright, rfl⟩
  have hdrop : (left ++ ([] ++ right)).dropWhile isBlank = [] := by
    rw [List.nil_append, List.dropWhile_eq_nil_iff]
    exact List.forall_mem_append.mpr ⟨hleft, hright⟩
  rw [strip, hdrop]
  rfl

theorem strip_eq {cs core : List Char} {first last : Char} (h : Padded cs core)
    (hfirst : core.head? = some first) (hlast : core.getLast? = some last)
    (hfirst' : isBlank first = false) (hlast' : isBlank last = false) : strip cs = core := by
  rcases h with ⟨left, right, hleft, hright, rfl⟩
  have hstart : (left ++ (core ++ right)).dropWhile isBlank = core ++ right := by
    rw [List.dropWhile_append_of_pos hleft]
    cases core with
    | nil => cases hfirst
    | cons c rest =>
        cases hfirst
        exact List.dropWhile_cons_of_neg (by rw [hfirst']; exact Bool.false_ne_true)
  have hend : (core ++ right).reverse.dropWhile isBlank = core.reverse := by
    have hright' : ∀ c ∈ right.reverse, isBlank c := fun c hc => hright c (List.mem_reverse.mp hc)
    rw [List.reverse_append, List.dropWhile_append_of_pos hright']
    rw [← List.head?_reverse] at hlast
    cases hreverse : core.reverse with
    | nil =>
        rw [hreverse] at hlast
        cases hlast
    | cons c rest =>
        rw [hreverse] at hlast
        cases hlast
        exact List.dropWhile_cons_of_neg (by rw [hlast']; exact Bool.false_ne_true)
  rw [strip, hstart, hend, List.reverse_reverse]

/-!
## Digits
-/

structure Digit where
  char : Char
  value : Nat
  reads : digit? char = some value

theorem isBlank_of_digit? {c : Char} {d : Nat} (h : digit? c = some d) : isBlank c = false := by
  have happart : ∀ z ∈ decimalZeros, ∀ i ∈ blankIntervals, z + 9 < i.1 ∨ i.2 < z := by decide
  rcases Option.map_eq_some_iff.mp h with ⟨z, hz, _⟩
  have hrange := List.find?_some hz
  simp only [Bool.and_eq_true, decide_eq_true_eq] at hrange
  rw [isBlank, List.any_eq_false]
  intro i hi
  have hi := happart z (List.mem_of_find?_eq_some hz) i hi
  simp only [Bool.and_eq_true, decide_eq_true_eq]
  omega

theorem Digit.char_ne (d : Digit) {c : Char} (hc : digit? c = none) : d.char ≠ c := by
  intro hchar
  have hreads := d.reads
  rw [hchar, hc] at hreads
  cases hreads

theorem Digit.char_ne_underscore (d : Digit) : d.char ≠ '_' := d.char_ne (by decide)

/-!
## Groups of digits
-/

def groupsText (groups : List (List Digit)) : List Char :=
  ['_'].intercalate (groups.map (List.map Digit.char))

theorem groupsText_singleton (g : List Digit) : groupsText [g] = g.map Digit.char := by
  rw [groupsText, List.map_singleton, List.intercalate_singleton]

theorem groupsText_cons (g : List Digit) {groups : List (List Digit)} (h : groups ≠ []) :
    groupsText (g :: groups) = g.map Digit.char ++ '_' :: groupsText groups := by
  have hmap : groups.map (List.map Digit.char) ≠ [] := fun hnil => h (List.map_eq_nil_iff.mp hnil)
  rw [groupsText, List.map_cons, List.intercalate_cons_of_ne_nil hmap, List.append_assoc]
  rfl

theorem digits?_cons (d : Digit) {c : Char} (rest : List Char) (hc : c ≠ '_') :
    digits? (d.char :: c :: rest) = (digits? (c :: rest)).map (d.value :: ·) := by
  rw [digits?, d.reads]
  · cases digits? (c :: rest) <;> rfl
  · intro h
    cases h
  · intro tail h
    exact hc (List.cons.inj h).1

theorem digits?_underscore (d : Digit) (rest : List Char) :
    digits? (d.char :: '_' :: rest) = (digits? rest).map (d.value :: ·) := by
  rw [digits?, d.reads]
  cases digits? rest <;> rfl

theorem digits?_group (d : Digit) (g : List Digit) :
    digits? ((d :: g).map Digit.char) = some ((d :: g).map Digit.value) := by
  induction g generalizing d with
  | nil =>
      show (digit? d.char).map _ = _
      rw [d.reads]
      rfl
  | cons e g ih =>
      rw [List.map_cons, List.map_cons, digits?_cons d _ e.char_ne_underscore, ← List.map_cons, ih]
      rfl

theorem digits?_group_underscore (d : Digit) (g : List Digit) (rest : List Char) :
    digits? ((d :: g).map Digit.char ++ '_' :: rest) =
      (digits? rest).map ((d :: g).map Digit.value ++ ·) := by
  induction g generalizing d with
  | nil => exact digits?_underscore d rest
  | cons e g ih =>
      have ih := ih e
      rw [List.map_cons, List.cons_append] at ih
      rw [List.map_cons, List.map_cons, List.cons_append, List.cons_append,
        digits?_cons d _ e.char_ne_underscore, ih, Option.map_map]
      rfl

theorem digits?_groupsText {groups : List (List Digit)} (hne : groups ≠ [])
    (hfilled : [] ∉ groups) :
    digits? (groupsText groups) = some (groups.flatten.map Digit.value) := by
  induction groups with
  | nil => exact absurd rfl hne
  | cons g groups ih =>
      rw [List.mem_cons, not_or] at hfilled
      cases g with
      | nil => exact absurd rfl hfilled.1
      | cons d g =>
          by_cases hrest : groups = []
          · rw [hrest, groupsText_singleton, List.flatten_singleton, digits?_group]
          · rw [groupsText_cons _ hrest, digits?_group_underscore, ih hrest hfilled.2,
              List.flatten_cons, List.map_append]
            rfl

theorem exists_digit_of_read {c : Char} {rest : Option (List Nat)} {ds : List Nat}
    (h : (do let d <- digit? c; let tail <- rest; return d :: tail) = some ds) :
    ∃ (d : Digit) (tail : List Nat), d.char = c ∧ rest = some tail ∧ ds = d.value :: tail := by
  cases hd : digit? c with
  | none => simp [hd] at h
  | some value =>
      cases rest with
      | none => simp [hd] at h
      | some tail =>
          simp only [hd] at h
          cases h
          exact ⟨⟨c, value, hd⟩, tail, rfl, rfl, rfl⟩

theorem exists_groups_of_digits? {cs : List Char} {ds : List Nat} (h : digits? cs = some ds) :
    ∃ groups : List (List Digit), groups ≠ [] ∧ [] ∉ groups ∧ groupsText groups = cs ∧
      groups.flatten.map Digit.value = ds := by
  fun_induction digits? cs generalizing ds with
  | case1 => cases h
  | case2 c =>
      rcases Option.map_eq_some_iff.mp h with ⟨d, hd, rfl⟩
      exact ⟨[[⟨c, d, hd⟩]], by simp, by simp, groupsText_singleton _, rfl⟩
  | case3 c rest ih =>
      -- The underscore ends a group of one digit.
      rcases exists_digit_of_read h with ⟨d, tail, rfl, hrest, rfl⟩
      rcases ih hrest with ⟨groups, hne, hfilled, rfl, rfl⟩
      exact ⟨[d] :: groups, by simp, by simp [hfilled], groupsText_cons _ hne, rfl⟩
  | case4 c rest _ _ ih =>
      -- The digit joins the group behind it.
      rcases exists_digit_of_read h with ⟨d, tail, rfl, hrest, rfl⟩
      rcases ih hrest with ⟨groups, hne, hfilled, rfl, rfl⟩
      cases groups with
      | nil => exact absurd rfl hne
      | cons g groups =>
          refine ⟨(d :: g) :: groups, by simp, ?_, ?_, rfl⟩
          · rw [List.mem_cons, not_or] at hfilled ⊢
            exact ⟨by simp, hfilled.2⟩
          · rw [groupsText, List.map_cons, List.map_cons, List.intercalate_cons_cons_left]
            rfl

/-!
## Numerals
-/

inductive Sign where
  | none
  | plus
  | minus

namespace Sign

def text : Sign -> List Char
  | none => []
  | plus => ['+']
  | minus => ['-']

def apply : Sign -> Nat -> Int
  | none, n | plus, n => n
  | minus, n => -n

end Sign

/-- A sign and groups of digits, none of which is empty. -/
structure Numeral where
  sign : Sign
  groups : List (List Digit)
  nonempty : groups ≠ []
  filled : [] ∉ groups

namespace Numeral

def text (m : Numeral) : List Char := m.sign.text ++ groupsText m.groups

/-- The number that a numeral denotes.  The digits of all groups count by their place, the last one
least. -/
def value (m : Numeral) : Int :=
  m.sign.apply (Nat.ofDigits 10 (m.groups.flatten.map Digit.value).reverse)

end Numeral

theorem ofDigits_eq (ds : List Nat) : ofDigits ds = Nat.ofDigits 10 ds.reverse := by
  rw [Nat.ofDigits_eq_foldr, List.foldr_reverse, ofDigits]
  congr 1
  funext n d
  exact Nat.add_comm _ _

theorem ends_groupsText {groups : List (List Digit)} (hne : groups ≠ []) (hfilled : [] ∉ groups) :
    ∃ first last : Digit, (groupsText groups).head? = some first.char ∧
      (groupsText groups).getLast? = some last.char := by
  induction groups with
  | nil => exact absurd rfl hne
  | cons g groups ih =>
      rw [List.mem_cons, not_or] at hfilled
      cases g with
      | nil => exact absurd rfl hfilled.1
      | cons d g =>
          by_cases hrest : groups = []
          · refine ⟨d, (d :: g).getLast (by simp), ?_, ?_⟩
            · rw [hrest, groupsText_singleton]
              rfl
            · rw [hrest, groupsText_singleton, List.getLast?_map,
                List.getLast?_eq_getLast_of_ne_nil]
              rfl
          · rcases ih hrest hfilled.2 with ⟨_, last, _, hlast⟩
            refine ⟨d, last, ?_, ?_⟩
            · rw [groupsText_cons _ hrest]
              rfl
            · rw [groupsText_cons _ hrest, List.getLast?_append, List.getLast?_cons, hlast]
              rfl

theorem integer?_unsigned {cs : List Char} {d : Digit} (h : cs.head? = some d.char) :
    integer? cs = (digits? cs).map fun ds => (ofDigits ds : Int) := by
  unfold integer?
  split
  · exact absurd (Option.some.inj h).symm (d.char_ne (by decide))
  · exact absurd (Option.some.inj h).symm (d.char_ne (by decide))
  · rfl

/-- What is read as an integer is a numeral, and it is read as the number that it denotes. -/
theorem integer?_eq_some_iff {cs : List Char} {n : Int} :
    integer? cs = some n ↔ ∃ m : Numeral, m.text = cs ∧ m.value = n := by
  constructor
  · intro h
    have hnumeral {rest : List Char} {ds : List Nat} (sign : Sign) (hds : digits? rest = some ds) :
        ∃ m : Numeral, m.text = sign.text ++ rest ∧ m.value = sign.apply (ofDigits ds) := by
      rcases exists_groups_of_digits? hds with ⟨groups, hne, hfilled, rfl, rfl⟩
      refine ⟨⟨sign, groups, hne, hfilled⟩, rfl, ?_⟩
      rw [ofDigits_eq]
      rfl
    unfold integer? at h
    split at h
    · rcases Option.map_eq_some_iff.mp h with ⟨ds, hds, rfl⟩
      exact hnumeral .minus hds
    · rcases Option.map_eq_some_iff.mp h with ⟨ds, hds, rfl⟩
      exact hnumeral .plus hds
    · rcases Option.map_eq_some_iff.mp h with ⟨ds, hds, rfl⟩
      exact hnumeral .none hds
  · rintro ⟨⟨sign, groups, hne, hfilled⟩, rfl, rfl⟩
    have hread := digits?_groupsText hne hfilled
    rw [Numeral.value, ← ofDigits_eq]
    cases sign with
    | none =>
        rcases ends_groupsText hne hfilled with ⟨first, _, hfirst, _⟩
        show integer? (groupsText groups) = _
        rw [integer?_unsigned hfirst, hread]
        rfl
    | plus | minus =>
        show (digits? (groupsText groups)).map _ = _
        rw [hread]
        rfl

theorem Numeral.strip_eq_text (m : Numeral) {cs : List Char} (h : Padded cs m.text) :
    strip cs = m.text ∧ m.text ≠ [] := by
  rcases ends_groupsText m.nonempty m.filled with ⟨first, last, hfirst, hlast⟩
  have hend : m.text.getLast? = some last.char := by
    rw [text, List.getLast?_append, hlast]
    rfl
  have hstart : ∃ c, m.text.head? = some c ∧ isBlank c = false := by
    rw [text]
    cases m.sign with
    | none => exact ⟨first.char, hfirst, isBlank_of_digit? first.reads⟩
    | plus => exact ⟨'+', rfl, by decide⟩
    | minus => exact ⟨'-', rfl, by decide⟩
  rcases hstart with ⟨c, hc, hblank⟩
  refine ⟨strip_eq h hc hend hblank (isBlank_of_digit? last.reads), ?_⟩
  intro hnil
  rw [hnil] at hc
  cases hc

/-!
## Decimal texts
-/

theorem digit?_of_isDigit {c : Char} (h : c.isDigit) : digit? c = some (c.toNat - '0'.toNat) := by
  have hrange : 0x30 ≤ c.toNat ∧ c.toNat < 0x30 + 10 := by
    simp only [Char.isDigit, Bool.and_eq_true, decide_eq_true_eq, ge_iff_le,
      UInt32.le_iff_toNat_le] at h
    exact ⟨h.1, Nat.lt_succ_of_le h.2⟩
  have hfind : decimalZeros.find? (fun z => z ≤ c.toNat && c.toNat < z + 10) = some 0x30 := by
    apply List.find?_cons_of_pos
    simp only [Bool.and_eq_true, decide_eq_true_eq]
    exact hrange
  rw [digit?, hfind]
  rfl

theorem ofDigits_eq_ofDigitChars {ds : List Digit} (h : ∀ d ∈ ds, d.char.isDigit) :
    ofDigits (ds.map Digit.value) = Nat.ofDigitChars 10 (ds.map Digit.char) 0 := by
  rw [ofDigits, Nat.ofDigitChars_eq_foldl, List.foldl_map, List.foldl_map]
  apply List.foldl_ext
  intro n d hd
  have hvalue := d.reads.symm.trans (digit?_of_isDigit (h d hd))
  rw [Option.some.inj hvalue]

/-- Groups of characters that make up the decimal text of a number, with zeros in front of it, are
groups of digits and denote the number. -/
theorem exists_numeral_of_decimal (sign : Sign) {n zeros : Nat} {groups : List (List Char)}
    (hfilled : [] ∉ groups)
    (hdigits : groups.flatten = List.replicate zeros '0' ++ (toString n).toList) :
    ∃ m : Numeral, m.text = sign.text ++ ['_'].intercalate groups ∧ m.value = sign.apply n := by
  rw [Nat.toString_eq_ofList_toDigits, String.toList_ofList] at hdigits
  have hdigit : ∀ g ∈ groups, ∀ c ∈ g, c.isDigit := by
    intro g hg c hc
    have hmem := List.mem_flatten_of_mem hg hc
    rw [hdigits, List.mem_append] at hmem
    rcases hmem with hzero | hdecimal
    · rw [List.eq_of_mem_replicate hzero]
      rfl
    · exact Nat.isDigit_of_mem_toDigits (by decide) (by decide) hdecimal
  have hrange : groups ∈ Set.range (List.map (List.map Digit.char)) := by
    rw [Set.range_list_map]
    intro g hg
    rw [Set.range_list_map]
    intro c hc
    exact ⟨⟨c, _, digit?_of_isDigit (hdigit g hg c hc)⟩, rfl⟩
  rcases hrange with ⟨gs, rfl⟩
  have hne : gs ≠ [] := by
    rintro rfl
    exact Nat.toDigits_ne_nil (List.append_eq_nil_iff.mp hdigits.symm).2
  have hvalue : ofDigits (gs.flatten.map Digit.value) = n := by
    have hall : ∀ d ∈ gs.flatten, d.char.isDigit := by
      intro d hd
      rcases List.mem_flatten.mp hd with ⟨g, hg, hdg⟩
      exact hdigit _ (List.mem_map_of_mem hg) _ (List.mem_map_of_mem hdg)
    rw [ofDigits_eq_ofDigitChars hall, List.map_flatten, hdigits, Nat.ofDigitChars_append,
      Nat.ofDigitChars_replicate_zero, Nat.mul_zero, Nat.ofDigitChars_ten_toDigits]
  refine ⟨⟨sign, gs, hne, fun hnil => hfilled (List.mem_map_of_mem hnil)⟩, rfl, ?_⟩
  rw [Numeral.value, ← ofDigits_eq, hvalue]

theorem integer?_toString (i : Int) : integer? (toString i).toList = some i := by
  have hread (sign : Sign) (n : Nat) :
      integer? (sign.text ++ (toString n).toList) = some (sign.apply n) := by
    have hfilled : [] ∉ [(toString n).toList] := by
      rw [Nat.toString_eq_ofList_toDigits, String.toList_ofList, List.mem_singleton]
      exact Ne.symm Nat.toDigits_ne_nil
    have hdigits : [(toString n).toList].flatten = List.replicate 0 '0' ++ (toString n).toList := by
      simp
    rcases exists_numeral_of_decimal sign hfilled hdigits with ⟨m, htext, hvalue⟩
    rw [List.intercalate_singleton] at htext
    exact integer?_eq_some_iff.mpr ⟨m, htext, hvalue⟩
  cases i with
  | ofNat n => exact hread .none n
  | negSucc n =>
      have htext : toString (Int.negSucc n) = "-" ++ toString (n + 1) := rfl
      rw [htext, String.toList_append]
      exact hread .minus (n + 1)

end Text

namespace Settings

open Text

theorem readLimit_of_blank {r : String} (h : Padded r.toList []) : readLimit r = .ok none := by
  rw [readLimit, strip_eq_nil h]

theorem readLimit_of_numeral {r : String} (m : Numeral) (h : Padded r.toList m.text) :
    readLimit r = if m.value < 0 then .error (.negativeLimit m.value) else .ok (some m.value) := by
  rcases m.strip_eq_text h with ⟨hstrip, hne⟩
  have hread : integer? m.text = some m.value := integer?_eq_some_iff.mpr ⟨m, rfl, rfl⟩
  unfold readLimit
  rw [hstrip]
  split
  next hnil => exact absurd hnil hne
  next => rw [hread]

theorem readLimit_of_other {r : String} (hblank : ¬ Padded r.toList [])
    (hnumeral : ∀ m : Numeral, ¬ Padded r.toList m.text) : readLimit r = .error .notInteger := by
  have hpadded := padded_strip r.toList
  unfold readLimit
  split
  next hnil =>
    rw [hnil] at hpadded
    exact absurd hpadded hblank
  next =>
    cases hread : integer? (strip r.toList) with
    | none => rfl
    | some n =>
        rcases integer?_eq_some_iff.mp hread with ⟨m, hm, _⟩
        rw [← hm] at hpadded
        exact absurd hpadded (hnumeral m)

theorem ofVariables_eq {get : String -> Option String} {base r : String}
    (hbase : (get "FUMOLA_FRESH_NAME_BASE").getD "_t_" = base)
    (hr : get "FUMOLA_MAX_ROUNDS" = some r) :
    ofVariables get = (readLimit r).map fun limit => ⟨base, limit⟩ := by
  rw [ofVariables, hr, ← hbase]
  cases hread : readLimit r with
  | error err =>
      rw [Option.getD_some, hread]
      rfl
  | ok limit =>
      rw [Option.getD_some, hread]
      rfl

/-- The round limit is read by the grammar of numerals.  Blanks alone set no limit.  A numeral with
blanks around it sets the number that it denotes as the limit, or is refused if that is negative.
Any other text is refused.  So the decimal text of a number sets that number, also with zeros and a
plus sign in front, with underscores between its digits and with blanks around it.  The base of
names is in each case the one that its own variable sets. -/
theorem limit_read_by_grammar (get : String -> Option String) (base r : String)
    (hbase : (get "FUMOLA_FRESH_NAME_BASE").getD "_t_" = base)
    (hr : get "FUMOLA_MAX_ROUNDS" = some r) :
    (Padded r.toList [] -> ofVariables get = .ok ⟨base, none⟩) ∧
      (∀ m : Numeral, Padded r.toList m.text -> 0 ≤ m.value ->
        ofVariables get = .ok ⟨base, some m.value⟩) ∧
      (∀ m : Numeral, Padded r.toList m.text -> m.value < 0 ->
        ofVariables get = .error (.negativeLimit m.value)) ∧
      (¬ Padded r.toList [] -> (∀ m : Numeral, ¬ Padded r.toList m.text) ->
        ofVariables get = .error .notInteger) ∧
      ∀ (n zeros : Nat) (groups : List (List Char)), [] ∉ groups ->
        groups.flatten = List.replicate zeros '0' ++ (toString n).toList ->
        (Padded r.toList (['_'].intercalate groups) ∨
          Padded r.toList ('+' :: ['_'].intercalate groups)) ->
        ofVariables get = .ok ⟨base, some n⟩ := by
  have hread (m : Numeral) (h : Padded r.toList m.text) (hvalue : 0 ≤ m.value) :
      ofVariables get = .ok ⟨base, some m.value⟩ := by
    rw [ofVariables_eq hbase hr, readLimit_of_numeral m h, if_neg (Int.not_lt.mpr hvalue)]
    rfl
  refine ⟨?_, hread, ?_, ?_, ?_⟩
  · intro hblank
    rw [ofVariables_eq hbase hr, readLimit_of_blank hblank]
    rfl
  · intro m h hvalue
    rw [ofVariables_eq hbase hr, readLimit_of_numeral m h, if_pos hvalue]
    rfl
  · intro hblank hnumeral
    rw [ofVariables_eq hbase hr, readLimit_of_other hblank hnumeral]
    rfl
  · intro n zeros groups hfilled hdigits hpadded
    have hsigned (sign : Sign) (happly : sign.apply n = n)
        (h : Padded r.toList (sign.text ++ ['_'].intercalate groups)) :
        ofVariables get = .ok ⟨base, some n⟩ := by
      rcases exists_numeral_of_decimal sign hfilled hdigits with ⟨m, htext, hvalue⟩
      rw [happly] at hvalue
      rw [← htext] at h
      rw [hread m h (hvalue ▸ Int.natCast_nonneg n), hvalue]
    rcases hpadded with hplain | hplus
    · exact hsigned .none rfl hplain
    · exact hsigned .plus rfl hplus

def twelveRounds (name : String) : Option String :=
  if name = "FUMOLA_MAX_ROUNDS" then some "\t+0_1٢ " else none

def twelve : Numeral where
  sign := .plus
  groups := [[⟨'0', 0, by decide⟩], [⟨'1', 1, by decide⟩, ⟨'٢', 2, by decide⟩]]
  nonempty := by simp
  filled := by simp

theorem twelveRounds_limit_read :
    (twelveRounds "FUMOLA_FRESH_NAME_BASE").getD "_t_" = "_t_" ∧
      twelveRounds "FUMOLA_MAX_ROUNDS" = some "\t+0_1٢ " ∧
      Padded "\t+0_1٢ ".toList twelve.text ∧ twelve.value = 12 ∧
      ofVariables twelveRounds = .ok ⟨"_t_", some 12⟩ := by
  have hpadded : Padded "\t+0_1٢ ".toList twelve.text :=
    ⟨['\t'], [' '], List.forall_mem_singleton.mpr rfl, List.forall_mem_singleton.mpr rfl, rfl⟩
  have hvalue : twelve.value = 12 := rfl
  have hread := (limit_read_by_grammar twelveRounds "_t_" "\t+0_1٢ " rfl rfl).2.1 twelve hpadded
  exact ⟨rfl, rfl, hpadded, hvalue, hread (by decide)⟩

end Settings
end PushValue
