import Mathlib.Data.List.Forall2
import PushValue.Proofs.Normalize.Counting

/-!
# The order in which operands are collected

Normalization goes through a computation once and comes to two sorts of places on its way: operands
of the computation itself, and sub-computations that are closed where they stand.  Both are
normalized apart, with the names that are next in the supply.  The operands become bindings around
the computation, the first one innermost, so they are evaluated from the last one to the first.
-/

namespace PushValue

/-!
## Sites
-/

/-- A place in a term with a pass of its own. -/
inductive Site where
  /-- An operand, which is moved out. -/
  | operand (e : Computation)
  /-- A sub-computation that is closed where it stands. -/
  | body (e : Computation)
deriving DecidableEq

def Site.operand? : Site -> Option Computation
  | operand e => some e
  | body _ => none

mutual

/-- The sites of a value in the order in which normalization comes to them: a label is before what
it labels, and the base of an extension before the field. -/
def Value.sites : Value -> List Site
  | .operand e => [.operand e]
  | .box b => b.sites
  | .record fs => fs.sites
  | .extend b l v => b.sites ++ (l.sites ++ v.sites)
  | .variant l p => l.sites ++ p.sites
  | .number _ | .symbol _ | .pointer _ | .process _ | .variable _ | .extendBy _ _ | .stray _ => []

def Fields.sites : Fields -> List Site
  | .nil => []
  | .cons l v rest => l.sites ++ (v.sites ++ rest.sites)
  | .foreign _ rest => rest.sites

def Box.sites : Box -> List Site
  | .mk code _ _ => [.body code]
  | .stray _ => []

/-- The sites of a computation in the order in which normalization comes to them.  An argument is
before the function that it is given to, and the label of a projection before what it selects
from. -/
def Computation.sites : Computation -> List Site
  | .hole | .returned _ | .stray _ => []
  | .ret v | .extract v | .get v | .link v => v.sites
  | .put a b | .assert a _ b => a.sites ++ b.sites
  | .nest v e | .spawn v e => v.sites ++ [.body e]
  | .apply e v | .project e v => v.sites ++ e.sites
  | .lambda _ e => [.body e]
  | .bind _ e₁ e₂ | .bindBox _ e₁ e₂ => [.body e₁] ++ [.body e₂]
  | .switch v cs => v.sites ++ cs.sites
  | .branches bs => bs.sites

def Cases.sites : Cases -> List Site
  | .nil => []
  | .cons l _ e rest => l.sites ++ ([.body e] ++ rest.sites)
  | .foreign _ rest => rest.sites

def Branches.sites : Branches -> List Site
  | .nil => []
  | .cons l e rest => l.sites ++ ([.body e] ++ rest.sites)
  | .foreign _ rest => rest.sites

end

def Value.operands (v : Value) : List Computation := v.sites.filterMap Site.operand?

/-- The operands of a computation, without those inside operands, in the code of boxes and in
sub-computations that are closed where they stand. -/
def Computation.operands (e : Computation) : List Computation := e.sites.filterMap Site.operand?

/-!
## Passes
-/

/-- What becomes of a site: the names that are drawn for it and its normalized computation, with
the variable that is left behind for an operand. -/
inductive Pass where
  | operand (names : List String) (x : String) (code : Computation)
  | body (names : List String) (code : Computation)

namespace Pass

def drawn : Pass -> List String
  | operand names x _ => names ++ [x]
  | body names _ => names

def binding? : Pass -> Option Binding
  | operand _ x code => some ⟨x, code⟩
  | body _ _ => none

end Pass

def Computation.NormalizesTo (e : Computation) (names : List String) (e' : Computation) : Prop :=
  e.normalize (.listed names) = .ok (e', .listed [])

inductive Site.Yields : Site -> Pass -> Prop where
  | operand {e code : Computation} {names : List String} (x : String)
      (h : e.NormalizesTo names code) : Yields (.operand e) (.operand names x code)
  | body {e code : Computation} {names : List String} (h : e.NormalizesTo names code) :
      Yields (.body e) (.body names code)

/-!
## Filling
-/

def Computation.fillBody (e : Computation) : List Pass -> Computation
  | .body _ code :: _ => code
  | _ => e

mutual

/-- A value with what the passes leave in the place of its sites. -/
def Value.fill : Value -> List Pass -> Value
  | .operand e, passes =>
      match passes with
      | .operand _ x _ :: _ => .variable x
      | _ => .operand e
  | .box b, passes => .box (b.fill passes)
  | .record fs, passes => .record (fs.fill passes)
  | .extend b l v, passes =>
      let later := passes.drop b.sites.length
      .extend (b.fill (passes.take b.sites.length)) (l.fill (later.take l.sites.length))
        (v.fill (later.drop l.sites.length))
  | .variant l p, passes =>
      .variant (l.fill (passes.take l.sites.length)) (p.fill (passes.drop l.sites.length))
  | .number n, _ => .number n
  | .symbol s, _ => .symbol s
  | .pointer s, _ => .pointer s
  | .process s, _ => .process s
  | .variable x, _ => .variable x
  | .extendBy b p, _ => .extendBy b p
  | .stray o, _ => .stray o

def Fields.fill : Fields -> List Pass -> Fields
  | .nil, _ => .nil
  | .cons l v rest, passes =>
      let later := passes.drop l.sites.length
      .cons (l.fill (passes.take l.sites.length)) (v.fill (later.take v.sites.length))
        (rest.fill (later.drop v.sites.length))
  | .foreign p rest, passes => .foreign p (rest.fill passes)

def Box.fill : Box -> List Pass -> Box
  | .mk code self captured, passes => .mk (code.fillBody passes) self captured
  | .stray o, _ => .stray o

def Computation.fill : Computation -> List Pass -> Computation
  | .hole, _ => .hole
  | .returned v, _ => .returned v
  | .stray o, _ => .stray o
  | .ret v, passes => .ret (v.fill passes)
  | .extract v, passes => .extract (v.fill passes)
  | .get v, passes => .get (v.fill passes)
  | .link v, passes => .link (v.fill passes)
  | .put a b, passes =>
      .put (a.fill (passes.take a.sites.length)) (b.fill (passes.drop a.sites.length))
  | .assert a equal b, passes =>
      .assert (a.fill (passes.take a.sites.length)) equal (b.fill (passes.drop a.sites.length))
  | .nest v e, passes =>
      .nest (v.fill (passes.take v.sites.length)) (e.fillBody (passes.drop v.sites.length))
  | .spawn v e, passes =>
      .spawn (v.fill (passes.take v.sites.length)) (e.fillBody (passes.drop v.sites.length))
  | .apply e v, passes =>
      .apply (e.fill (passes.drop v.sites.length)) (v.fill (passes.take v.sites.length))
  | .project e v, passes =>
      .project (e.fill (passes.drop v.sites.length)) (v.fill (passes.take v.sites.length))
  | .lambda p e, passes => .lambda p (e.fillBody passes)
  | .bind p e₁ e₂, passes => .bind p (e₁.fillBody (passes.take 1)) (e₂.fillBody (passes.drop 1))
  | .bindBox p e₁ e₂, passes =>
      .bindBox p (e₁.fillBody (passes.take 1)) (e₂.fillBody (passes.drop 1))
  | .switch v cs, passes =>
      .switch (v.fill (passes.take v.sites.length)) (cs.fill (passes.drop v.sites.length))
  | .branches bs, passes => .branches (bs.fill passes)

def Cases.fill : Cases -> List Pass -> Cases
  | .nil, _ => .nil
  | .cons l p e rest, passes =>
      let later := passes.drop l.sites.length
      .cons (l.fill (passes.take l.sites.length)) p (e.fillBody (later.take 1))
        (rest.fill (later.drop 1))
  | .foreign p rest, passes => .foreign p (rest.fill passes)

def Branches.fill : Branches -> List Pass -> Branches
  | .nil, _ => .nil
  | .cons l e rest, passes =>
      let later := passes.drop l.sites.length
      .cons (l.fill (passes.take l.sites.length)) (e.fillBody (later.take 1))
        (rest.fill (later.drop 1))
  | .foreign p rest, passes => .foreign p (rest.fill passes)

end

/-!
## Hoisting fills the sites
-/

/-- Passes over the sites of a term draw given names, leave given bindings, and give another term
if they are filled in. -/
structure Hoist.Collects {α : Type} (sites : List Site) (fill : List Pass -> α) (ns : List String)
    (a : α) (bs : List Binding) (passes : List Pass) : Prop where
  yields : List.Forall₂ Site.Yields sites passes
  drawn : passes.flatMap Pass.drawn = ns
  bindings : passes.filterMap Pass.binding? = bs
  filled : fill passes = a

def Hoist.Collected {α : Type} (sites : List Site) (fill : List Pass -> α) (ns : List String)
    (a : α) (bs : List Binding) : Prop :=
  ∃ passes, Hoist.Collects sites fill ns a bs passes

namespace Hoist.Collected

variable {α β γ δ : Type} {ss ts us : List Site} {f : List Pass -> α} {g : List Pass -> β}
  {h : List Pass -> γ} {ns ms ks : List String} {a : α} {b : β} {c : γ} {bs cs ds : List Binding}

theorem still (a : α) : Collected [] (fun _ => a) [] a [] :=
  ⟨[], .nil, rfl, rfl, rfl⟩

theorem map (ha : Collected ss f ns a bs) (k : α -> δ) :
    Collected ss (fun passes => k (f passes)) ns (k a) bs := by
  rcases ha with ⟨passes, hyields, hdrawn, hbindings, rfl⟩
  exact ⟨passes, hyields, hdrawn, hbindings, rfl⟩

theorem pair (ha : Collected ss f ns a bs) (hb : Collected ts g ms b cs) (k : α -> β -> δ) :
    Collected (ss ++ ts)
      (fun passes => k (f (passes.take ss.length)) (g (passes.drop ss.length)))
      (ns ++ ms) (k a b) (bs ++ cs) := by
  rcases ha with ⟨passes, hyields, rfl, rfl, rfl⟩
  rcases hb with ⟨later, hlater, rfl, rfl, rfl⟩
  refine ⟨passes ++ later, List.rel_append hyields hlater, List.flatMap_append,
    List.filterMap_append, ?_⟩
  rw [hyields.length_eq, List.take_left, List.drop_left]

theorem triple (ha : Collected ss f ns a bs) (hb : Collected ts g ms b cs)
    (hc : Collected us h ks c ds) (k : α -> β -> γ -> δ) :
    Collected (ss ++ (ts ++ us))
      (fun passes => k (f (passes.take ss.length))
        (g ((passes.drop ss.length).take ts.length)) (h ((passes.drop ss.length).drop ts.length)))
      (ns ++ (ms ++ ks)) (k a b c) (bs ++ cs ++ ds) := by
  rw [List.append_assoc]
  exact ha.pair (hb.pair hc Prod.mk) fun a rest => k a rest.1 rest.2

theorem normalizesTo {mixed : Prop} {e e' : Computation} (he : e.Hoists mixed ns e' bs) :
    e.NormalizesTo ns (e'.close bs) :=
  he.normalize_eq (NameSupply.gives_listed_self ns)

theorem operand {mixed : Prop} {e e' : Computation} (he : e.Hoists mixed ns e' bs) (x : String) :
    Collected [.operand e] (Value.operand e).fill (ns ++ [x]) (.variable x)
      [⟨x, e'.close bs⟩] := by
  refine ⟨[.operand ns x (e'.close bs)], .cons (.operand x (normalizesTo he)) .nil, ?_, rfl, rfl⟩
  rw [List.flatMap_singleton, Pass.drawn]

theorem body {mixed : Prop} {e e' : Computation} (he : e.Hoists mixed ns e' bs) :
    Collected [.body e] e.fillBody ns (e'.close bs) [] := by
  refine ⟨[.body ns (e'.close bs)], .cons (.body (normalizesTo he)) .nil, ?_, rfl, rfl⟩
  rw [List.flatMap_singleton, Pass.drawn]

theorem widen (ha : Collected ss f ns a (bs ++ [])) : Collected ss f ns a bs :=
  List.append_nil bs ▸ ha

end Hoist.Collected

section Collecting

open Hoist

mutual

theorem Value.Hoists.collected {v v' : Value} {ns : List String} {bs : List Binding} :
    v.Hoists False ns v' bs -> Collected v.sites v.fill ns v' bs
  | .number _ | .symbol _ | .pointer _ | .process _ | .variable _ => .still _
  | .variant hl hp => hl.collected.pair hp.collected Value.variant
  | .record hfs => hfs.collected.map Value.record
  | .extend hb hl hv => hb.collected.triple hl.collected hv.collected Value.extend
  | .box hb => hb.collected.map Value.box
  | .operand x he => .operand he x

theorem Fields.Hoists.collected {fs fs' : Fields} {ns : List String} {bs : List Binding} :
    fs.Hoists False ns fs' bs -> Collected fs.sites fs.fill ns fs' bs
  | .nil => .still _
  | .cons hl hv hrest => hl.collected.triple hv.collected hrest.collected Fields.cons

theorem Box.Hoists.collected {b b' : Box} {ns : List String} :
    b.Hoists False ns b' -> Collected b.sites b.fill ns b' []
  | .mk self captured hcode => (Collected.body hcode).map fun code => Box.mk code self captured

/-- Hoisting fills the sites of a computation, and the operands among them become its bindings. -/
theorem Computation.Hoists.collected {e e' : Computation} {ns : List String} {bs : List Binding} :
    e.Hoists False ns e' bs -> Collected e.sites e.fill ns e' bs
  | .hole => .still _
  | .ret hv => hv.collected.map Computation.ret
  | .extract hv => hv.collected.map Computation.extract
  | .get hv => hv.collected.map Computation.get
  | .link hv => hv.collected.map Computation.link
  | .put ha hb => ha.collected.pair hb.collected Computation.put
  | .assert equal ha hb => ha.collected.pair hb.collected fun a b => Computation.assert a equal b
  | .nest hv he => (hv.collected.pair (.body he) Computation.nest).widen
  | .spawn hv he => (hv.collected.pair (.body he) Computation.spawn).widen
  | .apply hv he => hv.collected.pair he.collected fun v e => Computation.apply e v
  | .project hv he => hv.collected.pair he.collected fun v e => Computation.project e v
  | .lambda p he => (Collected.body he).map (Computation.lambda p)
  | .bind p he₁ he₂ => (Collected.body he₁).pair (.body he₂) (Computation.bind p)
  | .bindBox p he₁ he₂ => (Collected.body he₁).pair (.body he₂) (Computation.bindBox p)
  | .switch hv hcases => hv.collected.pair hcases.collected Computation.switch
  | .branches hbs => hbs.collected.map Computation.branches

theorem Cases.Hoists.collected {cs cs' : Cases} {ns : List String} {bs : List Binding} :
    cs.Hoists False ns cs' bs -> Collected cs.sites cs.fill ns cs' bs
  | .nil => .still _
  | .cons p hl he hrest => by
      have h := hl.collected.triple (.body he) hrest.collected fun l e rest => Cases.cons l p e rest
      rw [List.append_nil] at h
      exact h

theorem Branches.Hoists.collected {bs bs' : Branches} {ns : List String} {cs : List Binding} :
    bs.Hoists False ns bs' cs -> Collected bs.sites bs.fill ns bs' cs
  | .nil => .still _
  | .cons hl he hrest => by
      have h := hl.collected.triple (.body he) hrest.collected Branches.cons
      rw [List.append_nil] at h
      exact h
  | .foreign hmixed _ _ => hmixed.elim

end

end Collecting

/-!
## Order of evaluation
-/

theorem Computation.close_eq_foldr (e : Computation) (bs : List Binding) :
    e.close bs = bs.reverse.foldr (fun b body => .bind (.variable b.name) b.bound body) e :=
  List.foldr_reverse.symm

theorem Pass.names_sublist (passes : List Pass) :
    ((passes.filterMap binding?).map Binding.name).Sublist (passes.flatMap drawn) := by
  induction passes with
  | nil => exact .slnil
  | cons pass rest ih =>
      cases pass with
      | operand names x code =>
          have hx : [x].Sublist (names ++ [x]) := List.sublist_append_right names [x]
          exact hx.append ih
      | body names code => exact ih.trans (List.sublist_append_right names _)

theorem Site.Yields.bindings {sites : List Site} {passes : List Pass}
    (h : List.Forall₂ Site.Yields sites passes) :
    List.Forall₂ (fun e b => ∃ names, e.NormalizesTo names b.bound)
      (sites.filterMap Site.operand?) (passes.filterMap Pass.binding?) := by
  apply List.rel_filterMap _ h
  intro site pass hpass
  cases hpass with
  | operand x hcode => exact .some ⟨_, hcode⟩
  | body hcode => exact .none

theorem Computation.operands_apply (e : Computation) (v : Value) :
    (apply e v).operands = v.operands ++ e.operands :=
  List.filterMap_append

/-- The operands of a function come after those of its arguments, so that they are evaluated
before them, and so are the operands of an argument before those of the next one. -/
theorem Computation.operands_foldl_apply (head : Computation) (args : List Value) :
    (args.foldl apply head).operands.reverse =
      head.operands.reverse ++ args.flatMap fun v => v.operands.reverse := by
  induction args generalizing head with
  | nil => exact (List.append_nil _).symm
  | cons v rest ih =>
      rw [List.foldl_cons, ih, operands_apply, List.reverse_append, List.flatMap_cons,
        List.append_assoc]

namespace Computation

/-- A well-sorted computation without return markers is normalized with any supply that has a name
for each operand at whatever depth, and draws these names.  The sites of the computation are dealt
with in order, each with the names that are next, so that the operands of the computation itself
become bindings, in order and each normalized apart.  The last one is outermost, and inside the
first one is the computation with the variables in the place of the operands and the other sites
normalized.  The variables are distinct if the names are.  In particular, the operands in the
arguments of a function without operands of its own are evaluated argument by argument, from the
first one to the last. -/
theorem operands_hoisted_in_order (e : Computation) (he : e.passes .written)
    (supply rest : NameSupply) (names : List String) (hgives : supply.Gives names rest)
    (hlength : names.length = e.operandCount) :
    ∃ passes bindings, List.Forall₂ Site.Yields e.sites passes ∧
      passes.flatMap Pass.drawn = names ∧ passes.filterMap Pass.binding? = bindings ∧
      List.Forall₂ (fun c b => ∃ ns, c.NormalizesTo ns b.bound) e.operands bindings ∧
      e.normalize supply = .ok (bindings.reverse.foldr
        (fun b body => .bind (.variable b.name) b.bound body) (e.fill passes), rest) ∧
      (names.Nodup -> (bindings.map Binding.name).Nodup) ∧
      ∀ (head : Computation) (args : List Value), e = args.foldl apply head ->
        head.operands = [] -> e.operands.reverse = args.flatMap fun v => v.operands.reverse := by
  rcases e.exists_hoists he names hlength with ⟨hoisted, bindings, hhoists⟩
  rcases hhoists.collected with ⟨passes, hyields, hdrawn, hbindings, hfilled⟩
  refine ⟨passes, bindings, hyields, hdrawn, hbindings, ?_, ?_, ?_, ?_⟩
  · rw [← hbindings]
    exact Site.Yields.bindings hyields
  · unfold normalize
    rw [StateT.run, hhoists.runs supply rest hgives, hfilled, ← close_eq_foldr]
    rfl
  · intro hnodup
    rw [← hdrawn] at hnodup
    rw [← hbindings]
    exact (Pass.names_sublist passes).nodup hnodup
  · intro head args heq hhead
    rw [heq, operands_foldl_apply, hhead]
    rfl

def operandsInArguments : Computation :=
  .apply
    (.apply (.extract (.variable "f"))
      (.record (.cons (.symbol (.name "k")) (.operand (.get (.operand (.ret (.variable "p")))))
        (.cons (.symbol (.name "l")) (.operand (.ret (.number 1))) .nil))))
    (.variant (.operand (.ret (.symbol (.name "m"))))
      (.box (.mk (.put (.operand (.ret (.symbol (.name "a")))) (.number 2)) none .nil)))

theorem operandsInArguments_hoisted_in_order :
    operandsInArguments.passes .written ∧ operandsInArguments.operandCount = 5 ∧
      (∃ passes bindings, List.Forall₂ Site.Yields operandsInArguments.sites passes ∧
        passes.flatMap Pass.drawn = ["a", "b", "c", "d", "e"] ∧
        passes.filterMap Pass.binding? = bindings ∧
        operandsInArguments.normalize (.listed ["a", "b", "c", "d", "e", "z"]) = .ok (
          bindings.reverse.foldr (fun b body => .bind (.variable b.name) b.bound body)
            (operandsInArguments.fill passes),
          .listed ["z"]) ∧
        (bindings.map Binding.name).Nodup) ∧
      operandsInArguments.operands.reverse =
        [.ret (.number 1), .get (.operand (.ret (.variable "p"))), .ret (.symbol (.name "m"))] ∧
      operandsInArguments.normalize (.listed ["a", "b", "c", "d", "e", "z"]) =
        .ok (.bind (.variable "e") (.ret (.number 1))
          (.bind (.variable "d")
            (.bind (.variable "c") (.ret (.variable "p")) (.get (.variable "c")))
            (.bind (.variable "a") (.ret (.symbol (.name "m")))
              (.apply
                (.apply (.extract (.variable "f"))
                  (.record (.cons (.symbol (.name "k")) (.variable "d")
                    (.cons (.symbol (.name "l")) (.variable "e") .nil))))
                (.variant (.variable "a")
                  (.box (.mk (.bind (.variable "b") (.ret (.symbol (.name "a")))
                    (.put (.variable "b") (.number 2))) none .nil)))))), .listed ["z"]) := by
  rcases operands_hoisted_in_order operandsInArguments rfl (.listed ["a", "b", "c", "d", "e", "z"])
    (.listed ["z"]) ["a", "b", "c", "d", "e"] rfl rfl with
    ⟨passes, bindings, hyields, hdrawn, hbindings, _, hnormalize, hdistinct, _⟩
  refine ⟨rfl, rfl, ⟨passes, bindings, hyields, hdrawn, hbindings, hnormalize, ?_⟩, rfl, rfl⟩
  exact hdistinct (by decide)

end Computation

end PushValue
