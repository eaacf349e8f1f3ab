import PushValue.Proofs.Normalize.Placing

/-!
# Inlining undoes normalization

Normalization moves operands and does nothing else.  To put the computations that it has
bound back as operands, from the innermost binding outward, gives the original term.

Bindings that were closed around a computation are put back one after the other.  Their names
are not used in what they bind, so this is the same as to put all of them back at once, and
that is how the rules of hoisting are followed: an open binding stands for what its variable
is to be replaced with.
-/

namespace PushValue

open Rewriting

/-!
## Putting bindings back
-/

namespace Binding

/-- What becomes of variables when bindings that are closed around them are put back, the first one
first. -/
def restoring (N : List String) : List Binding -> String -> Value
  | [], x => .variable x
  | b :: rest, x =>
      Value.rewrite (subst (restoring N rest))
        (if x = b.name then .operand (b.bound.rewrite (inline N)) else .variable x)

variable {N : List String} {bs : List Binding}

theorem restoring_of_notMem {x : String} (h : x ∉ bs.map Binding.name) :
    restoring N bs x = .variable x := by
  induction bs with
  | nil => rfl
  | cons b rest ih =>
      rw [List.map_cons, List.mem_cons, not_or] at h
      rw [restoring, if_neg h.1]
      exact ih h.2

/-- Bindings whose names are not used in what they bind are put back at once. -/
theorem restoring_of_mem (hnames : (bs.map Binding.name).Nodup)
    (hunused : ∀ t ∈ bs.map Binding.name, (Binding.sightings t bs).Unused) {b : Binding}
    (hb : b ∈ bs) :
    restoring N bs b.name = .operand (b.bound.rewrite (inline N)) := by
  induction bs with
  | nil => cases hb
  | cons c rest ih =>
      rcases List.nodup_cons.mp hnames with ⟨hc, hrest⟩
      have hlater : ∀ t ∈ rest.map Binding.name, (Binding.sightings t (c :: rest)).Unused := by
        intro t ht
        exact hunused t (List.mem_cons_of_mem _ ht)
      rw [restoring]
      rcases List.mem_cons.mp hb with rfl | hb
      · rw [if_pos rfl]
        apply Value.rewrite_unmoved
        intro t hmoved
        have ht : t ∈ rest.map Binding.name := by
          by_contra hnot
          exact hmoved (restoring_of_notMem hnot)
        exact b.bound.unused_rewrite (spares_inline N) (hlater t ht).left
      · have hname : b.name ≠ c.name := by
          intro heq
          rw [← heq] at hc
          exact hc (List.mem_map_of_mem hb)
        rw [if_neg hname]
        exact ih hrest (fun t ht => (hlater t ht).right) hb

end Binding

theorem Computation.inline_close {N : List String} {bs : List Binding}
    (hnames : ∀ b ∈ bs, b.name ∈ N) (e : Computation) :
    (e.close bs).rewrite (inline N) =
      (e.rewrite (inline N)).rewrite (subst (Binding.restoring N bs)) := by
  induction bs generalizing e with
  | nil =>
      symm
      apply Computation.rewrite_unmoved
      intro t hmoved
      exact absurd rfl hmoved
  | cons b rest ih =>
      rw [List.forall_mem_cons] at hnames
      have hbind : (Computation.bind (.variable b.name) b.bound e).rewrite (inline N) =
          (e.rewrite (inline N)).rewrite
            (replace b.name (.operand (b.bound.rewrite (inline N)))) := if_pos hnames.1
      rw [close_cons, ih hnames.2, hbind, replace, Computation.rewrite_rewrite]
      rfl

/-!
## Hoisting is undone
-/

/-- A substitution puts bindings back and moves no other names than the given ones. -/
structure Hoist.Fits (N : List String) (bs : List Binding) (σ : String -> Value) : Prop where
  unmoved : ∀ x, x ∉ N -> σ x = .variable x
  restores : ∀ b ∈ bs, σ b.name = .operand (b.bound.rewrite (inline N))

structure Hoist.Fresh (N ns : List String) (seen : String -> Sightings) : Prop where
  distinct : ns.Nodup
  drawn : ∀ t ∈ ns, t ∈ N
  absent : ∀ t ∈ N, (seen t).Absent

section Parts

variable {N ns ms : List String} {bs cs : List Binding} {P Q : String -> Sightings}
  {σ : String -> Value}

theorem Hoist.Fits.left (h : Fits N (bs ++ cs) σ) : Fits N bs σ where
  unmoved := h.unmoved
  restores b hb := h.restores b (List.mem_append_left _ hb)

theorem Hoist.Fits.right (h : Fits N (bs ++ cs) σ) : Fits N cs σ where
  unmoved := h.unmoved
  restores b hb := h.restores b (List.mem_append_right _ hb)

theorem Hoist.Fresh.left (h : Fresh N (ns ++ ms) fun t => P t ++ Q t) : Fresh N ns P where
  distinct := (List.nodup_append.mp h.distinct).1
  drawn t ht := h.drawn t (List.mem_append_left _ ht)
  absent t ht := (h.absent t ht).left

theorem Hoist.Fresh.right (h : Fresh N (ns ++ ms) fun t => P t ++ Q t) : Fresh N ms Q where
  distinct := (List.nodup_append.mp h.distinct).2.1
  drawn t ht := h.drawn t (List.mem_append_right _ ht)
  absent t ht := (h.absent t ht).right

theorem Hoist.Fresh.unmoved (h : Fresh N ns P) (hfits : Fits N bs σ) : Unmoved σ P := by
  intro t hmoved
  have ht : t ∈ N := by
    by_contra hnot
    exact hmoved (hfits.unmoved t hnot)
  exact (h.absent t ht).1

end Parts

/-- Where open bindings are put back into a hoisted term, the term is as it was. -/
structure Hoist.Restores {α : Type} (N ns : List String) (bs : List Binding)
    (seen : String -> Sightings) (f : (String -> Value) -> α) (a : α) : Prop where
  names : (bs.map Binding.name).Sublist ns
  term : Fresh N ns seen -> ∀ σ, Fits N bs σ -> f σ = a

namespace Hoist.Restores

variable {α β γ δ : Type} {N ns ms ks : List String} {bs cs ds : List Binding}
  {P Q S : String -> Sightings} {f : (String -> Value) -> α} {g : (String -> Value) -> β}
  {k : (String -> Value) -> γ} {a : α} {b : β} {c : γ}

theorem still (a : α) : Restores N [] [] P (fun _ => a) a where
  names := List.Sublist.refl _
  term _ _ _ := rfl

theorem map (h : Restores N ns bs P f a) (F : α -> β) :
    Restores N ns bs P (fun σ => F (f σ)) (F a) where
  names := h.names
  term hfresh σ hfits := congrArg F (h.term hfresh σ hfits)

theorem pair (hf : Restores N ns bs P f a) (hg : Restores N ms cs Q g b) (F : α -> β -> γ) :
    Restores N (ns ++ ms) (bs ++ cs) (fun t => P t ++ Q t) (fun σ => F (f σ) (g σ)) (F a b) where
  names := by
    rw [List.map_append]
    exact hf.names.append hg.names
  term hfresh σ hfits :=
    congrArg₂ F (hf.term hfresh.left σ hfits.left) (hg.term hfresh.right σ hfits.right)

theorem triple (hf : Restores N ns bs P f a) (hg : Restores N ms cs Q g b)
    (hk : Restores N ks ds S k c) (F : α -> β -> γ -> δ) :
    Restores N (ns ++ (ms ++ ks)) (bs ++ cs ++ ds) (fun t => P t ++ Q t ++ S t)
      (fun σ => F (f σ) (g σ) (k σ)) (F a b c) := by
  rw [← List.append_assoc]
  exact (hf.pair hg F).pair hk fun F c => F c

theorem pairClosed (hf : Restores N ns bs P f a) (hg : Restores N ms [] Q g b) (F : α -> β -> γ) :
    Restores N (ns ++ ms) bs (fun t => P t ++ Q t) (fun σ => F (f σ) (g σ)) (F a b) := by
  rw [← List.append_nil bs]
  exact hf.pair hg F

theorem tripleClosed (hf : Restores N ns bs P f a) (hg : Restores N ms [] Q g b)
    (hk : Restores N ks ds S k c) (F : α -> β -> γ -> δ) :
    Restores N (ns ++ (ms ++ ks)) (bs ++ ds) (fun t => P t ++ Q t ++ S t)
      (fun σ => F (f σ) (g σ) (k σ)) (F a b c) := by
  rw [← List.append_assoc]
  exact (hf.pairClosed hg F).pair hk fun F c => F c

theorem beside (h : Restores N ns bs Q f a) : Restores N ns bs (fun t => P t ++ Q t) f a where
  names := h.names
  term hfresh := h.term ⟨hfresh.distinct, hfresh.drawn, fun t ht => (hfresh.absent t ht).right⟩

theorem «variable» (x : String) :
    Restores N [] [] (fun t => (Value.variable x).sightings t) (fun σ => σ x) (.variable x) where
  names := List.Sublist.refl _
  term := by
    intro hfresh σ hfits
    exact (Value.variable x).rewrite_unmoved (hfresh.unmoved hfits)

end Hoist.Restores

section Restoring

open Hoist

variable {mixed : Prop} {N ns ms : List String} {bs cs : List Binding}

namespace Computation.Hoists

variable {e e' e₁ e₁' e₂ e₂' : Computation}

theorem inline_close (he : e.Hoists mixed ns e' bs)
    (h : Restores N ns bs (fun t => e.sightings t)
      (fun σ => (e'.rewrite (inline N)).rewrite (subst σ)) e)
    (hfresh : Fresh N ns fun t => e.sightings t) : (e'.close bs).rewrite (inline N) = e := by
  have hdrawn : ∀ t ∈ bs.map Binding.name, t ∈ N := by
    intro t ht
    exact hfresh.drawn t (h.names.subset ht)
  have hnames : ∀ b ∈ bs, b.name ∈ N := by
    intro b hb
    exact hdrawn _ (List.mem_map_of_mem hb)
  have hunused : ∀ t ∈ bs.map Binding.name, (Binding.sightings t bs).Unused := by
    intro t ht
    exact ((he.placed (hfresh.absent t (hdrawn t ht))).apart hfresh.distinct ht).2
  rw [Computation.inline_close hnames]
  apply h.term hfresh
  constructor
  · intro x hx
    exact Binding.restoring_of_notMem fun hmem => hx (hdrawn x hmem)
  · intro b hb
    exact Binding.restoring_of_mem (h.names.nodup hfresh.distinct) hunused hb

theorem restores_closed (he : e.Hoists mixed ns e' bs)
    (h : Restores N ns bs (fun t => e.sightings t)
      (fun σ => (e'.rewrite (inline N)).rewrite (subst σ)) e) :
    Restores N ns [] (fun t => e.sightings t)
      (fun σ => ((e'.close bs).rewrite (inline N)).rewrite (subst σ)) e where
  names := List.nil_sublist _
  term := by
    intro hfresh σ hfits
    show ((e'.close bs).rewrite (inline N)).rewrite (subst σ) = e
    rw [he.inline_close h hfresh]
    exact e.rewrite_unmoved (hfresh.unmoved hfits)

theorem restores_operand (he : e.Hoists mixed ns e' bs)
    (h : Restores N ns bs (fun t => e.sightings t)
      (fun σ => (e'.rewrite (inline N)).rewrite (subst σ)) e) (x : String) :
    Restores N (ns ++ [x]) [⟨x, e'.close bs⟩] (fun t => e.sightings t) (fun σ => σ x)
      (Value.operand e) where
  names := List.sublist_append_right _ _
  term := by
    intro hfresh σ hfits
    have hinner : Fresh N ns fun t => e.sightings t :=
      ⟨(List.nodup_append.mp hfresh.distinct).1,
        fun t ht => hfresh.drawn t (List.mem_append_left _ ht), hfresh.absent⟩
    show σ x = .operand e
    rw [← he.inline_close h hinner]
    exact hfits.restores _ List.mem_cons_self

end Computation.Hoists

theorem Rewriting.atBinding_inline {p : Pattern} (hp : ∀ t ∈ N, p ≠ .variable t)
    (e₁ e₂ : Computation) : (Rewriting.inline N).atBinding p e₁ e₂ = .bind p e₁ e₂ := by
  cases p with
  | «variable» x => exact if_neg fun hx => hp x hx rfl
  | _ => rfl

theorem Hoist.Restores.binding {p : Pattern} {e₁ e₁' e₂ e₂' : Computation}
    (h : Restores N ns [] (fun t => e₁.sightings t ++ e₂.sightings t)
      (fun σ => Computation.bind p (e₁'.rewrite (subst σ)) (e₂'.rewrite (subst σ)))
      (.bind p e₁ e₂)) :
    Restores N ns [] (fun t => (Computation.bind p e₁ e₂).sightings t)
      (fun σ => ((Rewriting.inline N).atBinding p e₁' e₂').rewrite (subst σ)) (.bind p e₁ e₂) where
  names := h.names
  term := by
    intro hfresh σ hfits
    have hp : ∀ t ∈ N, p ≠ .variable t := by
      intro t ht
      exact Pattern.ne_variable_of_absent (hfresh.absent t ht).left
    show ((Rewriting.inline N).atBinding p e₁' e₂').rewrite (subst σ) = .bind p e₁ e₂
    rw [atBinding_inline hp]
    exact h.beside.term hfresh σ hfits

mutual

/-- To put back the bindings that hoisting leaves undoes the hoisting. -/
theorem Value.Hoists.restores {v v' : Value} {ns : List String} {bs : List Binding} :
    v.Hoists False ns v' bs -> Restores N ns bs (fun t => v.sightings t)
      (fun σ => (v'.rewrite (inline N)).rewrite (subst σ)) v
  | .number _ | .symbol _ | .pointer _ | .process _ => .still _
  | .variable x => .variable x
  | .variant hl hp => hl.restores.pair hp.restores Value.variant
  | .record hfs => hfs.restores.map Value.record
  | .extend hb hl hv => hb.restores.triple hl.restores hv.restores Value.extend
  | .box hb => hb.restores.map Value.box
  | .operand x he => he.restores_operand he.restores x

theorem Fields.Hoists.restores {fs fs' : Fields} {ns : List String} {bs : List Binding} :
    fs.Hoists False ns fs' bs -> Restores N ns bs (fun t => fs.sightings t)
      (fun σ => (fs'.rewrite (inline N)).rewrite (subst σ)) fs
  | .nil => .still _
  | .cons hl hv hrest => hl.restores.triple hv.restores hrest.restores Fields.cons

theorem Box.Hoists.restores {b b' : Box} {ns : List String} :
    b.Hoists False ns b' -> Restores N ns [] (fun t => b.sightings t)
      (fun σ => (b'.rewrite (inline N)).rewrite (subst σ)) b
  | .mk self captured hcode =>
      ((hcode.restores_closed hcode.restores).map fun code => Box.mk code self captured).beside

theorem Computation.Hoists.restores {e e' : Computation} {ns : List String} {bs : List Binding} :
    e.Hoists False ns e' bs -> Restores N ns bs (fun t => e.sightings t)
      (fun σ => (e'.rewrite (inline N)).rewrite (subst σ)) e
  | .hole => .still _
  | .ret hv => hv.restores.map Computation.ret
  | .extract hv => hv.restores.map Computation.extract
  | .get hv => hv.restores.map Computation.get
  | .link hv => hv.restores.map Computation.link
  | .put ha hb => ha.restores.pair hb.restores Computation.put
  | .assert equal ha hb => ha.restores.pair hb.restores fun a b => Computation.assert a equal b
  | .nest hv he => hv.restores.pairClosed (he.restores_closed he.restores) Computation.nest
  | .spawn hv he => hv.restores.pairClosed (he.restores_closed he.restores) Computation.spawn
  | .apply hv he => hv.restores.pair he.restores fun v e => Computation.apply e v
  | .project hv he => hv.restores.pair he.restores fun v e => Computation.project e v
  | .lambda p he => ((he.restores_closed he.restores).map (Computation.lambda p)).beside
  | .bind p he₁ he₂ =>
      ((he₁.restores_closed he₁.restores).pair (he₂.restores_closed he₂.restores)
        (Computation.bind p)).binding
  | .bindBox p he₁ he₂ =>
      ((he₁.restores_closed he₁.restores).pair (he₂.restores_closed he₂.restores)
        (Computation.bindBox p)).beside
  | .switch hv hcases => hv.restores.pair hcases.restores Computation.switch
  | .branches hbs => hbs.restores.map Computation.branches

theorem Cases.Hoists.restores {cs cs' : Cases} {ns : List String} {bs : List Binding} :
    cs.Hoists False ns cs' bs -> Restores N ns bs (fun t => cs.sightings t)
      (fun σ => (cs'.rewrite (inline N)).rewrite (subst σ)) cs
  | .nil => .still _
  | .cons p hl he hrest =>
      (hl.restores.tripleClosed (he.restores_closed he.restores) hrest.restores
        fun l e rest => Cases.cons l p e rest).beside

theorem Branches.Hoists.restores {bs bs' : Branches} {ns : List String} {cs : List Binding} :
    bs.Hoists False ns bs' cs -> Restores N ns cs (fun t => bs.sightings t)
      (fun σ => (bs'.rewrite (inline N)).rewrite (subst σ)) bs
  | .nil => .still _
  | .cons hl he hrest =>
      hl.restores.tripleClosed (he.restores_closed he.restores) hrest.restores Branches.cons

end

end Restoring

/-!
## Normalization
-/

namespace Computation

/-- Normalization with names that are distinct and not in the computation binds every name that it
draws once, and uses it once, in the body of that binding.  To replace each of these bindings by
its body, with what was bound as an operand in the place of the variable and from the innermost
binding outward, gives back the computation, if no part of it is out of place. -/
theorem inline_normalize (e e' : Computation) (supply rest : NameSupply)
    (h : e.normalize supply = .ok (e', rest)) (hdistinct : ∀ n, (supply.take n).1.Nodup)
    (hfresh : ∀ n, ∀ t ∈ (supply.take n).1, (e.sightings t).Absent) :
    ∃ names, supply.Gives names rest ∧
      (∀ t ∈ names, ∃ bound body, (e'.sightings t).binders = [.bind bound body] ∧
        (e'.sightings t).uses = 1 ∧ (body.sightings t).uses = 1) ∧
      (e.passes .unmixed -> e'.rewrite (.inline names) = e) := by
  -- The rules for mixed terms are there if and only if something is mixed.
  have hrules : ¬ e.passes .unmixed ∨ e.passes .unmixed := (Decidable.em _).symm
  rcases exists_of_normalize hrules h with ⟨names, hoisted, bs, hgives, hhoists, rfl⟩
  have hnames : (supply.take names.length).1 = names := congrArg Prod.fst hgives
  have hnodup : names.Nodup := hnames ▸ hdistinct names.length
  have habsent : ∀ t ∈ names, (e.sightings t).Absent := hnames ▸ hfresh names.length
  refine ⟨names, hgives, ?_, ?_⟩
  · intro t ht
    exact (hhoists.placed (habsent t ht)).closed.once hnodup ht
  · intro hunmixed
    rw [eq_false (not_not_intro hunmixed)] at hhoists
    exact hhoists.inline_close hhoists.restores ⟨hnodup, fun _ ht => ht, habsent⟩

def scatteredOperands : Computation :=
  .bind (.variable "r")
    (.ret (.record (.cons (.symbol (.name "a"))
      (.operand (.get (.operand (.ret (.pointer (.name "p")))))) .nil)))
    (.apply (.lambda .ignore (.ret (.operand (.ret (.variable "r")))))
      (.box (.mk (.put (.symbol (.name "b")) (.operand (.ret (.number 1)))) none .nil)))

theorem inline_normalize_scatteredOperands :
    ∃ e', scatteredOperands.normalize (.listed ["x", "y", "z", "w", "v"]) =
        .ok (e', .listed ["v"]) ∧
      (∃ bound body, (e'.sightings "x").binders = [.bind bound body] ∧
        (e'.sightings "x").uses = 1 ∧ (body.sightings "x").uses = 1) ∧
      e'.rewrite (.inline ["x", "y", "z", "w"]) = scatteredOperands := by
  have htake := NameSupply.take_listed ["x", "y", "z", "w", "v"]
  have habsent : ∀ t ∈ ["x", "y", "z", "w", "v"], (scatteredOperands.sightings t).Absent := by
    simp only [List.forall_mem_cons]
    exact ⟨⟨rfl, rfl⟩, ⟨rfl, rfl⟩, ⟨rfl, rfl⟩, ⟨rfl, rfl⟩, ⟨rfl, rfl⟩, List.forall_mem_nil _⟩
  have hinline := inline_normalize scatteredOperands _ (.listed ["x", "y", "z", "w", "v"])
    (.listed ["v"]) rfl
    (fun n => htake n ▸ (List.take_sublist n _).nodup (by decide))
    (fun n t ht => habsent t (List.mem_of_mem_take (htake n ▸ ht)))
  rcases hinline with ⟨names, hgives, hplaced, hrestored⟩
  have hnames : ["x", "y", "z", "w"] = names :=
    List.append_cancel_right (NameSupply.eq_append_of_gives_listed hgives)
  cases hnames
  exact ⟨_, rfl, hplaced "x" List.mem_cons_self, hrestored rfl⟩

end Computation

end PushValue
