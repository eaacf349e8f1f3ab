import PushValue.Machine.Head
import PushValue.Machine.Match
import PushValue.Proofs.Bisimulation
import PushValue.Proofs.Renaming.Basic
import PushValue.Proofs.Tables

/-!
# Reading under a renaming

The machine resolves values in an environment, matches them against patterns and chooses cases
and branches by their labels.  On renamed terms and in a renamed environment all this comes to
renamed results, or fails in the same way.
-/

namespace PushValue

/-!
## Faults
-/

section

variable (R : String -> String -> Prop)

inductive Fault.Renamed : Fault -> Fault -> Prop
  | undefinedVariable {x x' : String} (hx : R x x') :
      Renamed (.undefinedVariable x) (.undefinedVariable x')
  | undefinedBox {x x' : String} (hx : R x x') : Renamed (.undefinedBox x) (.undefinedBox x')
  | fieldNotFound {l l' : Value} (hl : l.Renamed R l') :
      Renamed (.fieldNotFound l) (.fieldNotFound l')
  | variantMismatch {l l' m m' : Value} (hl : l.Renamed R l') (hm : m.Renamed R m') :
      Renamed (.variantMismatch l m) (.variantMismatch l' m')
  | switchNotVariant {v v' : Value} (hv : v.Renamed R v') :
      Renamed (.switchNotVariant v) (.switchNotVariant v')
  | notSymbol {v v' : Value} (hv : v.Renamed R v') : Renamed (.notSymbol v) (.notSymbol v')
  | notPointer {v v' : Value} (hv : v.Renamed R v') : Renamed (.notPointer v) (.notPointer v')
  | notLinkTarget {v v' : Value} (hv : v.Renamed R v') :
      Renamed (.notLinkTarget v) (.notLinkTarget v')
  | assertionFailed {v v' w w' : Value} (equal : Bool) (hv : v.Renamed R v')
      (hw : w.Renamed R w') :
      Renamed (.assertionFailed v equal w) (.assertionFailed v' equal w')
  | operandLeft : Renamed .operandLeft .operandLeft
  | notRecord : Renamed .notRecord .notRecord
  | notVariant : Renamed .notVariant .notVariant
  | noStep : Renamed .noStep .noStep
  | missingCase (s : Symbol) : Renamed (.missingCase s) (.missingCase s)
  | missingBranch (s : Symbol) : Renamed (.missingBranch s) (.missingBranch s)
  | noSuchProcess (s : Symbol) : Renamed (.noSuchProcess s) (.noSuchProcess s)
  | undefinedEntry (s : Symbol) : Renamed (.undefinedEntry s) (.undefinedEntry s)
  | duplicateName (s : Symbol) : Renamed (.duplicateName s) (.duplicateName s)

/-- Breakages tell of no names. -/
inductive Failure.Renamed : Failure -> Failure -> Prop
  | fault {f f' : Fault} (hf : f.Renamed R f') : Renamed (.fault f) (.fault f')
  | breakage (b : Breakage) : Renamed (.breakage b) (.breakage b)

abbrev Mirrors {α α' : Type} (holds : α -> α' -> Prop) :
    Except Failure α -> Except Failure α' -> Prop :=
  Tally (Failure.Renamed R) holds

inductive Part.Renamed : Part -> Part -> Prop
  | case {l l' : Value} {p p' : Pattern} {e e' : Computation} (hl : l.Renamed R l')
      (hp : p.Renamed R p') (he : e.Renamed R e') : Renamed (.case l p e) (.case l' p' e')
  | branch {l l' : Value} {e e' : Computation} (hl : l.Renamed R l') (he : e.Renamed R e') :
      Renamed (.branch l e) (.branch l' e')

/-!
## Environments
-/

/-- Each name of one scope belongs to a name of the other, with a renamed value. -/
structure Scope.Renamed (vs vs' : Table String Value) : Prop where
  there : ∀ x v, vs.get? x = some v -> ∃ x' v', R x x' ∧ vs'.get? x' = some v' ∧ v.Renamed R v'
  back : ∀ x' v', vs'.get? x' = some v' -> ∃ x v, R x x' ∧ vs.get? x = some v ∧ v.Renamed R v'

inductive Environment.Renamed : Environment -> Environment -> Prop
  | mk {vs vs' : Table String Value} {bs bs' : Boxes} (hvalues : Scope.Renamed R vs vs')
      (hboxes : bs.Renamed R bs') : Renamed (.mk vs bs) (.mk vs' bs')

end

variable {R : String -> String -> Prop}

theorem Mirrors.fault {α α' : Type} {holds : α -> α' -> Prop} {f f' : Fault}
    (hf : f.Renamed R f') : Mirrors R holds (.error (.fault f)) (.error (.fault f')) :=
  Tally.error (.fault hf)

theorem Mirrors.ofLack {α α' : Type} {holds : α -> α' -> Prop} {x : Except Lack α}
    {x' : Except Lack α'} (h : Tally Eq holds x x') :
    Mirrors R holds (Failure.ofLack x) (Failure.ofLack x') := by
  cases h with
  | ok h => exact .ok h
  | error h =>
      cases h
      exact .error (.breakage _)

namespace Scope.Renamed

variable {vs vs' : Table String Value}

theorem empty : Scope.Renamed R Table.empty Table.empty where
  there x v h := by cases h
  back x v h := by cases h

/-- Names that belong together are bound on both sides or on neither. -/
theorem get? (hR : Relator.BiUnique R) (h : Scope.Renamed R vs vs') {x x' : String}
    (hx : R x x') : Option.Rel (Value.Renamed R) (vs.get? x) (vs'.get? x') := by
  cases hget : vs.get? x with
  | some v =>
      rcases h.there x v hget with ⟨y, v', hy, hget', hv⟩
      rw [hR.2 hx hy, hget']
      exact .some hv
  | none =>
      cases hget' : vs'.get? x' with
      | none => exact .none
      | some v' =>
          rcases h.back x' v' hget' with ⟨y, v, hy, hfound, _⟩
          rw [hR.1 hx hy, hfound] at hget
          cases hget

theorem insert (hR : Relator.BiUnique R) (h : Scope.Renamed R vs vs') {x x' : String}
    (hx : R x x') {v v' : Value} (hv : v.Renamed R v') :
    Scope.Renamed R (vs.insert x v) (vs'.insert x' v') where
  there y w hget := by
    rw [Table.get?_insert] at hget
    split at hget
    next heq =>
      cases hget
      exact ⟨x', v', heq ▸ hx, Table.get?_insert_self vs' x' v', hv⟩
    next hne =>
      rcases h.there y w hget with ⟨y', w', hy, hget', hw⟩
      have hne' : y' ≠ x' := mt (Relator.rel_eq hR hy hx).2 hne
      exact ⟨y', w', hy, by rw [Table.get?_insert, if_neg hne', hget'], hw⟩
  back y' w' hget := by
    rw [Table.get?_insert] at hget
    split at hget
    next heq =>
      cases hget
      exact ⟨x, v, heq ▸ hx, Table.get?_insert_self vs x v, hv⟩
    next hne =>
      rcases h.back y' w' hget with ⟨y, w, hy, hget', hw⟩
      have hne' : y ≠ x := mt (Relator.rel_eq hR hy hx).1 hne
      exact ⟨y, w, hy, by rw [Table.get?_insert, if_neg hne', hget'], hw⟩

end Scope.Renamed

namespace Boxes.Renamed

theorem get? (hR : Relator.BiUnique R) {x x' : String} (hx : R x x') {bs bs' : Boxes}
    (h : bs.Renamed R bs') : Option.Rel (Box.Renamed R) (bs.get? x) (bs'.get? x') := by
  cases h with
  | nil => exact .none
  | cons hy hb hrest =>
      rw [Boxes.get?, Boxes.get?]
      split
      next heq =>
        rw [if_pos ((Relator.rel_eq hR hx hy).1 heq)]
        exact .some hb
      next hne =>
        rw [if_neg (mt (Relator.rel_eq hR hx hy).2 hne)]
        exact get? hR hx hrest

theorem insert {x : String} (hx : R x x) {b b' : Box} (hb : b.Renamed R b') {bs bs' : Boxes}
    (h : bs.Renamed R bs') : (bs.insert x b).Renamed R (bs'.insert x b') := by
  cases h with
  | nil => exact .cons hx hb .nil
  | @cons y _ _ _ _ hy hc hrest =>
      rw [Boxes.insert, Boxes.insert]
      cases compare x y with
      | lt => exact .cons hx hb (.cons hy hc hrest)
      | eq => exact .cons hx hb hrest
      | gt => exact .cons hy hc (insert hx hb hrest)

theorem union {base base' : Boxes} (hbase : base.Renamed R base') {bs bs' : Boxes}
    (h : bs.Renamed R bs') : (bs.union base).Renamed R (bs'.union base') := by
  cases h with
  | nil => exact hbase
  | cons hx hb hrest => exact insert hx hb (union hbase hrest)

theorem capture {own own' scope scope' : Boxes} (hown : own.Renamed R own')
    (hscope : scope.Renamed R scope') :
    (own.capture scope).Renamed R (own'.capture scope') := by
  cases hscope with
  | nil => exact hown
  | cons hx hb hrest => exact union (.cons hx hb hrest) hown

end Boxes.Renamed

namespace Environment.Renamed

variable {env env' : Environment}

theorem empty : Environment.Renamed R .empty .empty := .mk .empty .nil

theorem boxes (h : env.Renamed R env') : Tally Eq (Boxes.Renamed R) env.boxes env'.boxes := by
  cases h with
  | mk _ hboxes => exact .ok hboxes

theorem bind (hR : Relator.BiUnique R) (h : env.Renamed R env') {x x' : String} (hx : R x x')
    {v v' : Value} (hv : v.Renamed R v') :
    Tally Eq (Environment.Renamed R) (env.bind x v) (env'.bind x' v') := by
  cases h with
  | mk hvalues hboxes => exact Tally.ok (.mk (hvalues.insert hR hx hv) hboxes)

theorem bindBox (h : env.Renamed R env') {x : String} (hx : R x x) {b b' : Box}
    (hb : b.Renamed R b') :
    Tally Eq (Environment.Renamed R) (env.bindBox x b) (env'.bindBox x b') := by
  cases h with
  | mk hvalues hboxes => exact Tally.ok (.mk hvalues (hboxes.insert hx hb))

end Environment.Renamed

theorem Box.Renamed.unpack (hR : Relator.BiUnique R) {b b' : Box} (h : b.Renamed R b') :
    Tally Eq (fun u u' => u.1.Renamed R u'.1 ∧ u.2.Renamed R u'.2) b.unpack b'.unpack := by
  cases h with
  | mk hcode hself hcaptured =>
      refine Tally.ok ⟨hcode, ?_⟩
      cases hself with
      | none => exact .mk .empty hcaptured
      | some hx =>
          have hbox := Value.Renamed.box (.mk hcode (.some hx) hcaptured)
          exact .mk (Scope.Renamed.empty.insert hR hx hbox) hcaptured

/-!
## Resolving
-/

mutual

theorem Value.Renamed.resolve (hR : Relator.BiUnique R) {env env' : Environment}
    (henv : env.Renamed R env') :
    {v v' : Value} -> v.Renamed R v' ->
      Mirrors R (Value.Renamed R) (v.resolve env) (v'.resolve env')
  | _, _, .number n => Tally.ok (.number n)
  | _, _, .symbol s => Tally.ok (.symbol s)
  | _, _, .pointer s => Tally.ok (.pointer s)
  | _, _, .process s => Tally.ok (.process s)
  | _, _, .variable hx => by
      cases henv with
      | mk hvalues hboxes =>
          rw [Value.resolve, Value.resolve]
          refine Tally.bind (Mirrors.ofLack (Tally.ok hvalues)) fun vs vs' hvs => ?_
          have hfound := hvs.get? hR hx
          generalize vs.get? _ = found, vs'.get? _ = found' at hfound ⊢
          cases hfound with
          | some hv => exact Tally.ok hv
          | none => exact Mirrors.fault (.undefinedVariable hx)
  | _, _, .variant hl hp => by
      rw [Value.resolve, Value.resolve]
      refine (hl.resolve hR henv).bind fun l l' hl => ?_
      refine (hp.resolve hR henv).bind fun p p' hp => ?_
      exact Tally.ok (.variant hl hp)
  | _, _, .record hfs => by
      rw [Value.resolve, Value.resolve]
      refine (hfs.resolve hR henv).bind fun fs fs' hfs => ?_
      exact Tally.ok (.record hfs)
  | _, _, .extend hb hl hv => by
      rw [Value.resolve, Value.resolve]
      refine (hb.resolve hR henv).bind fun b b' hb => ?_
      refine (hl.resolve hR henv).bind fun l l' hl => ?_
      refine (hv.resolve hR henv).bind fun v v' hv => ?_
      exact Tally.ok (.extend hb hl hv)
  | _, _, .box (.mk hcode hself hcaptured) => by
      cases henv with
      | mk hvalues hboxes =>
          exact Tally.ok (.box (.mk hcode hself (hcaptured.capture hboxes)))
  | _, _, .operand _ => Mirrors.fault .operandLeft

theorem Fields.Renamed.resolve (hR : Relator.BiUnique R) {env env' : Environment}
    (henv : env.Renamed R env') :
    {fs fs' : Fields} -> fs.Renamed R fs' ->
      Mirrors R (Fields.Renamed R) (fs.resolve env) (fs'.resolve env')
  | _, _, .nil => Tally.ok .nil
  | _, _, .cons hl hv hrest => by
      rw [Fields.resolve, Fields.resolve]
      refine (hl.resolve hR henv).bind fun l l' hl => ?_
      refine (hv.resolve hR henv).bind fun v v' hv => ?_
      refine (hrest.resolve hR henv).bind fun rest rest' hrest => ?_
      exact Tally.ok (.cons hl hv hrest)

end

namespace Value.Renamed

variable {v v' : Value} {env env' : Environment}

theorem toSymbol (h : v.Renamed R v') : Mirrors R Eq v.toSymbol v'.toSymbol := by
  cases h with
  | symbol s => exact Tally.ok rfl
  | _ => exact Mirrors.fault (.notSymbol (by constructor <;> assumption))

theorem toPointer (h : v.Renamed R v') : Mirrors R Eq v.toPointer v'.toPointer := by
  cases h with
  | pointer s => exact Tally.ok rfl
  | _ => exact Mirrors.fault (.notPointer (by constructor <;> assumption))

theorem resolveSymbol (hR : Relator.BiUnique R) (henv : env.Renamed R env')
    (h : v.Renamed R v') : Mirrors R Eq (v.resolveSymbol env) (v'.resolveSymbol env') :=
  (h.resolve hR henv).bind fun _ _ hv => hv.toSymbol

theorem resolvePointer (hR : Relator.BiUnique R) (henv : env.Renamed R env')
    (h : v.Renamed R v') : Mirrors R Eq (v.resolvePointer env) (v'.resolvePointer env') :=
  (h.resolve hR henv).bind fun _ _ hv => hv.toPointer

end Value.Renamed

/-!
## Matching
-/

theorem Fields.Renamed.find (hR : Relator.BiUnique R) {label label' : Value}
    (hlabel : label.Renamed R label') :
    {fs fs' : Fields} -> fs.Renamed R fs' ->
      Mirrors R (Value.Renamed R) (fs.find label) (fs'.find label')
  | _, _, .nil => Mirrors.fault (.fieldNotFound hlabel)
  | _, _, .cons hl hv hrest => by
      rw [Fields.find, Fields.find]
      exact Tally.ite (hl.eq_iff hR hlabel) (Tally.ok hv) (hrest.find hR hlabel)

theorem Value.Renamed.field (hR : Relator.BiUnique R) {label label' : Value}
    (hlabel : label.Renamed R label') :
    {v v' : Value} -> v.Renamed R v' ->
      Mirrors R (Value.Renamed R) (v.field label) (v'.field label')
  | _, _, .record hfs => by
      rw [Value.field, Value.field]
      exact hfs.find hR hlabel
  | _, _, .extend hb hl hv => by
      rw [Value.field, Value.field]
      exact Tally.ite (hl.eq_iff hR hlabel) (Tally.ok hv)
        (Value.Renamed.field hR hlabel hb)
  | _, _, .number _ | _, _, .symbol _ | _, _, .pointer _ | _, _, .process _ | _, _, .variable _
  | _, _, .variant _ _ | _, _, .box _ | _, _, .operand _ => Mirrors.fault .notRecord

theorem Value.Renamed.isRecord {v v' : Value} (h : v.Renamed R v') :
    v.isRecord = v'.isRecord := by
  cases h <;> rfl

mutual

theorem Pattern.Renamed.bind (hR : Relator.BiUnique R) {p p' : Pattern} {v v' : Value}
    {env env' : Environment} (hv : v.Renamed R v') (henv : env.Renamed R env') :
    p.Renamed R p' -> Mirrors R (Environment.Renamed R) (p.bind v env) (p'.bind v' env')
  | .ignore => Tally.ok henv
  | .variable hx => Mirrors.ofLack (henv.bind hR hx hv)
  | .fields hps => by
      rw [Pattern.bind, Pattern.bind]
      exact Tally.ite (by rw [hv.isRecord]) (hps.bind hR hv henv) (Mirrors.fault .notRecord)
  | .variant hl hp => by
      cases hv with
      | variant hfound hpayload =>
          rw [Pattern.bind, Pattern.bind]
          refine (hl.resolve hR henv).bind fun l l' hl => ?_
          exact Tally.ite (hfound.eq_iff hR hl) (hp.bind hR hpayload henv)
            (Mirrors.fault (.variantMismatch hl hfound))
      | _ => exact Mirrors.fault .notVariant

theorem FieldPatterns.Renamed.bind (hR : Relator.BiUnique R) {ps ps' : FieldPatterns}
    {v v' : Value} {env env' : Environment} (hv : v.Renamed R v') (henv : env.Renamed R env') :
    ps.Renamed R ps' -> Mirrors R (Environment.Renamed R) (ps.bind v env) (ps'.bind v' env')
  | .nil => Tally.ok henv
  | .cons hl hp hrest => by
      rw [FieldPatterns.bind, FieldPatterns.bind]
      refine (hl.resolve hR henv).bind fun l l' hl => ?_
      refine (Value.Renamed.field hR hl hv).bind fun part part' hpart => ?_
      refine (hp.bind hR hpart henv).bind fun env env' henv => ?_
      exact hrest.bind hR hv henv

end

/-!
## Choosing by label
-/

section

variable {env env' : Environment} {s : Symbol}

theorem Cases.Renamed.select (hR : Relator.BiUnique R) (henv : env.Renamed R env') :
    {cs cs' : Cases} -> cs.Renamed R cs' ->
      Mirrors R (Part.Renamed R) (cs.select env s) (cs'.select env' s)
  | _, _, .nil => Mirrors.fault (.missingCase s)
  | _, _, .cons hl hp he hrest => by
      rw [Cases.select, Cases.select]
      refine (hl.resolveSymbol hR henv).bind fun label label' hlabel => ?_
      exact Tally.ite (by rw [hlabel]) (Tally.ok (.case hl hp he)) (hrest.select hR henv)

theorem Branches.Renamed.select (hR : Relator.BiUnique R) (henv : env.Renamed R env') :
    {bs bs' : Branches} -> bs.Renamed R bs' ->
      Mirrors R (Part.Renamed R) (bs.select env s) (bs'.select env' s)
  | _, _, .nil => Mirrors.fault (.missingBranch s)
  | _, _, .cons hl he hrest => by
      rw [Branches.select, Branches.select]
      refine (hl.resolveSymbol hR henv).bind fun label label' hlabel => ?_
      exact Tally.ite (by rw [hlabel]) (Tally.ok (.branch hl he)) (hrest.select hR henv)

end

theorem Part.Renamed.body {p p' : Part} (h : p.Renamed R p') :
    Tally Eq (Computation.Renamed R) p.body p'.body := by
  cases h with
  | case _ _ he => exact .ok he
  | branch _ he => exact .ok he

theorem Part.Renamed.bind (hR : Relator.BiUnique R) {p p' : Part} {v v' : Value}
    {env env' : Environment} (hv : v.Renamed R v') (henv : env.Renamed R env')
    (h : p.Renamed R p') :
    Mirrors R (Environment.Renamed R) (p.bind v env) (p'.bind v' env') := by
  cases h with
  | case _ hp _ =>
      rw [Part.bind, Part.bind]
      exact hp.bind hR hv henv
  | branch =>
      -- A branch has no pattern, and says so on both sides.
      exact Tally.error (.breakage _)

/-!
## Heads
-/

theorem Cases.Renamed.head :
    {cs cs' : Cases} -> cs.Renamed R cs' -> Tally Eq (Cases.Renamed R) cs.head cs'.head
  | _, _, .nil => Tally.ok .nil
  | _, _, .cons hl hp _ hrest => by
      rw [Cases.head, Cases.head]
      refine hrest.head.bind fun rest rest' hrest => ?_
      exact Tally.ok (.cons hl hp .hole hrest)

theorem Branches.Renamed.head :
    {bs bs' : Branches} -> bs.Renamed R bs' -> Tally Eq (Branches.Renamed R) bs.head bs'.head
  | _, _, .nil => Tally.ok .nil
  | _, _, .cons hl _ hrest => by
      rw [Branches.head, Branches.head]
      refine hrest.head.bind fun rest rest' hrest => ?_
      exact Tally.ok (.cons hl .hole hrest)

theorem Computation.Renamed.head {e e' : Computation} (h : e.Renamed R e') :
    Mirrors R (Computation.Renamed R) e.head e'.head := by
  cases h with
  | hole => exact Tally.ok .hole
  | returned hv => exact Tally.ok (.returned hv)
  | ret hv => exact Tally.ok (.ret hv)
  | extract hv => exact Tally.ok (.extract hv)
  | get hv => exact Tally.ok (.get hv)
  | link hv => exact Tally.ok (.link hv)
  | put hs hv => exact Tally.ok (.put hs hv)
  | assert equal ha hb => exact Tally.ok (.assert equal ha hb)
  | nest hv _ => exact Tally.ok (.nest hv .hole)
  | spawn hv _ => exact Tally.ok (.spawn hv .hole)
  | apply _ hv => exact Tally.ok (.apply .hole hv)
  | project _ hv => exact Tally.ok (.project .hole hv)
  | lambda hp _ => exact Tally.ok (.lambda hp .hole)
  | bind hp _ _ => exact Tally.ok (.bind hp .hole .hole)
  | bindBox hp hbox _ _ => exact Tally.ok (.bindBox hp hbox .hole .hole)
  | switch hv hcs =>
      refine Tally.bind (Mirrors.ofLack hcs.head) fun cs cs' hcs => ?_
      exact Tally.ok (.switch hv hcs)
  | branches hbs =>
      refine Tally.bind (Mirrors.ofLack hbs.head) fun bs bs' hbs => ?_
      exact Tally.ok (.branches hbs)

end PushValue
