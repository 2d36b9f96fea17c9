import TraitEngine.Proofs.Mentions
import TraitEngine.Proofs.Reporting
/-!
# Passing through a type

Whoever lowers a type or a bound comes from one context to another, and what holds between the two
depends on little: on the requests that are made for the traits of bounds, and on what becomes of
their answers. A `Passage` is a relation between contexts together with just that, and then it
holds across every type and every bound (`Passage.lowerTy_goes`). The recursion, which is that of
the definitions, is done here and nowhere else for a relation of this kind.

What a request may need is that the trait may be asked for (`Asks`), which is required of the
traits that the syntax mentions. What is known of a bound's predicate is for the relation to say:
before its arguments are applied (`Head`), and when it is lowered (`Lowered`).
-/

namespace TraitEngine

set_option autoImplicit false

open Check

/-- A relation between contexts, and what lowering needs to know of it: how requests are
answered, and what becomes of a bound from its head to its predicate. -/
structure Passage (tree : ItemTree) (resolve : Resolver) where
  Goes : Context → Context → Prop
  faults : Fault → Prop
  reporting : Reporting Goes
  /-- The trait may be asked for. -/
  Asks : Context → DefId → Prop
  /-- The path may be lowered as the bound of a super-trait. -/
  AtSuper : Context → TypePath → Prop
  Head : Bool → TypePath → Context → Option Predicate → Prop
  Lowered : Bool → TypePath → Context → Predicate → Prop
  asks {cx cx₁ : Context} {id : DefId} : Goes cx cx₁ → Asks cx id → Asks cx₁ id
  atSuper {cx cx₁ : Context} {path : TypePath} : Goes cx cx₁ → AtSuper cx path → AtSuper cx₁ path
  lowered {cx cx₁ : Context} {isSuper : Bool} {path : TypePath} {p : Predicate} :
    Goes cx cx₁ → Lowered isSuper path cx p → Lowered isSuper path cx₁ p
  unnamed {cx : Context} {isSuper : Bool} {path : TypePath} {problem : Problem} :
    tree.resolveTraitPath path = .error problem → Lowered isSuper path cx .error
  refused {cx : Context} {isSuper : Bool} {path : TypePath} :
    Head isSuper path cx none → Lowered isSuper path cx .error
  request {cx : Context} {id : DefId} (span : Span) : Asks cx id →
    Ends faults (resolve id span) cx fun _ cx' => Goes cx cx'
  head {cx : Context} {isSuper : Bool} {path : TypePath} {id : DefId} :
    tree.resolveTraitPath path = .ok id → Asks cx id → (isSuper = true → AtSuper cx path) →
      Ends faults (Lowering.boundHead? tree resolve id path.span isSuper) cx fun p? cx' =>
        Goes cx cx' ∧ Head isSuper path cx' p?
  finish {cx cx₁ : Context} {isSuper : Bool} {path : TypePath} {id : DefId} {p : Predicate}
      (applied : AppliedArgs) :
    tree.resolveTraitPath path = .ok id → Head isSuper path cx (some p) → Goes cx cx₁ →
      Ends faults (Lowering.finishBound tree id p applied) cx₁ fun q cx₂ =>
        Goes cx₁ cx₂ ∧ Lowered isSuper path cx₂ q
  admitBound {cx : Context} {path : TypePath} {p : Predicate} (span : Span) :
    Lowered false path cx p → Ends faults (Lowering.admitDynBound p span) cx fun _ cx' => Goes cx cx'

namespace Passage

variable {tree : ItemTree} {resolve : Resolver} (w : Passage tree resolve) {cx cx₁ : Context}

/-- Every trait that one of the paths names may be asked for. -/
abbrev AsksAll (cx : Context) (paths : List TypePath) : Prop := tree.NamesOnly (w.Asks cx) paths

/-- What may be asked for may still be asked for later. -/
theorem asksAll {paths : List TypePath} (goes : w.Goes cx cx₁) (h : w.AsksAll cx paths) :
    w.AsksAll cx₁ paths :=
  fun id named => w.asks goes (h id named)

variable (scope : Scope)

/-- A step goes on from where the one before it has come to. -/
theorem ends_trans {α : Type} {x : Check α} {start : Context} (goes : w.Goes start cx)
    (h : Ends w.faults x cx fun _ cx' => w.Goes cx cx') :
    Ends w.faults x cx fun _ cx' => w.Goes start cx' :=
  h.mono fun _ _ => w.reporting.trans goes

/-! ## Types and bounds -/

section

open Lowering

mutual

/-- The relation holds across a type whose traits may be asked for. -/
theorem lowerTy_goes : ∀ (t : TypeExpr) {cx : Context}, w.AsksAll cx t.mentions →
    Ends w.faults (lowerTy tree resolve scope t) cx fun _ cx' => w.Goes cx cx'
  | .path p, cx, asked => by
      rw [lowerTy]
      exact lowerPath_goes p asked
  | .ref _ t, cx, asked | .ptr _ t, cx, asked | .array t _, cx, asked | .slice t, cx, asked => by
      simp only [lowerTy, ends_bind, ends_pure]
      exact lowerTy_goes t asked
  | .tuple ts, cx, asked => by
      simp only [lowerTy, ends_bind, ends_pure]
      exact lowerTys_goes ts asked
  | .traitObject bounds, cx, asked => by
      simp only [lowerTy, ends_bind, ends_pure]
      exact lowerDynBounds_goes bounds asked
  | .never, cx, _ | .infer, cx, _ => by
      rw [lowerTy]
      exact w.reporting.refl cx

theorem lowerTys_goes : ∀ (ts : List TypeExpr) {cx : Context},
    w.AsksAll cx (TypeExpr.listMentions ts) →
    Ends w.faults (lowerTys tree resolve scope ts) cx fun _ cx' => w.Goes cx cx'
  | [], cx, _ => by
      rw [lowerTys]
      exact w.reporting.refl cx
  | t :: ts, cx, asked => by
      simp only [lowerTys, ends_bind, ends_pure]
      exact (lowerTy_goes t asked.left).mono fun _ _ goes =>
        w.ends_trans goes (lowerTys_goes ts (w.asksAll goes asked.right))

/-- Only a struct or an enum has arguments that are lowered. -/
theorem lowerPath_goes : ∀ (p : TypePath) {cx : Context},
    w.AsksAll cx (TypeExpr.pathMentions false p) →
    Ends w.faults (lowerPath tree resolve scope p) cx fun _ cx' => w.Goes cx cx'
  | .mk segments span, cx, asked => by
      simp only [lowerPath]
      split
      · rename_i short
        exact lowerShort?_goes w.reporting short
      · rw [ends_bind]
        refine (adtOf?_goes w.reporting _).mono fun adt? cx₁ goes => ?_
        cases adt? with
        | none => exact goes
        | some adt =>
            rw [ends_bind]
            refine (w.ends_trans goes (lowerLastArgs_goes false span segments
              (w.asksAll goes asked))).mono fun _ _ goes => ?_
            exact w.ends_trans goes (finishAdt_goes w.reporting adt _ span)

/-- A bound has its trait asked for, then its arguments lowered and applied. -/
theorem lowerBound_goes (isSuper : Bool) : ∀ (path : TypePath) {cx : Context},
    w.AsksAll cx path.mentions → (isSuper = true → w.AtSuper cx path) →
    Ends w.faults (lowerBound tree resolve scope isSuper path) cx fun p cx' =>
      w.Goes cx cx' ∧ w.Lowered isSuper path cx' p
  | .mk segments span, cx, asked, super => by
      simp only [lowerBound]
      split
      · rename_i problem failed
        simp only [ends_bind, ends_report, ends_pure]
        exact ⟨w.reporting.report cx (ItemTree.resolveTraitPath_plain failed), w.unnamed failed⟩
      · rename_i id named
        rw [ends_bind]
        refine (w.head named (asked.head named) super).mono fun p? cx₁ head => ?_
        obtain ⟨goes₁, head⟩ := head
        cases p? with
        | none => exact ⟨goes₁, w.refused head⟩
        | some p =>
            rw [ends_bind]
            refine (lowerLastArgs_goes true span segments (w.asksAll goes₁ asked.tail)).mono
              fun applied cx₂ goes₂ => ?_
            refine (w.finish applied named head goes₂).mono fun q cx₃ finished => ?_
            obtain ⟨goes₃, lowered⟩ := finished
            exact ⟨w.reporting.trans goes₁ (w.reporting.trans goes₂ goes₃), lowered⟩

/-- The bounds of a trait object are admitted one by one, and the first that is not ends the
walk. -/
theorem lowerDynBounds_goes : ∀ (bounds : List TypePath) {cx : Context},
    w.AsksAll cx (TypeExpr.dynMentions bounds) →
    Ends w.faults (lowerDynBounds tree resolve scope bounds) cx fun _ cx' => w.Goes cx cx'
  | [], cx, _ => by
      rw [lowerDynBounds]
      exact w.reporting.refl cx
  | path :: rest, cx, asked => by
      rw [lowerDynBounds, ends_bind]
      have asked : w.AsksAll cx (path.mentions ++ TypeExpr.dynMentions rest) := asked
      refine (lowerBound_goes false path asked.left nofun).mono fun p cx₁ lowered => ?_
      obtain ⟨goes₁, known⟩ := lowered
      rw [ends_bind]
      refine (w.ends_trans goes₁ (w.admitBound path.span known)).mono fun admitted cx₂ goes₂ => ?_
      cases admitted with
      | none => exact goes₂
      | some _ =>
          rw [ends_bind]
          refine (w.ends_trans goes₂ (lowerDynBounds_goes rest (w.asksAll goes₂ asked.right))).mono
            fun bounds? _ goes₃ => ?_
          cases bounds? <;> exact goes₃

/-- Of a path only the last segment has its arguments lowered. -/
theorem lowerLastArgs_goes (bindings : Bool) (span : Span) :
    ∀ (segments : List PathSegment) {cx : Context},
      w.AsksAll cx (TypeExpr.lastMentions bindings segments) →
      Ends w.faults (lowerLastArgs tree resolve scope bindings span segments) cx
        fun _ cx' => w.Goes cx cx'
  | [], cx, _ => by
      rw [lowerLastArgs]
      exact w.reporting.refl cx
  | [.mk _ args], cx, asked => by
      rw [lowerLastArgs]
      exact lowerOptionalArgs_goes bindings span args asked
  | _ :: s :: rest, cx, asked => by
      rw [TypeExpr.lastMentions] at asked
      rw [lowerLastArgs]
      exact lowerLastArgs_goes bindings span (s :: rest) asked

theorem lowerOptionalArgs_goes (bindings : Bool) (span : Span) :
    ∀ (args : Option GenericArgs) {cx : Context},
      w.AsksAll cx (TypeExpr.optionalMentions bindings args) →
      Ends w.faults (lowerOptionalArgs tree resolve scope bindings span args) cx
        fun _ cx' => w.Goes cx cx'
  | none, cx, _ => by
      rw [lowerOptionalArgs]
      exact w.reporting.refl cx
  | some args, cx, asked => by
      rw [lowerOptionalArgs]
      exact lowerArgs_goes bindings args asked

/-- The bindings of associated types are lowered at a bound only. -/
theorem lowerArgs_goes (bindings : Bool) : ∀ (args : GenericArgs) {cx : Context},
    w.AsksAll cx (TypeExpr.argsMentions bindings args) →
    Ends w.faults (lowerArgs tree resolve scope bindings args) cx fun _ cx' => w.Goes cx cx'
  | .mk args bound span, cx, asked => by
      rw [lowerArgs, ends_bind]
      refine (lowerArgList_goes args asked.left).mono fun _ cx₁ goes => ?_
      have asked := w.asksAll goes asked.right
      cases bindings with
      | false => exact goes
      | true =>
          simp only [if_true, ends_bind, ends_pure] at asked ⊢
          exact w.ends_trans goes (lowerBindings_goes bound asked)

theorem lowerArgList_goes : ∀ (args : List GenericArg) {cx : Context},
    w.AsksAll cx (TypeExpr.argMentions args) →
    Ends w.faults (lowerArgList tree resolve scope args) cx fun _ cx' => w.Goes cx cx'
  | [], cx, _ => by
      rw [lowerArgList]
      exact w.reporting.refl cx
  | .lifetime _ :: rest, cx, asked => by
      simp only [lowerArgList, ends_bind, ends_pure]
      exact lowerArgList_goes rest asked
  | .type t :: rest, cx, asked => by
      simp only [lowerArgList, ends_bind, ends_pure]
      exact (lowerTy_goes t asked.left).mono fun _ _ goes =>
        w.ends_trans goes (lowerArgList_goes rest (w.asksAll goes asked.right))

theorem lowerBindings_goes : ∀ (bound : List TypeBinding) {cx : Context},
    w.AsksAll cx (TypeExpr.bindingMentions bound) →
    Ends w.faults (lowerBindings tree resolve scope bound) cx fun _ cx' => w.Goes cx cx'
  | [], cx, _ => by
      rw [lowerBindings]
      exact w.reporting.refl cx
  | .mk _ t :: rest, cx, asked => by
      simp only [lowerBindings, ends_bind, ends_pure]
      exact (lowerTy_goes t asked.left).mono fun _ _ goes =>
        w.ends_trans goes (lowerBindings_goes rest (w.asksAll goes asked.right))

end

/-- A bound that is no super-trait may be lowered anywhere. -/
theorem lowerOtherBound_goes (path : TypePath) (asked : w.AsksAll cx path.mentions) :
    Ends w.faults (lowerBound tree resolve scope false path) cx fun _ cx' => w.Goes cx cx' :=
  (w.lowerBound_goes scope false path asked nofun).mono fun _ _ lowered => lowered.1

end

end Passage

end TraitEngine
