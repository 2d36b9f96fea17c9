import TraitEngine.Proofs.Order.Twin
/-!
# Lowering in two runs

Two runs that resolve the same trait go through the same declaration. As long as the
traits that it mentions are determined, lowering gives the same in both: what is read
from the context is about the trait itself or about traits below it, on which the two
contexts agree, and what is asked for is answered alike.

The proof goes by the recursion of the definitions. Of a predicate it says that its
trait is cached afterwards; only the predicate of the trait itself is made before that.
-/

namespace TraitEngine

set_option autoImplicit false

open Relation Check ItemTree

/-- Two runs that resolve the trait `id`: one below busy traits on top of `base`, the other on
its own. Their requests may nest differently deep. -/
structure Comparison where
  tree : ItemTree
  limit : Nat
  busy : List DefId
  id : DefId
  base : Context
  depth : Nat
  depth' : Nat
  layered : tree.Layered limit
  above : ∀ x ∈ busy, TransGen tree.Mentions x id
  determined : ∀ x, tree.Mentions id x → tree.Determined limit x

/-- The trait of the predicate is cached. -/
def Predicate.Cached (p : Predicate) (cx : Context) : Prop :=
  ∀ x, p.trait = some x → x ∈ cx.cache.keys

theorem Predicate.Cached.mono {p : Predicate} {cx cx' : Context} (h : p.Cached cx)
    (grows : cx.cache.keys ⊆ cx'.cache.keys) : p.Cached cx' :=
  fun x own => grows (h x own)

namespace Comparison

variable (cmp : Comparison)

/-- The two runs, as they are related while both resolve the trait. -/
abbrev Twin (a b : Context) : Prop := cmp.tree.Twin cmp.limit cmp.busy cmp.id cmp.base a b

/-- Both runs do the same in the step, each with its own resolver. -/
abbrev Alike {α : Type} (step : Resolver → Check α) (a b : Context)
    (post : α → Context → Prop) : Prop :=
  Lockstep cmp.Twin (step (Lowering.resolveWithin cmp.tree cmp.depth))
    (step (Lowering.resolveWithin cmp.tree cmp.depth')) a b post

/-- The trait mentions all traits that the paths name. -/
abbrev Asks (paths : List TypePath) : Prop := cmp.tree.NamesOnly (cmp.tree.Mentions cmp.id) paths

/-- All parameters in scope are declared in the trait. -/
def Sees (scope : Scope) : Prop := ∀ p ∈ scope.params, cmp.tree.Owns cmp.id p.node

variable {cmp} {a b : Context}

/-- A parameter that is found by its name is one of the trait. -/
theorem Sees.lookup {scope : Scope} (sees : cmp.Sees scope) {name : String} {p : Param}
    (found : scope.lookup name = some p) : cmp.tree.Owns cmp.id p.node :=
  sees p (List.mem_reverse.1 (List.mem_of_find?_eq_some found))

theorem Sees.pushAll {scope : Scope} (sees : cmp.Sees scope) {ps : List Param}
    (own : ∀ p ∈ ps, cmp.tree.Owns cmp.id p.node) : cmp.Sees (scope.pushAll ps) := by
  intro p mem
  rcases List.mem_append.1 mem with mem | mem
  · exact sees p mem
  · exact own p mem

/-- Both runs report the same problem. -/
theorem report_alike (p : Problem) (twin : cmp.Twin a b) :
    Lockstep cmp.Twin (Check.report p) (Check.report p) a b Whatever :=
  lockstep_modify (twin.report p) (by simp) trivial

end Comparison

namespace Lowering

variable {cmp : Comparison} {a b : Context}

/-! ## The parts of a type -/

/-- A projection is searched through the bounds of a parameter of the trait, which are the
same in both runs. -/
theorem lowerProjection_alike {param : Param} (own : cmp.tree.Owns cmp.id param.node)
    (name : String) (span : Span) (twin : cmp.Twin a b) :
    Lockstep cmp.Twin (lowerProjection cmp.tree param name span)
      (lowerProjection cmp.tree param name span) a b Whatever := by
  have same : a.bounds.get? param.node = b.bounds.get? param.node := (twin.nodes _ own).2
  have known : ∀ x ∈ ((b.bounds.get? param.node).getD {}).toList.filterMap Predicate.trait,
      x = cmp.id ∨ x ∈ b.cache.keys := by
    intro x mem
    obtain ⟨p, there, super⟩ := List.mem_filterMap.1 mem
    cases bounds : b.bounds.get? param.node with
    | none =>
        rw [bounds] at there
        exact absurd there List.not_mem_nil
    | some bs =>
        rw [bounds] at there
        exact twin.known _ bs own bounds p there x super
  have found := Context.findAssocType?_eq (twin.agree cmp.layered cmp.above) cmp.tree known name
  simp only [lowerProjection]
  refine lockstep_get ?_
  rw [same, found]
  split
  · exact lockstep_pure twin trivial
  · exact (Comparison.report_alike _ twin).map fun _ _ _ => trivial

/-- Short paths are decided by the scope and the declarations. -/
theorem lowerShort?_alike {scope : Scope} (sees : cmp.Sees scope) {names : List String} {span : Span}
    {lowered : Check Ty} (short : lowerShort? cmp.tree scope names span = some lowered)
    (twin : cmp.Twin a b) : Lockstep cmp.Twin lowered lowered a b Whatever := by
  unfold lowerShort? at short
  split at short
  · split at short
    · cases short
      exact lockstep_pure twin trivial
    · obtain ⟨ty, -, rfl⟩ := Option.map_eq_some_iff.1 short
      exact lockstep_pure twin trivial
  · obtain ⟨param, found, rfl⟩ := Option.map_eq_some_iff.1 short
    exact lowerProjection_alike (sees.lookup found) _ span twin
  · cases short

theorem adtOf?_alike (path : TypePath) (twin : cmp.Twin a b) :
    Lockstep cmp.Twin (adtOf? cmp.tree path) (adtOf? cmp.tree path) a b Whatever := by
  unfold adtOf?
  split
  · exact (Comparison.report_alike _ twin).map fun _ _ _ => trivial
  · split
    · exact lockstep_pure twin trivial
    · exact (Comparison.report_alike _ twin).map fun _ _ _ => trivial

theorem finishAdt_alike (adt : AdtDecl) (args : List Ty) (span : Span) (twin : cmp.Twin a b) :
    Lockstep cmp.Twin (finishAdt adt args span) (finishAdt adt args span) a b Whatever := by
  simp only [finishAdt]
  split
  · exact lockstep_pure twin trivial
  · exact (Comparison.report_alike _ twin).map fun _ _ _ => trivial

/-! ## The parts of a bound -/

/-- No trait that is asked for is on the stack, so both runs resolve it. -/
theorem boundHead?_alike {id : DefId} (asked : cmp.tree.Mentions cmp.id id) (span : Span)
    (isSuper : Bool) (twin : cmp.Twin a b) :
    cmp.Alike (boundHead? cmp.tree · id span isSuper) a b fun p? b' =>
      ∀ p, p? = some p → p.Cached b' := by
  obtain ⟨left, right⟩ := twin.not_resolving cmp.layered cmp.above asked
  simp only [boundHead?]
  refine lockstep_get ?_
  simp only [left, right, Bool.false_eq_true, if_false]
  refine (twin.answer cmp.layered cmp.above asked (cmp.determined id asked) _ _ span span).bind
    fun t a' b' twin _ answered => ?_
  obtain ⟨own, cached⟩ := answered
  refine lockstep_pure twin fun p same x trait => ?_
  have fine : t.isError = false := by simp [TraitRef.isError, own]
  simp only [fine, Bool.false_eq_true, if_false, Option.some.injEq] at same
  subst same
  rw [Predicate.ofTrait, own] at trait
  simp only [Predicate.ofParams] at trait
  split at trait <;> cases trait
  exact cached

/-- Whether arguments fit and bindings are declared, the declarations tell. -/
theorem reviewBound_alike (id : DefId) (p : Predicate) (span : Span) (mismatch : Option ArgMismatch)
    (twin : cmp.Twin a b) :
    Lockstep cmp.Twin (reviewBound cmp.tree id p span mismatch)
      (reviewBound cmp.tree id p span mismatch) a b Whatever := by
  cases mismatch with
  | some cause => exact Comparison.report_alike _ twin
  | none =>
      simp only [reviewBound]
      split
      · refine (lockstep_forIn _ twin fun binding _ a b twin => ?_).map fun _ _ _ => trivial
        split
        · exact lockstep_pure twin rfl
        · exact (Comparison.report_alike _ twin).map fun _ _ _ => rfl
      · exact lockstep_pure twin trivial

/-- Arguments do not change the trait of a predicate. -/
theorem apply_trait {p q : Predicate} {applied : AppliedArgs} {mismatch : Option ArgMismatch}
    (applies : p.apply applied = .ok (q, mismatch)) : q.trait = p.trait := by
  unfold Predicate.apply at applies
  split at applies
  · cases applies
  · split at applies <;> cases applies <;> rfl

/-- The head of a bound is over a cached trait, and so is the predicate made from it. -/
theorem finishBound_alike (id : DefId) {p : Predicate} (applied : AppliedArgs) (cached : p.Cached b)
    (twin : cmp.Twin a b) :
    Lockstep cmp.Twin (finishBound cmp.tree id p applied) (finishBound cmp.tree id p applied) a b
      fun q b' => q.Cached b' := by
  have review (q : Predicate) (mismatch : Option ArgMismatch) (cached : q.Cached b) :
      Lockstep cmp.Twin (reviewBound cmp.tree id q applied.span mismatch >>= fun _ => pure q)
        (reviewBound cmp.tree id q applied.span mismatch >>= fun _ => pure q) a b
        fun q b' => q.Cached b' :=
    (reviewBound_alike id q applied.span mismatch twin).bind fun _ _ _ twin grows _ =>
      lockstep_pure twin (cached.mono grows)
  simp only [finishBound]
  split
  · cases applies : p.apply applied with
    | error fault => exact lockstep_throw fault fault
    | ok out =>
        obtain ⟨q, mismatch⟩ := out
        exact review q mismatch fun x own => cached x (apply_trait applies ▸ own)
  · exact review p none cached

/-- Both runs judge a cached trait alike. -/
theorem checkObjectSafety_alike {p : Predicate} {id : DefId} (unfailed : p.failed = false)
    (own : p.trait = some id) (cached : id ∈ b.cache.keys) (span : Span) (twin : cmp.Twin a b) :
    Lockstep cmp.Twin (modifyGet (p.checkObjectSafety true span))
      (modifyGet (p.checkObjectSafety true span)) a b Whatever := by
  obtain ⟨t, found⟩ := b.exists_trait? cached
  have found' : a.trait? id = some t := (twin.trait?_eq cmp.layered cmp.above cached).trans found
  have problem := Context.objectSafetyProblem?_eq (twin.agree cmp.layered cmp.above)
    twin.right.labelled (Or.inr cached) found span
  have check (cx : Context) (found : cx.trait? id = some t) :
      p.checkObjectSafety true span cx = t.checkObjectSafety true span cx := by
    simp [Predicate.checkObjectSafety, Predicate.getChecked?, Predicate.get?, unfailed, own, found]
  have left := check a found'
  have right := check b found
  simp only [TraitRef.checkObjectSafety, problem] at left right
  cases judged : t.objectSafetyProblem? b span with
  | none =>
      rw [judged] at left right
      exact lockstep_modifyGet (by rw [left, right]) (by rw [left, right]; exact twin)
        (by rw [right]; exact List.Subset.refl _) trivial
  | some problem =>
      rw [judged] at left right
      exact lockstep_modifyGet (by rw [left, right]) (by rw [left, right]; exact twin.report problem)
        (by rw [right]; simp) trivial

/-- Both runs have the trait of the bound cached, so neither defers its check. -/
theorem admitDynBound_alike {p : Predicate} (span : Span) (cached : p.Cached b)
    (twin : cmp.Twin a b) :
    Lockstep cmp.Twin (admitDynBound p span) (admitDynBound p span) a b Whatever := by
  simp only [admitDynBound]
  split
  · exact lockstep_pure twin trivial
  · rename_i id fine
    obtain ⟨unfailed, own⟩ : p.failed = false ∧ p.trait = some id := by
      cases failed : p.failed <;> simp_all
    have mem := cached id own
    have here : (p.get? b).isSome := by
      rw [Predicate.get?, own]
      exact b.isSome_trait?_iff.2 mem
    have here' : (p.get? a).isSome := by
      rw [Predicate.get?, own]
      exact a.isSome_trait?_iff.2 (twin.cached mem)
    refine lockstep_get ?_
    simp only [here, here', if_true]
    exact (checkObjectSafety_alike unfailed own mem span twin).map fun _ _ _ => trivial

/-! ## Types and bounds -/

section

set_option linter.unusedSectionVars false

variable {scope : Scope} (sees : cmp.Sees scope)

include sees

mutual

/-- Both runs lower a type alike, if the trait mentions all that the type may ask for. -/
theorem lowerTy_alike : ∀ (t : TypeExpr) {a b : Context}, cmp.Asks t.mentions → cmp.Twin a b →
    cmp.Alike (lowerTy cmp.tree · scope t) a b Whatever
  | .path p, a, b, asked, twin => by
      simp only [lowerTy]
      exact lowerPath_alike p asked twin
  | .ref mutable t, a, b, asked, twin => by
      simp only [lowerTy]
      exact (lowerTy_alike t asked twin).map fun _ _ _ => trivial
  | .ptr mutable t, a, b, asked, twin => by
      simp only [lowerTy]
      exact (lowerTy_alike t asked twin).map fun _ _ _ => trivial
  | .tuple ts, a, b, asked, twin => by
      simp only [lowerTy]
      exact (lowerTys_alike ts asked twin).map fun _ _ _ => trivial
  | .array t length, a, b, asked, twin => by
      simp only [lowerTy]
      exact (lowerTy_alike t asked twin).map fun _ _ _ => trivial
  | .slice t, a, b, asked, twin => by
      simp only [lowerTy]
      exact (lowerTy_alike t asked twin).map fun _ _ _ => trivial
  | .traitObject bounds, a, b, asked, twin => by
      simp only [lowerTy]
      exact (lowerDynBounds_alike bounds asked twin).map fun _ _ _ => trivial
  | .never, a, b, _, twin => by
      simp only [lowerTy]
      exact lockstep_pure twin trivial
  | .infer, a, b, _, twin => by
      simp only [lowerTy]
      exact lockstep_pure twin trivial

theorem lowerTys_alike : ∀ (ts : List TypeExpr) {a b : Context},
    cmp.Asks (TypeExpr.listMentions ts) → cmp.Twin a b →
    cmp.Alike (lowerTys cmp.tree · scope ts) a b Whatever
  | [], a, b, _, twin => by
      simp only [lowerTys]
      exact lockstep_pure twin trivial
  | t :: ts, a, b, asked, twin => by
      simp only [lowerTys]
      refine (lowerTy_alike t asked.left twin).bind fun ty a b twin _ _ => ?_
      exact (lowerTys_alike ts asked.right twin).map fun _ _ _ => trivial

theorem lowerPath_alike : ∀ (p : TypePath) {a b : Context},
    cmp.Asks (TypeExpr.pathMentions false p) → cmp.Twin a b →
    cmp.Alike (lowerPath cmp.tree · scope p) a b Whatever
  | .mk segments span, a, b, asked, twin => by
      simp only [lowerPath]
      cases short : lowerShort? cmp.tree scope (TypePath.mk segments span).names span with
      | some lowered => exact lowerShort?_alike sees short twin
      | none =>
          refine (adtOf?_alike _ twin).bind fun adt? a b twin _ _ => ?_
          cases adt? with
          | none => exact lockstep_pure twin trivial
          | some adt =>
              refine (lowerLastArgs_alike false span segments asked twin).bind
                fun applied a b twin _ _ => ?_
              exact finishAdt_alike adt _ span twin

/-- A bound becomes the same predicate in both runs, over a trait that is cached by then. -/
theorem lowerBound_alike (isSuper : Bool) : ∀ (path : TypePath) {a b : Context},
    cmp.Asks path.mentions → cmp.Twin a b →
    cmp.Alike (lowerBound cmp.tree · scope isSuper path) a b fun p b' => p.Cached b'
  | .mk segments span, a, b, asked, twin => by
      simp only [lowerBound]
      cases named : cmp.tree.resolveTraitPath (.mk segments span) with
      | error problem =>
          exact (Comparison.report_alike problem twin).map fun _ _ _ => nofun
      | ok id =>
          refine (boundHead?_alike (asked.head named) span isSuper twin).bind
            fun p? a b twin _ cached => ?_
          cases p? with
          | none => exact lockstep_pure twin nofun
          | some p =>
              refine (lowerLastArgs_alike true span segments asked.tail twin).bind
                fun applied a b twin grows _ => ?_
              exact finishBound_alike id applied ((cached p rfl).mono grows) twin

/-- The traits of the bounds are cached, so nothing is put off and both runs check the same.
-/
theorem lowerDynBounds_alike : ∀ (bounds : List TypePath) {a b : Context},
    cmp.Asks (TypeExpr.dynMentions bounds) → cmp.Twin a b →
    cmp.Alike (lowerDynBounds cmp.tree · scope bounds) a b Whatever
  | [], a, b, _, twin => by
      simp only [lowerDynBounds]
      exact lockstep_pure twin trivial
  | path :: rest, a, b, asked, twin => by
      have asked : cmp.Asks (path.mentions ++ TypeExpr.dynMentions rest) := asked
      simp only [lowerDynBounds]
      refine (lowerBound_alike false path asked.left twin).bind fun p a b twin _ cached => ?_
      refine (admitDynBound_alike path.span cached twin).bind fun out a b twin _ _ => ?_
      cases out with
      | none => exact lockstep_pure twin trivial
      | some id =>
          refine (lowerDynBounds_alike rest asked.right twin).bind fun bounds? a b twin _ _ => ?_
          cases bounds? <;> exact lockstep_pure twin trivial

theorem lowerLastArgs_alike (bindings : Bool) (span : Span) :
    ∀ (segments : List PathSegment) {a b : Context},
      cmp.Asks (TypeExpr.lastMentions bindings segments) → cmp.Twin a b →
      cmp.Alike (lowerLastArgs cmp.tree · scope bindings span segments) a b Whatever
  | [], a, b, _, twin => by
      simp only [lowerLastArgs]
      exact lockstep_pure twin trivial
  | [.mk _ args], a, b, asked, twin => by
      simp only [lowerLastArgs]
      exact lowerOptionalArgs_alike bindings span args asked twin
  | _ :: s :: rest, a, b, asked, twin => by
      rw [TypeExpr.lastMentions] at asked
      simp only [lowerLastArgs]
      exact lowerLastArgs_alike bindings span (s :: rest) asked twin

theorem lowerOptionalArgs_alike (bindings : Bool) (span : Span) :
    ∀ (args : Option GenericArgs) {a b : Context},
      cmp.Asks (TypeExpr.optionalMentions bindings args) → cmp.Twin a b →
      cmp.Alike (lowerOptionalArgs cmp.tree · scope bindings span args) a b Whatever
  | none, a, b, _, twin => by
      simp only [lowerOptionalArgs]
      exact lockstep_pure twin trivial
  | some args, a, b, asked, twin => by
      simp only [lowerOptionalArgs]
      exact lowerArgs_alike bindings args asked twin

theorem lowerArgs_alike (bindings : Bool) : ∀ (args : GenericArgs) {a b : Context},
    cmp.Asks (TypeExpr.argsMentions bindings args) → cmp.Twin a b →
    cmp.Alike (lowerArgs cmp.tree · scope bindings args) a b Whatever
  | .mk args bound span, a, b, asked, twin => by
      simp only [lowerArgs]
      refine (lowerArgList_alike args asked.left twin).bind fun args a b twin _ _ => ?_
      have asked := asked.right
      cases bindings with
      | false => exact lockstep_pure twin trivial
      | true =>
          simp only [if_true] at asked ⊢
          exact (lowerBindings_alike bound asked twin).map fun _ _ _ => trivial

theorem lowerArgList_alike : ∀ (args : List GenericArg) {a b : Context},
    cmp.Asks (TypeExpr.argMentions args) → cmp.Twin a b →
    cmp.Alike (lowerArgList cmp.tree · scope args) a b Whatever
  | [], a, b, _, twin => by
      simp only [lowerArgList]
      exact lockstep_pure twin trivial
  | .lifetime name :: rest, a, b, asked, twin => by
      simp only [lowerArgList]
      exact (lowerArgList_alike rest asked twin).map fun _ _ _ => trivial
  | .type t :: rest, a, b, asked, twin => by
      simp only [lowerArgList]
      refine (lowerTy_alike t asked.left twin).bind fun ty a b twin _ _ => ?_
      exact (lowerArgList_alike rest asked.right twin).map fun _ _ _ => trivial

theorem lowerBindings_alike : ∀ (bound : List TypeBinding) {a b : Context},
    cmp.Asks (TypeExpr.bindingMentions bound) → cmp.Twin a b →
    cmp.Alike (lowerBindings cmp.tree · scope bound) a b Whatever
  | [], a, b, _, twin => by
      simp only [lowerBindings]
      exact lockstep_pure twin trivial
  | .mk name t :: rest, a, b, asked, twin => by
      simp only [lowerBindings]
      refine (lowerTy_alike t asked.left twin).bind fun ty a b twin _ _ => ?_
      exact (lowerBindings_alike rest asked.right twin).map fun _ _ _ => trivial

end

end

end Lowering

end TraitEngine
