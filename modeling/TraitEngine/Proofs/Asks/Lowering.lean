import TraitEngine.Proofs.Asks.Basic
import TraitEngine.Proofs.Lowering
/-!
# Lowering makes the listed requests

For every form of type expression, bound, parameter and item: lowering it asks for what the
list of that form says (`Asked`). The recursion is that of the definitions; the only place
where a request is made is the head of a bound (`boundHead?_asked_for`).
-/

namespace TraitEngine

set_option autoImplicit false

open Check

/-- A loop asks for what its rounds ask for. -/
theorem Check.ends_forIn_asked {α : Type} {resolve : Resolver} {asks : α → List Ask}
    (body : α → Check (ForInStep PUnit)) :
    ∀ (l : List α) {cx : Context},
      (∀ a ∈ l, ∀ cx, Ends AnyFault (body a) cx fun r cx' =>
        r = .yield ⟨⟩ ∧ Asked resolve (asks a) cx cx') →
      Ends AnyFault (forIn l PUnit.unit fun a _ => body a) cx fun _ cx' =>
        Asked resolve (l.flatMap asks) cx cx'
  | [], cx, _ => by
      rw [List.forIn_nil, ends_pure]
      exact .refl cx
  | a :: l, cx, round => by
      rw [List.forIn_cons, ends_bind]
      refine (round a List.mem_cons_self cx).mono fun r cx₁ done => ?_
      obtain ⟨rfl, first⟩ := done
      refine (ends_forIn_asked body l fun b mem => round b (List.mem_cons_of_mem a mem)).mono
        fun _ cx₂ others => ?_
      rw [List.flatMap_cons]
      exact first.trans others

namespace Lowering

variable {tree : ItemTree} {resolve : Resolver} {cx : Context}

/-! ## The parts of types and bounds -/

/-- Looking up a struct or an enum makes no request, and finds one exactly if the path names
one. -/
theorem adtOf?_quiet (path : TypePath) :
    Ends AnyFault (adtOf? tree path) cx fun adt? cx' =>
      Quiet cx cx' ∧ adt?.isSome = tree.namesAdt path := by
  unfold adtOf? ItemTree.namesAdt
  split
  · rename_i e failed
    simp only [ends_bind, ends_report, ends_pure, failed]
    exact ⟨Quiet.reporting.report cx (NameError.toProblem_plain tree path e), rfl⟩
  · rename_i id named
    simp only [named, Except.toOption, Option.bind_some]
    split
    · rename_i adt found
      rw [found]
      exact ⟨.refl cx, rfl⟩
    · rename_i none
      rw [none]
      exact ⟨.report cx rfl, rfl⟩

/-- The head of a bound asks for the trait. Of a trait on the stack it takes what is known, or
reports a cycle. -/
theorem boundHead?_asked_for (keeps : resolve.KeepsStack) (id : DefId) (span : Span)
    (isSuper : Bool) :
    Ends AnyFault (boundHead? tree resolve id span isSuper) cx fun _ cx' =>
      Asked resolve [⟨id, span⟩] cx cx' := by
  have unasked {cx' : Context} (waits : id ∈ cx.stack.keys) (quiet : Quiet cx cx') :
      Asked resolve [⟨id, span⟩] cx cx' :=
    ⟨quiet.stack, [], .quiet quiet, List.nil_sublist _, fun free =>
      absurd waits (free _ (List.mem_singleton_self _))⟩
  simp only [boundHead?, ends_bind, ends_get]
  split
  · rename_i isOpen
    have waits := cx.isResolving_iff.1 isOpen
    split
    · simp only [ends_bind, ends_report, ends_pure]
      exact unasked waits (.report cx rfl)
    · split <;> exact unasked waits (.refl cx)
  · rw [ends_bind]
    refine (ends_self (resolve id span) cx).mono fun t cx' asked => ?_
    rw [ends_pure]
    exact ⟨keeps _ _ _ _ _ asked, [⟨id, span⟩], .ask (.refl cx) asked (.quiet (.refl cx')),
      List.Sublist.refl _, fun _ => rfl⟩

/-- Admitting a bound of a trait object makes no request: the check of a cached trait only
reports, the check of one that is still being resolved is put off. A failed bound is not
admitted. -/
theorem admitDynBound_quiet (p : Predicate) (span : Span) :
    Ends AnyFault (admitDynBound p span) cx fun out cx' =>
      Quiet cx cx' ∧ (p.failed = true → out = none) := by
  simp only [admitDynBound]
  split
  · exact ⟨.refl cx, fun _ => rfl⟩
  · rename_i id fine
    have unfailed : ¬p.failed = true := by
      intro failed
      simp [failed] at fine
    simp only [ends_bind, ends_get]
    split
    · simp only [ends_bind, ends_modifyGet]
      exact ⟨Quiet.reporting.checkPredicate p true span cx, fun failed => absurd failed unfailed⟩
    · simp only [ends_bind, ends_modify, ends_pure]
      exact ⟨.of_eq rfl rfl rfl rfl rfl, fun failed => absurd failed unfailed⟩

/-! ## Types and bounds -/

section

set_option linter.unusedSectionVars false

variable (keeps : resolve.KeepsStack) (scope : Scope)

include keeps

mutual

/-- Lowering a type expression makes requests off its list, in order. -/
theorem lowerTy_asked : ∀ (t : TypeExpr) {cx : Context},
    Ends AnyFault (lowerTy tree resolve scope t) cx fun _ cx' =>
      Asked resolve (tree.asks scope t) cx cx'
  | .path p, cx => by
      rw [lowerTy, ItemTree.asks]
      exact lowerPath_asked p
  | .ref _ t, cx | .ptr _ t, cx | .array t _, cx | .slice t, cx => by
      simp only [lowerTy, ends_bind, ends_pure, ItemTree.asks]
      exact lowerTy_asked t
  | .tuple ts, cx => by
      simp only [lowerTy, ends_bind, ends_pure, ItemTree.asks]
      exact lowerTys_asked ts
  | .traitObject bounds, cx => by
      simp only [lowerTy, ends_bind, ends_pure, ItemTree.asks]
      exact lowerDynBounds_asked bounds
  | .never, cx | .infer, cx => by
      rw [lowerTy, ItemTree.asks]
      exact .refl cx

theorem lowerTys_asked : ∀ (ts : List TypeExpr) {cx : Context},
    Ends AnyFault (lowerTys tree resolve scope ts) cx fun _ cx' =>
      Asked resolve (tree.listAsks scope ts) cx cx'
  | [], cx => by
      rw [lowerTys, ItemTree.listAsks]
      exact .refl cx
  | t :: ts, cx => by
      simp only [lowerTys, ends_bind, ends_pure, ItemTree.listAsks]
      exact (lowerTy_asked t).mono fun _ _ first =>
        (lowerTys_asked ts).mono fun _ _ others => first.trans others

/-- A short path makes no request, and a path that names nothing is only reported. A struct or
an enum asks for what its arguments ask for. -/
theorem lowerPath_asked : ∀ (p : TypePath) {cx : Context},
    Ends AnyFault (lowerPath tree resolve scope p) cx fun _ cx' =>
      Asked resolve (tree.pathAsks scope p) cx cx'
  | .mk segments span, cx => by
      simp only [lowerPath, ItemTree.pathAsks]
      split
      · rename_i lowered short
        rw [short, Option.isSome_some, if_pos rfl]
        exact (lowerShort?_goes Quiet.reporting short).mono fun _ _ quiet => .quiet quiet
      · rename_i long
        rw [long, Option.isSome_none, if_neg Bool.false_ne_true, ends_bind]
        refine (adtOf?_quiet _).mono fun adt? cx₁ found => ?_
        obtain ⟨quiet, names⟩ := found
        rw [← names]
        cases adt? with
        | none => exact .quiet quiet
        | some adt =>
            rw [Option.isSome_some, if_pos rfl, ends_bind]
            refine (lowerLastArgs_asked false span segments).mono fun applied cx₂ asked => ?_
            exact (finishAdt_goes Quiet.reporting adt _ span).mono fun _ _ finished =>
              (quiet.asked asked).quietly finished

/-- A bound asks for its trait and then for what its arguments ask for. One that asks for
nothing names no trait and has failed. -/
theorem lowerBound_asked (isSuper : Bool) : ∀ (path : TypePath) {cx : Context},
    Ends AnyFault (lowerBound tree resolve scope isSuper path) cx fun p cx' =>
      Asked resolve (tree.boundAsks scope path) cx cx' ∧
        (tree.boundAsks scope path = [] → p.failed = true)
  | .mk segments span, cx => by
      simp only [lowerBound, ItemTree.boundAsks]
      cases named : tree.resolveTraitPath (.mk segments span) with
      | error problem =>
          simp only [ends_bind, ends_report, ends_pure]
          have plain := ItemTree.resolveTraitPath_plain named
          exact ⟨.quiet (Quiet.reporting.report cx plain), fun _ => rfl⟩
      | ok id =>
          simp only [ends_bind]
          refine (boundHead?_asked_for keeps id span isSuper).mono fun p? cx₁ head => ?_
          cases p? with
          | none => exact ⟨head.stop (List.cons_ne_nil _ _), nofun⟩
          | some p =>
              simp only [ends_bind]
              refine (lowerLastArgs_asked true span segments).mono fun applied cx₂ asked => ?_
              exact (finishBound_goes Quiet.reporting id p applied).mono fun _ _ finished =>
                ⟨(head.trans asked).quietly finished, nofun⟩

/-- A trait object asks bound by bound. Its list ends at a bound that names no trait, and
lowering stops there too; it may stop before, at a bound that is not admitted. -/
theorem lowerDynBounds_asked : ∀ (bounds : List TypePath) {cx : Context},
    Ends AnyFault (lowerDynBounds tree resolve scope bounds) cx fun _ cx' =>
      Asked resolve (tree.dynAsks scope bounds) cx cx'
  | [], cx => by
      rw [lowerDynBounds, ItemTree.dynAsks]
      exact .refl cx
  | path :: rest, cx => by
      rw [lowerDynBounds, ItemTree.dynAsks, ends_bind]
      refine (lowerBound_asked false path).mono fun p cx₁ lowered => ?_
      obtain ⟨first, failed⟩ := lowered
      rw [ends_bind]
      refine (admitDynBound_quiet p path.span).mono fun out cx₂ admitted => ?_
      obtain ⟨quiet, refused⟩ := admitted
      have early := first.quietly quiet
      by_cases bare : tree.boundAsks scope path = []
      · rw [refused (failed bare), if_pos (by simp [bare])]
        rw [bare] at early
        exact early
      · rw [if_neg (by simpa using bare)]
        cases out with
        | none => exact early.stop bare
        | some id =>
            rw [ends_bind]
            refine (lowerDynBounds_asked rest).mono fun bounds? cx₃ others => ?_
            have all := early.trans others
            cases bounds? <;> exact all

/-- Only the arguments of the last segment are lowered. -/
theorem lowerLastArgs_asked (bindings : Bool) (span : Span) :
    ∀ (segments : List PathSegment) {cx : Context},
      Ends AnyFault (lowerLastArgs tree resolve scope bindings span segments) cx fun _ cx' =>
        Asked resolve (tree.lastAsks scope bindings segments) cx cx'
  | [], cx => by
      rw [lowerLastArgs, ItemTree.lastAsks]
      exact .refl cx
  | [.mk _ args], cx => by
      rw [lowerLastArgs, ItemTree.lastAsks]
      exact lowerOptionalArgs_asked bindings span args
  | _ :: s :: rest, cx => by
      rw [lowerLastArgs, ItemTree.lastAsks]
      exact lowerLastArgs_asked bindings span (s :: rest)

theorem lowerOptionalArgs_asked (bindings : Bool) (span : Span) :
    ∀ (args : Option GenericArgs) {cx : Context},
      Ends AnyFault (lowerOptionalArgs tree resolve scope bindings span args) cx fun _ cx' =>
        Asked resolve (tree.optionalAsks scope bindings args) cx cx'
  | none, cx => by
      rw [lowerOptionalArgs, ItemTree.optionalAsks]
      exact .refl cx
  | some args, cx => by
      rw [lowerOptionalArgs, ItemTree.optionalAsks]
      exact lowerArgs_asked bindings args

/-- Bindings of associated types are lowered at a bound and left alone at a struct or an enum.
-/
theorem lowerArgs_asked (bindings : Bool) : ∀ (args : GenericArgs) {cx : Context},
    Ends AnyFault (lowerArgs tree resolve scope bindings args) cx fun _ cx' =>
      Asked resolve (tree.argsAsks scope bindings args) cx cx'
  | .mk args bound span, cx => by
      rw [lowerArgs, ItemTree.argsAsks, ends_bind]
      refine (lowerArgList_asked args).mono fun args cx₁ first => ?_
      cases bindings with
      | false => exact first.trans (.refl cx₁)
      | true =>
          simp only [if_true, ends_bind, ends_pure]
          exact (lowerBindings_asked bound).mono fun _ _ others => first.trans others

theorem lowerArgList_asked : ∀ (args : List GenericArg) {cx : Context},
    Ends AnyFault (lowerArgList tree resolve scope args) cx fun _ cx' =>
      Asked resolve (tree.argListAsks scope args) cx cx'
  | [], cx => by
      rw [lowerArgList, ItemTree.argListAsks]
      exact .refl cx
  | .lifetime name :: rest, cx => by
      simp only [lowerArgList, ends_bind, ends_pure, ItemTree.argListAsks]
      exact lowerArgList_asked rest
  | .type t :: rest, cx => by
      simp only [lowerArgList, ends_bind, ends_pure, ItemTree.argListAsks]
      exact (lowerTy_asked t).mono fun _ _ first =>
        (lowerArgList_asked rest).mono fun _ _ others => first.trans others

theorem lowerBindings_asked : ∀ (bound : List TypeBinding) {cx : Context},
    Ends AnyFault (lowerBindings tree resolve scope bound) cx fun _ cx' =>
      Asked resolve (tree.bindingAsks scope bound) cx cx'
  | [], cx => by
      rw [lowerBindings, ItemTree.bindingAsks]
      exact .refl cx
  | .mk name t :: rest, cx => by
      simp only [lowerBindings, ends_bind, ends_pure, ItemTree.bindingAsks]
      exact (lowerTy_asked t).mono fun _ _ first =>
        (lowerBindings_asked rest).mono fun _ _ others => first.trans others

end

end

end Lowering

end TraitEngine
