import TraitEngine.Proofs.Asks.Resolution
import TraitEngine.Proofs.Scoping.Basic
import Mathlib.Data.List.Forall2
/-!
# Lowered types keep to their scope

A context is enclosed if the defaults of all its traits, cached or pending, have only parameters
that their expressions name, and parameters left open. Then so has every type that is lowered
(`lowerTy_scoped`), and with it the defaults of the next trait: a request keeps the context
enclosed (`resolveWithin_encloses`).
-/

namespace TraitEngine

set_option autoImplicit false

open Check

/-! ## Enclosed contexts -/

/-- The parameters of all traits, cached or pending, are those of a declared trait. -/
structure ItemTree.Enclosed (tree : ItemTree) (cx : Context) : Prop where
  cached : ∀ e ∈ cx.cache.entries, tree.Lowered e.2.params
  pending : ∀ e ∈ cx.pending.entries, tree.Lowered e.2

/-- The resolver keeps contexts enclosed and gives the parameters of a declared trait. -/
def Resolver.Encloses (resolve : Resolver) (tree : ItemTree) : Prop :=
  ∀ id span cx t cx', resolve id span cx = .ok (t, cx') → tree.Enclosed cx →
    tree.Enclosed cx' ∧ (t.isError = false → tree.Lowered t.params)

/-- What the sources of an expression give is allowed. -/
structure Covers (tree : ItemTree) (scope : Scope) (ok : Param → Prop) (sources : List TypeSource) :
    Prop where
  named : ∀ name, .named name ∈ sources → ∀ q, scope.lookup name = some q → ok q
  object : .object ∈ sources → ∀ q, tree.Leaks q → ok q

section

variable {tree : ItemTree} {resolve : Resolver} {scope : Scope} {ok : Param → Prop}
  {cx cx₁ : Context} {xs ys : List TypeSource}

theorem Covers.left (covers : Covers tree scope ok (xs ++ ys)) : Covers tree scope ok xs :=
  ⟨fun name mem => covers.named name (List.mem_append_left ys mem),
    fun mem => covers.object (List.mem_append_left ys mem)⟩

theorem Covers.right (covers : Covers tree scope ok (xs ++ ys)) : Covers tree scope ok ys :=
  ⟨fun name mem => covers.named name (List.mem_append_right xs mem),
    fun mem => covers.object (List.mem_append_right xs mem)⟩

theorem Covers.tail {source : TypeSource} (covers : Covers tree scope ok (source :: xs)) :
    Covers tree scope ok xs :=
  ⟨fun name mem => covers.named name (List.mem_cons_of_mem source mem),
    fun mem => covers.object (List.mem_cons_of_mem source mem)⟩

theorem ItemTree.Enclosed.of_eq (enclosed : tree.Enclosed cx) (cache : cx₁.cache = cx.cache)
    (pending : cx₁.pending = cx.pending) : tree.Enclosed cx₁ :=
  ⟨cache ▸ enclosed.cached, pending ▸ enclosed.pending⟩

theorem Quiet.enclosed (quiet : Quiet cx cx₁) (enclosed : tree.Enclosed cx) : tree.Enclosed cx₁ :=
  enclosed.of_eq quiet.cache quiet.pending

/-- Requests keep a context enclosed, and between them nothing matters. -/
theorem Asked.enclosed {asks : List Ask} (asked : Asked resolve asks cx cx₁)
    (encloses : resolve.Encloses tree) (enclosed : tree.Enclosed cx) : tree.Enclosed cx₁ := by
  obtain ⟨-, made, trace, -⟩ := asked
  exact trace.keeps Quiet.enclosed
    (fun asked enclosed => (encloses _ _ _ _ _ asked enclosed).1) enclosed

end

namespace Lowering

variable {tree : ItemTree} {resolve : Resolver} {scope : Scope} {ok : Param → Prop} {cx : Context}

/-! ## The parts of a type -/

/-- A projection has its parameter and no other. -/
theorem lowerProjection_scoped {param : Param} (fine : ok param) (name : String) (span : Span) :
    Ends AnyFault (lowerProjection tree param name span) cx fun ty cx' =>
      Quiet cx cx' ∧ ∀ q ∈ ty.occurring, ok q := by
  have only : ∀ q ∈ (Ty.param param).occurring, ok q := by
    intro q mem
    rw [List.mem_singleton.1 mem]
    exact fine
  simp only [lowerProjection, ends_bind, ends_get]
  split
  · exact ⟨.refl cx, only⟩
  · simp only [ends_bind, ends_report, ends_pure]
    exact ⟨.report cx rfl, List.forall_mem_nil _⟩

/-- A short path gives a parameter that it names, or none. -/
theorem lowerShort?_scoped {segments : List PathSegment}
    (covers : Covers tree scope ok (TypeExpr.headSources segments)) {span : Span}
    {lowered : Check Ty}
    (short : lowerShort? tree scope (segments.map PathSegment.name) span = some lowered) :
    Ends AnyFault lowered cx fun ty cx' => Quiet cx cx' ∧ ∀ q ∈ ty.occurring, ok q := by
  match segments with
  | [] => cases short
  | [.mk name _] =>
      simp only [lowerShort?, List.map_cons, List.map_nil, PathSegment.name] at short
      split at short
      · rename_i param found
        cases short
        refine ⟨.refl cx, fun q mem => ?_⟩
        rw [List.mem_singleton.1 mem]
        exact covers.named name List.mem_cons_self param found
      · obtain ⟨ty, primitive, rfl⟩ := Option.map_eq_some_iff.1 short
        obtain ⟨_, -, rfl⟩ := Option.map_eq_some_iff.1 primitive
        exact ⟨.refl cx, List.forall_mem_nil _⟩
  | [.mk first _, .mk name _] =>
      obtain ⟨param, found, rfl⟩ := Option.map_eq_some_iff.1 short
      exact lowerProjection_scoped (covers.named first List.mem_cons_self param found) _ span
  | _ :: _ :: _ :: _ => cases short

theorem finishAdt_scoped (adt : AdtDecl) {args : List Ty} (span : Span)
    (fine : ∀ q ∈ Ty.occurringList args, ok q) :
    Ends AnyFault (finishAdt adt args span) cx fun ty _ => ∀ q ∈ ty.occurring, ok q := by
  simp only [finishAdt]
  split
  · exact fine
  · simp only [ends_bind, ends_report, ends_pure]
    exact List.forall_mem_nil _

/-! ## The parts of a bound -/

/-- The predicate of a bound starts over the parameters of a declared trait. -/
theorem boundHead?_scoped (encloses : resolve.Encloses tree) (enclosed : tree.Enclosed cx)
    (id : DefId) (span : Span) (isSuper : Bool) :
    Ends AnyFault (boundHead? tree resolve id span isSuper) cx fun p? cx' =>
      tree.Enclosed cx' ∧ ∀ p, p? = some p → ∃ id params, tree.Lowered params ∧
        p = .ofParams id params span := by
  simp only [boundHead?, ends_bind, ends_get]
  split
  · split
    · simp only [ends_bind, ends_report, ends_pure]
      exact ⟨(Quiet.report cx rfl).enclosed enclosed, fun _ none => by cases none⟩
    · split
      · rename_i params pending
        refine ⟨enclosed, fun p same => ⟨id, params, ?_, (Option.some.inj same).symm⟩⟩
        exact enclosed.pending _ (Table.mem_entries_of_get? pending)
      · rename_i decl _ declared
        refine ⟨enclosed, fun p same =>
          ⟨id, _, ⟨id, decl, declared, ?_⟩, (Option.some.inj same).symm⟩⟩
        rw [List.forall₂_map_right_iff]
        exact List.forall₂_same.2 fun p _ => ⟨rfl, fun _ none => by cases none⟩
      · exact ⟨enclosed, fun _ none => by cases none⟩
  · rw [ends_bind]
    refine (ends_self (resolve id span) cx).mono fun t cx' asked => ?_
    obtain ⟨enclosed, lowered⟩ := encloses _ _ _ _ _ asked enclosed
    refine ⟨enclosed, fun p same => ?_⟩
    split at same
    · cases same
    · rename_i fine
      obtain ⟨own, found⟩ := Option.ne_none_iff_exists'.1 (by simpa [TraitRef.isError] using fine)
      refine ⟨own, t.params, lowered (by simpa using fine), ?_⟩
      rw [← Option.some.inj same, Predicate.ofTrait, found]

/-- The parameters of a bound come from its written arguments, or leak from defaults. -/
theorem finishBound_scoped (id : DefId) {own : DefId} {params : List TraitParam} {span : Span}
    (lowered : tree.Lowered params) (leaks : ∀ q, tree.Leaks q → ok q) {applied : AppliedArgs}
    (written : ∀ ty, .type ty ∈ applied.args → ∀ q ∈ ty.occurring, ok q) :
    Ends AnyFault (finishBound tree id (.ofParams own params span) applied) cx fun p _ =>
      Within ok p.args.toList := by
  simp only [finishBound]
  split
  · cases applies : (Predicate.ofParams own params span).apply applied with
    | error fault => exact trivial
    | ok out =>
        obtain ⟨p, mismatch⟩ := out
        simp only [ends_bind, ends_liftM_ok, ends_pure]
        exact (ends_any _).mono fun _ _ _ =>
          Predicate.within_apply lowered leaks written applies
  · simp only [ends_bind, ends_pure]
    exact (ends_any _).mono fun _ _ _ => Predicate.within_ofParams own params span

/-- A bound of a trait object has the parameters of its arguments. -/
theorem dynBound?_scoped {p : Predicate} (within : Within ok p.args.toList) :
    ∀ q ∈ Ty.occurringBounds (p.dynBound? tree).toList, ok q := by
  intro q mem
  cases bound : p.dynBound? tree with
  | none =>
      rw [bound] at mem
      cases mem
  | some b =>
      rw [bound] at mem
      simp only [Predicate.dynBound?, Option.bind_eq_bind, Option.bind_eq_some_iff] at bound
      obtain ⟨id, -, decl, -, same⟩ := bound
      cases same
      rw [Option.toList_some, Ty.occurringBounds, Ty.occurringBounds, Ty.occurringBound,
        List.append_nil, Ty.occurringList_eq, List.mem_flatMap] at mem
      obtain ⟨ty, there, mem⟩ := mem
      obtain ⟨slot, written, rfl⟩ := List.mem_map.1 there
      cases typed : slot.ty with
      | none =>
          rw [typed] at mem
          cases mem
      | some ty =>
          rw [typed] at mem
          exact within slot (List.mem_of_mem_drop written) ty typed q mem

/-! ## Types and bounds -/

section

set_option linter.unusedSectionVars false

variable (keeps : resolve.KeepsStack) (encloses : resolve.Encloses tree)

include keeps encloses

mutual

/-- What occurs in a lowered type, its sources give. -/
theorem lowerTy_within : ∀ (t : TypeExpr) {cx : Context}, Covers tree scope ok t.sources →
    tree.Enclosed cx → Ends AnyFault (lowerTy tree resolve scope t) cx fun ty cx' =>
      tree.Enclosed cx' ∧ ∀ q ∈ ty.occurring, ok q
  | .path p, cx, covers, enclosed => by
      rw [lowerTy]
      exact lowerPath_within p covers enclosed
  | .ref _ t, cx, covers, enclosed | .ptr _ t, cx, covers, enclosed
  | .array t _, cx, covers, enclosed | .slice t, cx, covers, enclosed => by
      simp only [lowerTy, ends_bind, ends_pure]
      exact lowerTy_within t covers enclosed
  | .tuple ts, cx, covers, enclosed => by
      simp only [lowerTy, ends_bind, ends_pure]
      exact lowerTys_within ts covers enclosed
  | .traitObject bounds, cx, covers, enclosed => by
      simp only [lowerTy, ends_bind, ends_pure]
      refine (lowerDynBounds_within bounds (covers.object List.mem_cons_self) covers.tail
        enclosed).mono fun bounds? cx' lowered => ⟨lowered.1, ?_⟩
      cases bounds? with
      | none => exact nofun
      | some bounds => exact lowered.2 bounds rfl
  | .never, cx, covers, enclosed | .infer, cx, covers, enclosed => by
      rw [lowerTy]
      exact ⟨enclosed, nofun⟩

theorem lowerTys_within : ∀ (ts : List TypeExpr) {cx : Context},
    Covers tree scope ok (TypeExpr.listSources ts) → tree.Enclosed cx →
      Ends AnyFault (lowerTys tree resolve scope ts) cx fun tys cx' =>
        tree.Enclosed cx' ∧ ∀ q ∈ Ty.occurringList tys, ok q
  | [], cx, _, enclosed => by
      rw [lowerTys]
      exact ⟨enclosed, nofun⟩
  | t :: ts, cx, covers, enclosed => by
      simp only [lowerTys, ends_bind, ends_pure]
      rw [TypeExpr.listSources] at covers
      refine (lowerTy_within t covers.left enclosed).mono fun ty cx₁ first => ?_
      refine (lowerTys_within ts covers.right first.1).mono fun tys cx₂ others => ?_
      exact ⟨others.1, List.forall_mem_append.2 ⟨first.2, others.2⟩⟩

/-- A path has the parameters that its head names and those of its arguments. -/
theorem lowerPath_within : ∀ (p : TypePath) {cx : Context},
    Covers tree scope ok (TypeExpr.pathSources p) → tree.Enclosed cx →
      Ends AnyFault (lowerPath tree resolve scope p) cx fun ty cx' =>
        tree.Enclosed cx' ∧ ∀ q ∈ ty.occurring, ok q
  | .mk segments span, cx, covers, enclosed => by
      rw [TypeExpr.pathSources] at covers
      simp only [lowerPath]
      split
      · rename_i lowered short
        exact (lowerShort?_scoped covers.left short).mono fun ty cx' done =>
          ⟨done.1.enclosed enclosed, done.2⟩
      · rw [ends_bind]
        refine (adtOf?_quiet _).mono fun adt? cx₁ found => ?_
        have enclosed := found.1.enclosed enclosed
        cases adt? with
        | none => exact ⟨enclosed, nofun⟩
        | some adt =>
            rw [ends_bind]
            refine (lowerLastArgs_within false span segments covers.right enclosed).mono
              fun applied cx₂ args => ?_
            have fine : ∀ q ∈ Ty.occurringList (applied.args.filterMap AppliedArg.type?), ok q := by
              rw [Ty.occurringList_eq]
              intro q mem
              obtain ⟨ty, there, mem⟩ := List.mem_flatMap.1 mem
              obtain ⟨arg, there, own⟩ := List.mem_filterMap.1 there
              cases arg with
              | lifetime name => cases own
              | type t =>
                  cases own
                  exact args.2 ty there q mem
            exact ((finishAdt_goes Quiet.reporting adt _ span).and (finishAdt_scoped adt span fine)).mono
              fun ty cx₃ done => ⟨done.1.enclosed args.1, done.2⟩

/-- What is bound in a bound comes from its arguments, or leaks. -/
theorem lowerBound_within (isSuper : Bool) (leaks : ∀ q, tree.Leaks q → ok q) :
    ∀ (path : TypePath) {cx : Context},
      Covers tree scope ok (TypeExpr.lastSources path.segments) → tree.Enclosed cx →
      Ends AnyFault (lowerBound tree resolve scope isSuper path) cx fun p cx' =>
        tree.Enclosed cx' ∧ Within ok p.args.toList
  | .mk segments span, cx, covers, enclosed => by
      simp only [lowerBound]
      split
      · rename_i problem named
        simp only [ends_bind, ends_report, ends_pure]
        have plain := ItemTree.resolveTraitPath_plain named
        exact ⟨(Quiet.reporting.report cx plain).enclosed enclosed, nofun⟩
      · rename_i id named
        rw [ends_bind]
        refine (boundHead?_scoped encloses enclosed id span isSuper).mono fun p? cx₁ head => ?_
        obtain ⟨enclosed, fresh⟩ := head
        cases p? with
        | none => exact ⟨enclosed, nofun⟩
        | some p =>
            obtain ⟨own, params, lowered, rfl⟩ := fresh p rfl
            rw [ends_bind]
            refine (lowerLastArgs_within true span segments covers enclosed).mono
              fun applied cx₂ args => ?_
            exact ((finishBound_goes Quiet.reporting id _ applied).and
              (finishBound_scoped id lowered leaks args.2)).mono
              fun p cx₃ done => ⟨done.1.enclosed args.1, done.2⟩

/-- The bounds of a trait object are bound to no type, so their defaults may leak. -/
theorem lowerDynBounds_within : ∀ (bounds : List TypePath) {cx : Context},
    (∀ q, tree.Leaks q → ok q) → Covers tree scope ok (TypeExpr.boundSources bounds) →
      tree.Enclosed cx → Ends AnyFault (lowerDynBounds tree resolve scope bounds) cx
        fun bounds? cx' => tree.Enclosed cx' ∧
          ∀ bounds, bounds? = some bounds → ∀ q ∈ Ty.occurringBounds bounds, ok q
  | [], cx, _, _, enclosed => by
      rw [lowerDynBounds]
      exact ⟨enclosed, fun _ same => by cases same; exact nofun⟩
  | path :: rest, cx, leaks, covers, enclosed => by
      obtain ⟨segments, span⟩ := path
      rw [TypeExpr.boundSources] at covers
      rw [lowerDynBounds, ends_bind]
      refine (lowerBound_within false leaks (.mk segments span) covers.left enclosed).mono
        fun p cx₁ lowered => ?_
      rw [ends_bind]
      refine (admitDynBound_quiet p _).mono fun admitted cx₂ checked => ?_
      have enclosed := checked.1.enclosed lowered.1
      cases admitted with
      | none => exact ⟨enclosed, nofun⟩
      | some id =>
          rw [ends_bind]
          refine (lowerDynBounds_within rest leaks covers.right enclosed).mono
            fun bounds? cx₃ others => ?_
          cases bounds? with
          | none => exact ⟨others.1, nofun⟩
          | some bounds =>
              refine ⟨others.1, fun all same => ?_⟩
              cases same
              rw [Ty.occurringBounds_eq, List.flatMap_append, ← Ty.occurringBounds_eq,
                ← Ty.occurringBounds_eq]
              exact List.forall_mem_append.2 ⟨dynBound?_scoped lowered.2, others.2 bounds rfl⟩

theorem lowerLastArgs_within (bindings : Bool) (span : Span) :
    ∀ (segments : List PathSegment) {cx : Context},
      Covers tree scope ok (TypeExpr.lastSources segments) → tree.Enclosed cx →
      Ends AnyFault (lowerLastArgs tree resolve scope bindings span segments) cx fun applied cx' =>
        tree.Enclosed cx' ∧ ∀ ty, .type ty ∈ applied.args → ∀ q ∈ ty.occurring, ok q
  | [], cx, _, enclosed => by
      rw [lowerLastArgs]
      exact ⟨enclosed, nofun⟩
  | [.mk _ args], cx, covers, enclosed => by
      rw [lowerLastArgs]
      exact lowerOptionalArgs_within bindings span args covers enclosed
  | _ :: s :: rest, cx, covers, enclosed => by
      rw [TypeExpr.lastSources] at covers
      rw [lowerLastArgs]
      exact lowerLastArgs_within bindings span (s :: rest) covers enclosed

theorem lowerOptionalArgs_within (bindings : Bool) (span : Span) :
    ∀ (args : Option GenericArgs) {cx : Context},
      Covers tree scope ok (TypeExpr.optionalSources args) → tree.Enclosed cx →
      Ends AnyFault (lowerOptionalArgs tree resolve scope bindings span args) cx
        fun applied cx' => tree.Enclosed cx' ∧
          ∀ ty, .type ty ∈ applied.args → ∀ q ∈ ty.occurring, ok q
  | none, cx, _, enclosed => by
      rw [lowerOptionalArgs]
      exact ⟨enclosed, nofun⟩
  | some args, cx, covers, enclosed => by
      rw [lowerOptionalArgs]
      exact lowerArgs_within bindings args covers enclosed

/-- The bindings are lowered too, but no argument comes from them. -/
theorem lowerArgs_within (bindings : Bool) : ∀ (args : GenericArgs) {cx : Context},
    Covers tree scope ok (TypeExpr.argsSources args) → tree.Enclosed cx →
      Ends AnyFault (lowerArgs tree resolve scope bindings args) cx fun applied cx' =>
        tree.Enclosed cx' ∧ ∀ ty, .type ty ∈ applied.args → ∀ q ∈ ty.occurring, ok q
  | .mk args bound span, cx, covers, enclosed => by
      rw [lowerArgs, ends_bind]
      refine (lowerArgList_within args covers enclosed).mono fun args cx₁ lowered => ?_
      cases bindings with
      | false => exact lowered
      | true =>
          simp only [if_true, ends_bind, ends_pure]
          exact (lowerBindings_asked keeps scope bound).mono fun _ _ asked =>
            ⟨asked.enclosed encloses lowered.1, lowered.2⟩

theorem lowerArgList_within : ∀ (args : List GenericArg) {cx : Context},
    Covers tree scope ok (TypeExpr.argListSources args) → tree.Enclosed cx →
      Ends AnyFault (lowerArgList tree resolve scope args) cx fun args cx' =>
        tree.Enclosed cx' ∧ ∀ ty, .type ty ∈ args → ∀ q ∈ ty.occurring, ok q
  | [], cx, _, enclosed => by
      rw [lowerArgList]
      exact ⟨enclosed, nofun⟩
  | .lifetime name :: rest, cx, covers, enclosed => by
      simp only [lowerArgList, ends_bind, ends_pure]
      refine (lowerArgList_within rest covers enclosed).mono fun args cx₁ others => ⟨others.1, ?_⟩
      intro ty mem
      rcases List.mem_cons.1 mem with same | mem
      · cases same
      · exact others.2 ty mem
  | .type t :: rest, cx, covers, enclosed => by
      rw [TypeExpr.argListSources] at covers
      simp only [lowerArgList, ends_bind, ends_pure]
      refine (lowerTy_within t covers.left enclosed).mono fun ty cx₁ first => ?_
      refine (lowerArgList_within rest covers.right first.1).mono fun args cx₂ others =>
        ⟨others.1, ?_⟩
      intro ty mem
      rcases List.mem_cons.1 mem with same | mem
      · cases same
        exact first.2
      · exact others.2 ty mem

end

/-- A lowered type has parameters that its expression names in the scope, and if there is a
trait object in the expression, parameters that leak. -/
theorem lowerTy_scoped (scope : Scope) (t : TypeExpr) (enclosed : tree.Enclosed cx) :
    Ends AnyFault (lowerTy tree resolve scope t) cx fun ty cx' => tree.Enclosed cx' ∧
      ∀ q ∈ ty.occurring, t.Names scope q ∨ .object ∈ t.sources ∧ tree.Leaks q := by
  refine lowerTy_within keeps encloses t ⟨fun name mem q found => ?_, fun mem q leak => ?_⟩ enclosed
  · have own : q.name = name := by simpa using List.find?_some found
    subst own
    exact Or.inl ⟨mem, found⟩
  · exact Or.inr ⟨mem, leak⟩

/-! ## Traits -/

/-- The defaults of a trait come from the written ones, each in the scope of the trait. -/
theorem lowerFallbacks_lowers (decl : TraitDecl) : ∀ (ps : List TypeParam) {cx : Context},
    tree.Enclosed cx → Ends AnyFault (lowerFallbacks tree resolve decl.scope ps) cx
      fun params cx' => tree.Enclosed cx' ∧ List.Forall₂ (TraitParam.Lowers tree decl) ps params
  | [], cx, enclosed => ⟨enclosed, .nil⟩
  | p :: rest, cx, enclosed => by
      rw [lowerFallbacks]
      have others (fallback : Option Ty) {cx₁ : Context} (enclosed : tree.Enclosed cx₁)
          (lowers : TraitParam.Lowers tree decl p { TraitParam.ofDecl p with fallback }) :
          Ends AnyFault (lowerFallbacks tree resolve decl.scope rest) cx₁ fun params cx₂ =>
            tree.Enclosed cx₂ ∧ List.Forall₂ (TraitParam.Lowers tree decl) (p :: rest)
              ({ TraitParam.ofDecl p with fallback } :: params) :=
        (lowerFallbacks_lowers decl rest enclosed).mono fun params cx₂ done =>
          ⟨done.1, .cons lowers done.2⟩
      cases written : p.fallback with
      | none =>
          simp only [ends_bind, ends_pure]
          exact others none enclosed ⟨rfl, fun _ same => by cases same⟩
      | some t =>
          simp only [ends_bind, ends_map, ends_pure]
          refine (lowerTy_scoped keeps encloses decl.scope t enclosed).mono fun ty cx₁ lowered => ?_
          refine others (some ty) lowered.1 ⟨rfl, fun _ same => ⟨t, written, ?_⟩⟩
          cases same
          exact fun q mem => (lowered.2 q mem).imp_right And.right

end

/-- A trait that is resolved anew is enclosed. -/
theorem Course.enclosed {id : DefId} {decl : TraitDecl} {cx' : Context}
    (course : Course tree resolve id decl cx cx') (keeps : resolve.KeepsStack)
    (encloses : resolve.Encloses tree) (declared : tree.trait? id = some decl)
    (enclosed : tree.Enclosed cx) : tree.Enclosed cx' := by
  obtain ⟨begun, fallbacks, supers, items, own, known, bodies⟩ := course
  rename_i cx₁ cx₂ cx₃ cx₄ params t
  have start : tree.Enclosed (cx.beginResolving id) := enclosed.of_eq rfl rfl
  obtain ⟨enclosed₂, lowers⟩ := (lowerFallbacks_lowers keeps encloses decl decl.orderedParams
    (begun.enclosed start)).of_eq_ok fallbacks
  have lowered : tree.Lowered params := ⟨id, decl, declared, lowers⟩
  have pending : tree.Enclosed (cx₂.setPending decl.id params) := by
    refine ⟨enclosed₂.cached, fun e mem => ?_⟩
    rcases Table.mem_entries_insert mem with rfl | mem
    · exact lowered
    · exact enclosed₂.pending e mem
  have enclosed₃ := supers.enclosed encloses pending
  obtain ⟨stack, eq⟩ := cx₃.enterItems_eq decl.id
  have entered : tree.Enclosed (cx₃.enterItems decl.id) := by
    rw [eq]
    exact enclosed₃.of_eq rfl rfl
  have enclosed₄ := items.enclosed encloses entered
  refine bodies.enclosed encloses ⟨fun e mem => ?_, fun e mem => ?_⟩
  · rcases Table.mem_entries_insert mem with rfl | mem
    · exact known ▸ lowered
    · exact enclosed₄.cached e mem
  · exact enclosed₄.pending e (Table.mem_entries_erase.1 mem).1

/-- By induction on the depth: all that is asked for on the way is enclosed. -/
theorem resolveWithin_encloses (numbered : tree.Numbered) (depth : Nat) :
    Resolver.Encloses (resolveWithin tree depth) tree := by
  induction depth with
  | zero =>
      intro id span cx t cx' ran
      cases ran
  | succ depth ih =>
      intro id span cx t cx' ran enclosed
      have found {cx : Context} (enclosed : tree.Enclosed cx) {t : TraitRef}
          (cached : cx.trait? id = some t) : tree.Lowered t.params :=
        enclosed.cached _ (Table.mem_entries_of_get? cached)
      have ends : Ends AnyFault (resolveWithin tree (depth + 1) id span) cx fun t cx' =>
          tree.Enclosed cx' ∧ (t.isError = false → tree.Lowered t.params) := by
        refine ends_resolveWithin span (fun t cached => ⟨enclosed, fun _ => found enclosed cached⟩)
          (fun _ => ⟨enclosed, nofun⟩) (fun _ => ⟨enclosed, nofun⟩)
          (fun _ => ⟨enclosed.of_eq (cx.report_cache _) (cx.report_pending _), nofun⟩)
          fun decl declared _ _ _ => ?_
        have keeps := resolveWithin_keepsStack numbered depth
        refine (resolveNew_course keeps).mono fun t cx' done => ?_
        obtain ⟨course, rfl⟩ := done
        have enclosed := course.enclosed keeps ih declared enclosed
        refine ⟨enclosed, fun fine => ?_⟩
        cases cached : cx'.trait? id with
        | none =>
            rw [cached] at fine
            cases fine
        | some t => exact found enclosed cached
      exact ends.of_eq_ok ran

end Lowering

end TraitEngine
