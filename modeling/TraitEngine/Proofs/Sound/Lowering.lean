import TraitEngine.Proofs.Ends
import TraitEngine.Proofs.Sound.Context
import TraitEngine.Resolve.Lowering
/-!
# Lowering gives types that pass

Lowering a type expression in a sound context gives a type that passes in the context
afterwards, and lowering a bound a sound predicate. Wherever the error type or the error
predicate comes up, it is excused or something is reported on the spot; the one other
source are types that were there before.

The proof goes by the recursion of the definitions. What a resolver has to answer is
`Standard.Answering`.
-/

namespace TraitEngine

set_option autoImplicit false

open Check

namespace Standard

/-- A resolver's answer: a sound reference, or the error reference for a trait that is not
declared or on the stack already, or with a cause. -/
structure Answer (std : Standard) (cx cx' : Context) (id : DefId) (t : TraitRef) : Prop where
  onward : std.Onward cx cx'
  found : t.isError = false → t.Sound std.tree (std.testAt cx') id
  refused : t.isError = true →
    (std.testAt cx').error ∨ std.tree.trait? id = none ∨ id ∈ cx.stack.keys

/-- In contexts that hold, the resolver gives no other answers. -/
def Answering (std : Standard) (resolve : Resolver) : Prop :=
  ∀ id span cx, std.Holds cx → Ends AnyFault (resolve id span) cx fun t cx' =>
    std.Answer cx cx' id t

end Standard

/-- The search finds a declared trait that declares the associated type. -/
theorem Context.findAssocType?_declares {tree : ItemTree} {cx : Context} {start : List DefId}
    {name : String} {decl : TraitDecl} (found : cx.findAssocType? tree start name = some decl) :
    ∃ id, tree.trait? id = some decl ∧ decl.declaresType name := by
  have search (steps : Nat) : ∀ stack seen,
      searchAssocType tree cx name steps stack seen = some decl →
      ∃ id, tree.trait? id = some decl ∧ decl.declaresType name := by
    induction steps with
    | zero =>
        intro stack seen found
        cases found
    | succ steps ih =>
        intro stack seen found
        cases stack with
        | nil => cases found
        | cons id rest =>
            rw [searchAssocType] at found
            split at found
            · exact ih _ _ found
            · cases declared : tree.trait? id with
              | none =>
                  rw [declared] at found
                  exact ih _ _ found
              | some other =>
                  rw [declared] at found
                  simp only at found
                  split at found
                  · rename_i declares
                    cases found
                    exact ⟨id, declared, declares⟩
                  · exact ih _ _ found
  exact search _ _ _ found

namespace Lowering

variable {std : Standard} {resolve : Resolver} {cx cx₁ : Context}

/-! ## The parts of a type -/

/-- A projection is made over a trait that declares it, and otherwise reported. -/
theorem lowerProjection_sound (regular : std.Regular) (param : Param) (name : String) (span : Span)
    (holds : std.Holds cx) :
    Ends AnyFault (lowerProjection std.tree param name span) cx fun t cx' =>
      std.Onward cx cx' ∧ t.Every (std.testAt cx') := by
  simp only [lowerProjection, ends_bind, ends_get]
  split
  · rename_i decl found
    obtain ⟨id, declared, declares⟩ := Context.findAssocType?_declares found
    obtain rfl := regular.numbered id decl declared
    exact ⟨.refl holds, regular.conforming.projection _ _ _ ⟨decl, declared, rfl, declares⟩, trivial⟩
  · simp only [ends_bind, ends_report, ends_pure]
    exact ⟨(Standard.Onward.refl holds).report _, std.testAt_report cx _⟩

/-- Parameters and primitive types pass, and a projection is found or reported. -/
theorem lowerShort?_sound (regular : std.Regular) {scope : Scope} {names : List String}
    {span : Span} {lowered : Check Ty}
    (short : lowerShort? std.tree scope names span = some lowered) (holds : std.Holds cx) :
    Ends AnyFault lowered cx fun t cx' => std.Onward cx cx' ∧ t.Every (std.testAt cx') := by
  unfold lowerShort? at short
  split at short
  · split at short
    · cases short
      exact ⟨.refl holds, trivial⟩
    · obtain ⟨t, primitive, rfl⟩ := Option.map_eq_some_iff.1 short
      obtain ⟨p, -, rfl⟩ := Option.map_eq_some_iff.1 primitive
      exact ⟨.refl holds, trivial⟩
  · obtain ⟨param, -, rfl⟩ := Option.map_eq_some_iff.1 short
    exact lowerProjection_sound regular param _ span holds
  · cases short

/-- Either a declared struct or enum is found or a problem is reported. -/
theorem adtOf?_sound (path : TypePath) (holds : std.Holds cx) :
    Ends AnyFault (adtOf? std.tree path) cx fun adt? cx' =>
      std.Onward cx cx' ∧ (adt? = none → (std.testAt cx').error) ∧
        ∀ adt, adt? = some adt → ∃ id, std.tree.adt? id = some adt := by
  unfold adtOf?
  split
  · simp only [ends_bind, ends_report, ends_pure]
    exact ⟨(Standard.Onward.refl holds).report _, fun _ => std.testAt_report cx _,
      fun _ same => by cases same⟩
  · rename_i id _
    split
    · rename_i adt found
      exact ⟨.refl holds, fun none => (by cases none), fun _ same => ⟨id, Option.some.inj same ▸ found⟩⟩
    · simp only [ends_bind, ends_report, ends_pure]
      exact ⟨(Standard.Onward.refl holds).report _, fun _ => std.testAt_report cx _,
        fun _ same => by cases same⟩

/-- With as many arguments as there are parameters the type conforms; any other number is
reported. -/
theorem finishAdt_sound (regular : std.Regular) {id : DefId} {adt : AdtDecl}
    (declared : std.tree.adt? id = some adt) {args : List Ty} (span : Span) (holds : std.Holds cx)
    (fine : ∀ t ∈ args, t.Every (std.testAt cx)) :
    Ends AnyFault (finishAdt adt args span) cx fun t cx' =>
      std.Onward cx cx' ∧ t.Every (std.testAt cx') := by
  obtain rfl := regular.adts id adt declared
  simp only [finishAdt]
  split
  · rename_i counted
    have counted : args.length = adt.typeParams.length := by simpa using counted
    exact ⟨.refl holds, regular.conforming.adt _ _ _ ⟨adt, declared, rfl, counted.symm⟩,
      Ty.everyList_iff.2 fine⟩
  · simp only [ends_bind, ends_report, ends_pure]
    exact ⟨(Standard.Onward.refl holds).report _, std.testAt_report cx _⟩

/-! ## The parts of a bound -/

/-- Whether its trait is on the stack or asked for, a bound starts with a sound predicate
that has not failed, or with a cause. -/
theorem boundHead?_sound (regular : std.Regular) (answers : std.Answering resolve) {id : DefId}
    {decl : TraitDecl} (declared : std.tree.trait? id = some decl) (span : Span) (isSuper : Bool)
    (holds : std.Holds cx) :
    Ends AnyFault (boundHead? std.tree resolve id span isSuper) cx fun p? cx' =>
      std.Onward cx cx' ∧ (p? = none → (std.testAt cx').error) ∧
        ∀ p, p? = some p → p.Sound std.tree (std.testAt cx') ∧ (p.failed = true → p = .error) := by
  have some (cx : Context) (none : decl.typeParams = []) : (std.testAt cx).error :=
    regular.typeParams declared none cx
  simp only [boundHead?, ends_bind, ends_get]
  split
  -- A trait on the stack: the bound closes a cycle, or takes the pending parameters, or the
  -- declared ones while none are pending.
  · split
    · simp only [ends_bind, ends_report, ends_pure]
      exact ⟨(Standard.Onward.refl holds).report _, fun _ => std.testAt_report cx _,
        fun _ same => by cases same⟩
    · split
      · rename_i params _ waiting
        obtain ⟨⟨decl', declared', counted⟩, defaults⟩ :=
          holds.pending _ (Table.mem_entries_of_get? waiting)
        cases declared.symm.trans declared'
        refine ⟨.refl holds, fun none => (by cases none), fun p same => ?_⟩
        cases same
        exact ⟨Predicate.ofParams_sound declared counted defaults (some cx),
          Predicate.eq_error_of_ofParams_failed⟩
      · rename_i decl' _ declared'
        cases declared.symm.trans declared'
        refine ⟨.refl holds, fun none => (by cases none), fun p same => ?_⟩
        cases same
        refine ⟨Predicate.ofParams_sound declared ?_ ?_ (some cx),
          Predicate.eq_error_of_ofParams_failed⟩
        · rw [List.length_map, TraitDecl.length_orderedParams]
        · intro q mem t own
          obtain ⟨param, -, rfl⟩ := List.mem_map.1 mem
          cases own
      · rename_i none
        cases declared.symm.trans none
  -- A trait that is asked for. It is declared and not on the stack, so an error reference has
  -- been reported.
  · rename_i notOpen
    rw [cx.isResolving_iff] at notOpen
    rw [ends_bind]
    refine (answers id span cx holds).mono fun t cx₁ answer => ?_
    rw [ends_pure]
    refine ⟨answer.onward, fun none => ?_, fun p same => ?_⟩
    · by_cases isError : t.isError = true
      · rcases answer.refused isError with err | none | waits
        · exact err
        · cases declared.symm.trans none
        · exact absurd waits notOpen
      · simp [isError] at none
    · by_cases isError : t.isError = true
      · simp [isError] at same
      · have found := answer.found (by simpa using isError)
        obtain ⟨decl', declared', counted⟩ := found.params.counted
        cases declared.symm.trans declared'
        have same : p = .ofTrait t span := by simpa [isError] using same.symm
        rw [same, Predicate.ofTrait, found.own]
        exact ⟨Predicate.ofParams_sound declared counted found.params.defaults (some cx₁),
          Predicate.eq_error_of_ofParams_failed⟩

/-- Arguments that do not fit are reported. -/
theorem reviewBound_sound (id : DefId) (p : Predicate) (span : Span) (mismatch : Option ArgMismatch)
    (holds : std.Holds cx) :
    Ends AnyFault (reviewBound std.tree id p span mismatch) cx fun _ cx' =>
      std.Onward cx cx' ∧ (mismatch.isSome → (std.testAt cx').error) := by
  cases mismatch with
  | some cause =>
      simp only [reviewBound, ends_report]
      exact ⟨(Standard.Onward.refl holds).report _, fun _ => std.testAt_report cx _⟩
  | none =>
      simp only [reviewBound]
      split
      · simp only [ends_bind, ends_pure]
        refine (ends_forIn _ p.bindings (Standard.Onward.refl holds)
          fun binding _ cx₁ onward => ?_).mono fun _ _ onward =>
          ⟨onward, fun failed => Bool.noConfusion failed⟩
        split
        · exact ⟨rfl, onward⟩
        · simp only [ends_bind, ends_report, ends_pure]
          exact ⟨trivial, onward.report _⟩
      · exact ⟨.refl holds, fun failed => Bool.noConfusion failed⟩

/-- A predicate after its arguments: sound, and all slots are bound unless it failed. -/
structure BoundSound (std : Standard) (cx : Context) (p : Predicate) : Prop where
  sound : p.Sound std.tree (std.testAt cx)
  applied : p.failed = false → p.Applied

/-- The error predicate is sound where errors are. -/
theorem boundSound_error (err : (std.testAt cx).error) : BoundSound std cx .error where
  sound := Predicate.error_sound err
  applied := nofun

/-- The predicate with its arguments applied is sound, or its failure is reported. -/
theorem finishBound_sound (id : DefId) {p : Predicate} {applied : AppliedArgs}
    (holds : std.Holds cx) (sound : p.Sound std.tree (std.testAt cx))
    (total : p.failed = true → p = .error) (types : applied.Every (std.testAt cx)) :
    Ends AnyFault (finishBound std.tree id p applied) cx fun q cx' =>
      std.Onward cx cx' ∧ BoundSound std cx' q := by
  have review (q : Predicate) (mismatch : Option ArgMismatch)
      (known : ∀ cx', std.Onward cx cx' → (mismatch.isSome → (std.testAt cx').error) →
        BoundSound std cx' q) :
      Ends AnyFault (reviewBound std.tree id q applied.span mismatch) cx fun _ cx' =>
        std.Onward cx cx' ∧ BoundSound std cx' q :=
    (reviewBound_sound id q applied.span mismatch holds).mono fun _ cx' reviewed =>
      ⟨reviewed.1, known cx' reviewed.1 reviewed.2⟩
  simp only [finishBound]
  split
  · cases applies : p.apply applied with
    | error fault => exact trivial
    | ok out =>
        obtain ⟨q, mismatch⟩ := out
        simp only [ends_bind, ends_liftM_ok, ends_pure]
        refine review q mismatch fun cx' onward err => ?_
        by_cases fine : p.failed = false
        · obtain ⟨fits, misfits⟩ := Predicate.apply_sound sound fine types applies
          cases mismatch with
          | none =>
              obtain ⟨sound, -, bound⟩ := fits rfl
              exact ⟨sound.mono onward.le, fun _ => bound⟩
          | some cause =>
              rw [misfits rfl]
              have kept := sound.mono onward.le
              exact ⟨⟨fun _ => err rfl, fun fine => Bool.noConfusion fine, kept.args, kept.bindings,
                kept.defaults⟩, fun fine => Bool.noConfusion fine⟩
        · obtain rfl := total (by simpa using fine)
          cases applies
  · rename_i bare
    simp only [ends_bind, ends_pure]
    refine review p none fun cx' onward _ => ⟨sound.mono onward.le, fun fine => ?_⟩
    have few : p.params.length ≤ 1 := by
      simp only [Bool.or_eq_true, decide_eq_true_eq, not_or, Nat.not_lt] at bare
      exact bare.1
    exact Predicate.applied_of_params_le (sound.covers fine) few

/-- A trait object takes a bound in, or there is a cause why not. -/
theorem admitDynBound_sound {p : Predicate} (span : Span) (holds : std.Holds cx)
    (sound : p.Sound std.tree (std.testAt cx)) :
    Ends AnyFault (admitDynBound p span) cx fun out cx' =>
      std.Onward cx cx' ∧ (out = none → (std.testAt cx').error) ∧ (out.isSome → p.failed = false) := by
  cases failed : p.failed with
  | true =>
      simp only [admitDynBound, failed, if_true, ends_pure]
      exact ⟨.refl holds, fun _ => sound.failed failed, fun admitted => Bool.noConfusion admitted⟩
  | false =>
      obtain ⟨id, decl, own, -⟩ := sound.covers failed
      simp only [admitDynBound, failed, own, Bool.false_eq_true, if_false, ends_bind, ends_get]
      cases found : p.get? cx with
      | none =>
          simp only [Option.isSome_none, Bool.false_eq_true, if_false, ends_bind, ends_modify,
            ends_pure]
          exact ⟨(Standard.Onward.refl holds).of_eq rfl rfl rfl rfl rfl rfl,
            fun none => (by cases none), fun _ => trivial⟩
      | some t =>
          have check : p.checkObjectSafety true span cx = t.checkObjectSafety true span cx := by
            simp [Predicate.checkObjectSafety, Predicate.getChecked?, failed, found]
          simp only [Option.isSome_some, if_true, ends_bind, ends_modifyGet, ends_pure, check]
          refine ⟨(Standard.Onward.refl holds).checkObjectSafety t true span, fun none => ?_,
            fun _ => trivial⟩
          unfold TraitRef.checkObjectSafety at none ⊢
          cases found : t.objectSafetyProblem? cx span with
          | none => simp [found] at none
          | some problem => exact std.testAt_report cx problem

/-! ## Types and bounds -/

section

set_option linter.unusedSectionVars false

variable (regular : std.Regular) (answers : std.Answering resolve) (scope : Scope)

include regular answers

mutual

/-- A type that is lowered passes. -/
theorem lowerTy_sound : ∀ (t : TypeExpr) {cx : Context}, std.Holds cx →
    Ends AnyFault (lowerTy std.tree resolve scope t) cx fun ty cx' =>
      std.Onward cx cx' ∧ ty.Every (std.testAt cx')
  | .path p, cx, holds => by
      rw [lowerTy]
      exact lowerPath_sound p holds
  | .ref mutable t, cx, holds => by
      simp only [lowerTy, ends_bind, ends_pure]
      exact lowerTy_sound t holds
  | .ptr mutable t, cx, holds => by
      simp only [lowerTy, ends_bind, ends_pure]
      exact lowerTy_sound t holds
  | .tuple ts, cx, holds => by
      simp only [lowerTy, ends_bind, ends_pure]
      exact (lowerTys_sound ts holds).mono fun tys cx' lowered =>
        ⟨lowered.1, Ty.everyList_iff.2 lowered.2⟩
  | .array t length, cx, holds => by
      simp only [lowerTy, ends_bind, ends_pure]
      exact lowerTy_sound t holds
  | .slice t, cx, holds => by
      simp only [lowerTy, ends_bind, ends_pure]
      exact lowerTy_sound t holds
  | .traitObject bounds, cx, holds => by
      simp only [lowerTy, ends_bind, ends_pure]
      refine (lowerDynBounds_sound bounds holds).mono fun out cx' lowered => ?_
      obtain ⟨onward, failed, every⟩ := lowered
      cases out with
      | none => exact ⟨onward, failed rfl⟩
      | some bs => exact ⟨onward, Ty.everyBounds_iff.2 (every bs rfl)⟩
  | .never, cx, holds => by
      rw [lowerTy]
      exact ⟨.refl holds, trivial⟩
  | .infer, cx, holds => by
      rw [lowerTy]
      exact ⟨.refl holds, trivial⟩

theorem lowerTys_sound : ∀ (ts : List TypeExpr) {cx : Context}, std.Holds cx →
    Ends AnyFault (lowerTys std.tree resolve scope ts) cx fun tys cx' =>
      std.Onward cx cx' ∧ ∀ ty ∈ tys, ty.Every (std.testAt cx')
  | [], cx, holds => by
      rw [lowerTys]
      exact ⟨.refl holds, nofun⟩
  | t :: ts, cx, holds => by
      simp only [lowerTys, ends_bind, ends_pure]
      refine (lowerTy_sound t holds).mono fun ty cx₁ head => ?_
      obtain ⟨first, fine⟩ := head
      refine (lowerTys_sound ts first.sound).mono fun tys cx₂ tail => ?_
      obtain ⟨rest, others⟩ := tail
      refine ⟨first.trans rest, fun u mem => ?_⟩
      rcases List.mem_cons.1 mem with rfl | mem
      · exact fine.mono rest.le
      · exact others u mem

/-- A path that names no type is reported and becomes the error type. -/
theorem lowerPath_sound : ∀ (p : TypePath) {cx : Context}, std.Holds cx →
    Ends AnyFault (lowerPath std.tree resolve scope p) cx fun ty cx' =>
      std.Onward cx cx' ∧ ty.Every (std.testAt cx')
  | .mk segments span, cx, holds => by
      simp only [lowerPath]
      split
      · rename_i short
        exact lowerShort?_sound regular short holds
      · rw [ends_bind]
        refine (adtOf?_sound _ holds).mono fun adt? cx₁ found => ?_
        obtain ⟨first, missing, declared⟩ := found
        cases adt? with
        | none => exact ⟨first, missing rfl⟩
        | some adt =>
            obtain ⟨id, declared⟩ := declared adt rfl
            rw [ends_bind]
            refine (lowerLastArgs_sound false span segments first.sound).mono
              fun applied cx₂ lowered => ?_
            obtain ⟨second, every⟩ := lowered
            refine (finishAdt_sound regular declared span second.sound fun t mem => ?_).mono
              fun ty cx₃ finished => ⟨(first.trans second).trans finished.1, finished.2⟩
            obtain ⟨arg, there, own⟩ := List.mem_filterMap.1 mem
            cases arg with
            | lifetime name => cases own
            | type u =>
                cases own
                exact every.args _ there

/-- A bound becomes a sound predicate. It fails only for a reason that is reported. -/
theorem lowerBound_sound (isSuper : Bool) : ∀ (path : TypePath) {cx : Context}, std.Holds cx →
    Ends AnyFault (lowerBound std.tree resolve scope isSuper path) cx fun p cx' =>
      std.Onward cx cx' ∧ BoundSound std cx' p
  | .mk segments span, cx, holds => by
      simp only [lowerBound]
      split
      · simp only [ends_bind, ends_report, ends_pure]
        exact ⟨(Standard.Onward.refl holds).report _, boundSound_error (std.testAt_report cx _)⟩
      · rename_i id named
        obtain ⟨decl, declared⟩ := ItemTree.trait?_of_resolveTraitPath named
        rw [ends_bind]
        refine (boundHead?_sound regular answers declared span isSuper holds).mono
          fun p? cx₁ head => ?_
        obtain ⟨first, refused, fresh⟩ := head
        cases p? with
        | none => exact ⟨first, boundSound_error (refused rfl)⟩
        | some p =>
            obtain ⟨sound, total⟩ := fresh p rfl
            rw [ends_bind]
            refine (lowerLastArgs_sound true span segments first.sound).mono
              fun applied cx₂ lowered => ?_
            obtain ⟨second, every⟩ := lowered
            refine (finishBound_sound id second.sound (sound.mono second.le) total every).mono
              fun q cx₃ finished => ?_
            exact ⟨(first.trans second).trans finished.1, finished.2⟩

/-- A trait object is given up only with a report; otherwise its bounds pass. -/
theorem lowerDynBounds_sound : ∀ (bounds : List TypePath) {cx : Context}, std.Holds cx →
    Ends AnyFault (lowerDynBounds std.tree resolve scope bounds) cx fun out cx' =>
      std.Onward cx cx' ∧ (out = none → (std.testAt cx').error) ∧
        ∀ bs, out = some bs → ∀ b ∈ bs, Ty.EveryBound (std.testAt cx') b
  | [], cx, holds => by
      rw [lowerDynBounds]
      refine ⟨.refl holds, nofun, fun bs same => ?_⟩
      cases same
      exact nofun
  | path :: rest, cx, holds => by
      rw [lowerDynBounds, ends_bind]
      refine (lowerBound_sound false path holds).mono fun p cx₁ lowered => ?_
      obtain ⟨first, bound⟩ := lowered
      rw [ends_bind]
      refine (admitDynBound_sound path.span first.sound bound.sound).mono fun out cx₂ admitted => ?_
      obtain ⟨second, refused, fine⟩ := admitted
      have early := first.trans second
      cases out with
      | none => exact ⟨early, fun _ => refused rfl, nofun⟩
      | some id =>
          rw [ends_bind]
          refine (lowerDynBounds_sound rest second.sound).mono fun bounds? cx₃ lowered => ?_
          obtain ⟨third, failed, every⟩ := lowered
          have onward := early.trans third
          cases bounds? with
          | none => exact ⟨onward, fun _ => failed rfl, nofun⟩
          | some bs =>
              refine ⟨onward, nofun, fun all same b mem => ?_⟩
              cases same
              rcases List.mem_append.1 mem with own | mem
              · have sound := bound.sound.mono (second.trans third).le
                exact Predicate.dynBound?_every sound (fine rfl) (bound.applied (fine rfl))
                  regular.conforming.bound (Option.mem_toList.1 own)
              · exact every bs rfl b mem

theorem lowerLastArgs_sound (bindings : Bool) (span : Span) :
    ∀ (segments : List PathSegment) {cx : Context}, std.Holds cx →
      Ends AnyFault (lowerLastArgs std.tree resolve scope bindings span segments) cx
        fun applied cx' => std.Onward cx cx' ∧ applied.Every (std.testAt cx')
  | [], cx, holds => by
      rw [lowerLastArgs]
      exact ⟨.refl holds, AppliedArgs.every_none span⟩
  | [.mk _ args], cx, holds => by
      rw [lowerLastArgs]
      exact lowerOptionalArgs_sound bindings span args holds
  | _ :: s :: rest, cx, holds => by
      rw [lowerLastArgs]
      exact lowerLastArgs_sound bindings span (s :: rest) holds

theorem lowerOptionalArgs_sound (bindings : Bool) (span : Span) :
    ∀ (args : Option GenericArgs) {cx : Context}, std.Holds cx →
      Ends AnyFault (lowerOptionalArgs std.tree resolve scope bindings span args) cx
        fun applied cx' => std.Onward cx cx' ∧ applied.Every (std.testAt cx')
  | none, cx, holds => by
      rw [lowerOptionalArgs]
      exact ⟨.refl holds, AppliedArgs.every_none span⟩
  | some args, cx, holds => by
      rw [lowerOptionalArgs]
      exact lowerArgs_sound bindings args holds

/-- Arguments and bindings pass, type by type. -/
theorem lowerArgs_sound (bindings : Bool) : ∀ (args : GenericArgs) {cx : Context}, std.Holds cx →
    Ends AnyFault (lowerArgs std.tree resolve scope bindings args) cx
      fun applied cx' => std.Onward cx cx' ∧ applied.Every (std.testAt cx')
  | .mk args bound span, cx, holds => by
      rw [lowerArgs, ends_bind]
      refine (lowerArgList_sound args holds).mono fun args cx₁ lowered => ?_
      obtain ⟨first, types⟩ := lowered
      cases bindings with
      | false => exact ⟨first, types, nofun⟩
      | true =>
          simp only [if_true, ends_bind, ends_pure]
          refine (lowerBindings_sound bound first.sound).mono fun bound cx₂ lowered => ?_
          obtain ⟨second, bound⟩ := lowered
          exact ⟨first.trans second, fun t mem => (types t mem).mono second.le, bound⟩

theorem lowerArgList_sound : ∀ (args : List GenericArg) {cx : Context}, std.Holds cx →
    Ends AnyFault (lowerArgList std.tree resolve scope args) cx fun args cx' =>
      std.Onward cx cx' ∧ ∀ t, AppliedArg.type t ∈ args → t.Every (std.testAt cx')
  | [], cx, holds => by
      rw [lowerArgList]
      exact ⟨.refl holds, nofun⟩
  | .lifetime name :: rest, cx, holds => by
      simp only [lowerArgList, ends_bind, ends_pure]
      refine (lowerArgList_sound rest holds).mono fun args cx' lowered => ?_
      refine ⟨lowered.1, fun t mem => lowered.2 t ?_⟩
      simpa using mem
  | .type t :: rest, cx, holds => by
      simp only [lowerArgList, ends_bind, ends_pure]
      refine (lowerTy_sound t holds).mono fun ty cx₁ head => ?_
      obtain ⟨first, fine⟩ := head
      refine (lowerArgList_sound rest first.sound).mono fun args cx₂ tail => ?_
      obtain ⟨second, others⟩ := tail
      refine ⟨first.trans second, fun u mem => ?_⟩
      rcases List.mem_cons.1 mem with same | mem
      · cases same
        exact fine.mono second.le
      · exact others u mem

theorem lowerBindings_sound : ∀ (bound : List TypeBinding) {cx : Context}, std.Holds cx →
    Ends AnyFault (lowerBindings std.tree resolve scope bound) cx fun bound cx' =>
      std.Onward cx cx' ∧ ∀ b ∈ bound, b.2.Every (std.testAt cx')
  | [], cx, holds => by
      rw [lowerBindings]
      exact ⟨.refl holds, nofun⟩
  | .mk name t :: rest, cx, holds => by
      simp only [lowerBindings, ends_bind, ends_pure]
      refine (lowerTy_sound t holds).mono fun ty cx₁ head => ?_
      obtain ⟨first, fine⟩ := head
      refine (lowerBindings_sound rest first.sound).mono fun bound cx₂ tail => ?_
      obtain ⟨second, others⟩ := tail
      refine ⟨first.trans second, fun b mem => ?_⟩
      rcases List.mem_cons.1 mem with rfl | mem
      · exact fine.mono second.le
      · exact others b mem

end

end

end Lowering

end TraitEngine
