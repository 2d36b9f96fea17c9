import TraitEngine.Proofs.Application
import TraitEngine.Proofs.Probe
import TraitEngine.Proofs.Resolved.Building
/-!
# Bounds at the top level

A bound that is lowered between requests stands for a trait, or fails, and the declarations alone
decide which (`ItemTree.boundTrait?`): the path has to name a trait, and the arguments on its last
segment have to suit the parameters after the receiver. What the arguments are does not matter,
nor does what was lowered or resolved before.

* Lowering an argument keeps its kind, so a lifetime stays a lifetime and a type stays one, if
  only the error type (`lowerLastArgs_kinds`).
* Applying them looks at their kinds and at which parameters have a default (`apply_failed`).
* The trait is found unless nothing can be resolved at all (`lowerBound_trait`).
-/

namespace TraitEngine

set_option autoImplicit false

open Check

/-! ## What is written -/

def GenericArg.lifetime? : GenericArg → Option String
  | .lifetime name => some name
  | .type _ => none

/-- Arguments, the lifetimes among them by name, for parameters of which it is known whether they
have a default. The lifetimes have to stand in front of the types, every type needs a parameter,
and a parameter without a type needs a default. -/
def argumentsSuit (kinds : List (Option String)) (defaults : List Bool) : Bool :=
  let types := kinds.dropWhile Option.isSome
  types.all Option.isNone && decide (types.length ≤ defaults.length) &&
    (defaults.drop types.length).all id

namespace TypePath

/-- The arguments on the last segment. -/
def writtenArgs (p : TypePath) : List GenericArg :=
  match p.args? with
  | some (.mk args _ _) => args
  | none => []

def suits (p : TypePath) (params : List TypeParam) : Bool :=
  argumentsSuit (p.writtenArgs.map GenericArg.lifetime?) (params.map fun q => q.fallback.isSome)

end TypePath

namespace ItemTree

/-- The trait that a bound stands for while traits may nest up to `limit` deep. -/
def boundTrait? (tree : ItemTree) (limit : Nat) (path : TypePath) : Option TraitDecl := do
  let id ← (tree.resolveTraitPath path).toOption
  let decl ← tree.trait? id
  let (_, others) ← decl.splitReceiver?
  if 0 < limit && path.suits others then some decl else none

end ItemTree

/-! ## Applying arguments -/

/-- Behind the leading lifetimes there are types only, or the arguments are misplaced. -/
theorem AppliedArgs.types_cases (a : AppliedArgs) :
    let behind := (a.args.map AppliedArg.lifetime?).dropWhile Option.isSome
    (∃ types, a.types = .ok types ∧ types.length = behind.length ∧ behind.all Option.isNone) ∨
      ∃ cause, a.types = .error cause ∧ behind.all Option.isNone = false := by
  simp only [types, List.dropWhile_map]
  generalize kept : a.args.dropWhile (Option.isSome ∘ AppliedArg.lifetime?) = rest
  have same : a.args.dropWhile (fun arg => arg.lifetime?.isSome) = rest := kept
  rw [same]
  cases found : rest.findSome? AppliedArg.lifetime? with
  | none =>
      have typed : ∀ arg ∈ rest, arg.lifetime? = Option.none := List.findSome?_eq_none_iff.1 found
      obtain ⟨types, rfl⟩ := exists_types typed
      refine Or.inl ⟨types, ?_, by simp, by simp [AppliedArg.lifetime?]⟩
      simp [List.filterMap_map, Function.comp_def, AppliedArg.type?]
  | some name =>
      obtain ⟨arg, mem, own⟩ := List.exists_of_findSome?_eq_some found
      refine Or.inr ⟨_, rfl, List.all_eq_false.2 ⟨some name, ?_, by simp⟩⟩
      exact List.mem_map.2 ⟨arg, mem, own⟩

namespace Predicate

/-- Enough types are written if the parameters left over have defaults. -/
theorem all_defaults_drop (params : List TraitParam) (n : Nat) :
    ((params.map fun q => q.fallback.isSome).drop n).all id = decide (requiredCount params ≤ n) := by
  rw [← List.map_drop, List.all_map, Bool.eq_iff_iff, List.all_eq_true, decide_eq_true_eq]
  constructor
  · intro defaulted
    by_contra few
    obtain ⟨i, last⟩ : ∃ i, requiredCount params = i + 1 := ⟨requiredCount params - 1, by omega⟩
    obtain ⟨q, own, open_⟩ := (lastRequired_requiredCount params).last i last
    have there : (params.drop n)[i - n]? = some q := by
      rw [List.getElem?_drop, Nat.add_sub_cancel' (by omega), own]
    have some := defaulted q (List.mem_of_getElem? there)
    simp [open_] at some
  · intro enough q mem
    exact fallback_of_required enough q mem

/-- Applying fails exactly if the arguments do not suit the parameters after the receiver. -/
theorem apply_failed {p : Predicate} {self : TraitParam} {others : List TraitParam}
    {first : ArgSlot} (own : p.params = self :: others) (slot : p.args.get? 0 = some first)
    (fine : p.failed = false) (applied : AppliedArgs) :
    ∃ q mismatch, p.apply applied = .ok (q, mismatch) ∧
      q.failed = !argumentsSuit (applied.args.map AppliedArg.lifetime?)
        (others.map fun q => q.fallback.isSome) := by
  rw [apply_of_slot own slot, argumentsSuit]
  obtain ⟨types, written, counted, typed⟩ | ⟨cause, misplaced, mixed⟩ := applied.types_cases
  · simp only [appliedSlots_of_types own slot written, typed, ← counted, all_defaults_drop,
      List.length_map, Bool.true_and]
    by_cases outside :
        (others.length < types.length || types.length < requiredCount others) = true
    · rw [if_pos outside]
      refine ⟨_, _, rfl, ?_⟩
      simp only [Bool.or_eq_true, decide_eq_true_eq] at outside
      simp
      omega
    · rw [if_neg outside]
      refine ⟨_, _, rfl, ?_⟩
      simp only [Bool.or_eq_true, decide_eq_true_eq, not_or, Nat.not_lt] at outside
      simp [fine, outside]
  · have refused : p.appliedSlots applied = .error cause := by
      rw [appliedSlots, misplaced]
      rfl
    rw [refused, mixed]
    exact ⟨_, _, rfl, rfl⟩

theorem ofTrait_params {t : TraitRef} (span : Span) (fine : t.isError = false) :
    (ofTrait t span).params = t.params := by
  obtain ⟨id, own⟩ : ∃ id, t.id = some id := by
    simpa [TraitRef.isError, Option.isSome_iff_exists] using fine
  rw [ofTrait, own]
  cases params : t.params <;> rfl

end Predicate

/-! ## Lowering a bound -/

namespace Lowering

open Predicate

variable {tree : ItemTree} {resolve : Resolver} {cx : Context} (scope : Scope)

theorem lowerArgList_kinds (args : List GenericArg) : ∀ {cx : Context},
    Ends AnyFault (lowerArgList tree resolve scope args) cx fun applied _ =>
      applied.map AppliedArg.lifetime? = args.map GenericArg.lifetime? := by
  induction args with
  | nil =>
      intro cx
      rw [lowerArgList, ends_pure]
      rfl
  | cons arg rest ih =>
      intro cx
      cases arg with
      | lifetime name =>
          simp only [lowerArgList, ends_bind, ends_pure]
          exact ih.mono fun applied _ same => congrArg (some name :: ·) same
      | type t =>
          simp only [lowerArgList, ends_bind, ends_pure]
          refine (ends_any _).mono fun _ _ _ => ?_
          exact ih.mono fun applied _ same => congrArg (none :: ·) same

/-- A lifetime stays a lifetime, and a type stays a type. -/
theorem lowerLastArgs_kinds (bindings : Bool) (span span' : Span) :
    ∀ (segments : List PathSegment) {cx : Context},
      Ends AnyFault (lowerLastArgs tree resolve scope bindings span segments) cx fun applied _ =>
        applied.args.map AppliedArg.lifetime? =
          (TypePath.mk segments span').writtenArgs.map GenericArg.lifetime?
  | [], cx => by
      rw [lowerLastArgs, ends_pure]
      rfl
  | [.mk name none], cx => by
      rw [lowerLastArgs, lowerOptionalArgs, ends_pure]
      rfl
  | [.mk name (some (.mk args bound span₀))], cx => by
      rw [lowerLastArgs, lowerOptionalArgs, lowerArgs, ends_bind]
      refine (lowerArgList_kinds scope args).mono fun applied _ same => ?_
      cases bindings with
      | false => exact same
      | true =>
          simp only [if_true, ends_bind, ends_pure]
          exact (ends_any _).mono fun _ _ _ => same
  | first :: s :: rest, cx => by
      have last : (TypePath.mk (first :: s :: rest) span').writtenArgs =
          (TypePath.mk (s :: rest) span').writtenArgs := by
        simp [TypePath.writtenArgs, TypePath.args?, TypePath.last?, TypePath.segments]
      rw [lowerLastArgs, last]
      exact lowerLastArgs_kinds bindings span span' (s :: rest)

/-- A predicate as it comes from its trait fails on arguments that do not suit. -/
theorem finishBound_failed (id : DefId) {o : Origin} {self : TraitParam}
    {others : List TraitParam} (own : o.predicate.params = self :: others)
    (applied : AppliedArgs) :
    Ends AnyFault (finishBound tree id o.predicate applied) cx fun p _ =>
      p.failed = !argumentsSuit (applied.args.map AppliedArg.lifetime?)
        (others.map fun q => q.fallback.isSome) := by
  obtain ⟨fine, span, args⟩ := Origin.fresh own
  rw [finishBound]
  split
  · have slot : o.predicate.args.get? 0 = some self.unbound := by
      rw [args]
      rfl
    obtain ⟨q, mismatch, applies, failed⟩ := apply_failed own slot fine applied
    rw [applies]
    simp only [ends_bind, ends_liftM_ok, ends_pure]
    exact (ends_any _).mono fun _ _ _ => failed
  · rename_i bare
    simp only [Bool.or_eq_true, decide_eq_true_eq, not_or, Nat.not_lt, own, List.length_cons] at bare
    obtain rfl : others = [] := List.length_eq_zero_iff.1 (by omega)
    have none : applied.args = [] := by
      have empty : applied.isEmpty = true := by simpa using bare.2
      simp only [AppliedArgs.isEmpty, Bool.and_eq_true, List.isEmpty_iff] at empty
      exact empty.1
    simp only [ends_bind, ends_pure]
    refine (ends_any _).mono fun _ _ _ => ?_
    rw [fine, none]
    rfl

/-- A bound on a trait that is not on the stack fails if the trait is refused, or if the arguments
do not suit its parameters. -/
theorem lowerBound_failed {path : TypePath} {id : DefId}
    (named : tree.resolveTraitPath path = .ok id) (notOpen : cx.isResolving id = false)
    {receiver : TypeParam} {others : List TypeParam} {refused : Bool}
    (answers : Ends AnyFault (resolve id path.span) cx fun t _ => t.isError = refused ∧
      (t.isError = false → List.Forall₂ TraitParam.Resolves (receiver :: others) t.params))
    (isSuper : Bool) :
    Ends AnyFault (lowerBound tree resolve scope isSuper path) cx fun p _ =>
      p.failed = (refused || !path.suits others) := by
  obtain ⟨segments, span⟩ := path
  simp only [lowerBound, named, boundHead?, ends_bind, ends_get, notOpen, Bool.false_eq_true,
    if_false]
  refine answers.mono fun t cx₁ answer => ?_
  obtain ⟨rfl, resolves⟩ := answer
  cases isError : t.isError with
  | true =>
      simp only [if_true, ends_pure]
      rfl
  | false =>
      obtain ⟨self, rest, -, each, params⟩ := List.forall₂_cons_left_iff.1 (resolves isError)
      have own : (Origin.ofTrait t span).predicate.params = self :: rest := by
        rw [← params]
        exact ofTrait_params span isError
      simp only [Bool.false_eq_true, if_false, ends_pure, ends_bind, Bool.false_or]
      refine (lowerLastArgs_kinds scope true span span segments).mono fun applied cx₂ kinds => ?_
      refine (finishBound_failed id own applied).mono fun p _ failed => ?_
      rw [failed, kinds, TypePath.suits, TraitParam.Resolves.defaults each]

end Lowering

/-! ## Between requests -/

namespace ItemTree

variable {tree : ItemTree} {cx : Context} {handed : List Problem}

theorem boundTrait?_eq {path : TypePath} {id : DefId} {decl : TraitDecl} {receiver : TypeParam}
    {others : List TypeParam} (named : tree.resolveTraitPath path = .ok id)
    (declared : tree.trait? id = some decl) (split : decl.splitReceiver? = some (receiver, others))
    (limit : Nat) :
    tree.boundTrait? limit path = if 0 < limit && path.suits others then some decl else none := by
  simp [boundTrait?, named, declared, split, Except.toOption]

theorem trait?_of_boundTrait? {limit : Nat} {path : TypePath} {decl : TraitDecl}
    (known : tree.boundTrait? limit path = some decl) : ∃ id, tree.trait? id = some decl := by
  simp only [boundTrait?, Option.bind_eq_bind, Option.bind_eq_some_iff] at known
  obtain ⟨id, -, found, declared, _, -, accepted⟩ := known
  obtain rfl : found = decl := by simpa using (Option.ite_none_right_eq_some.1 accepted).2
  exact ⟨id, declared⟩

section

variable (numbered : tree.Numbered) (idle : tree.Idle cx)
  (mirrored : (tree.mirroring handed).Holds cx)

include numbered idle mirrored

/-- A declared trait is refused only if nothing can be resolved at all. -/
theorem resolveDef_answers {id : DefId} {decl : TraitDecl} {receiver : TypeParam}
    {others : List TypeParam} (declared : tree.trait? id = some decl)
    (split : decl.splitReceiver? = some (receiver, others)) (span : Span) :
    Ends AnyFault (tree.resolveDef id span) cx fun t _ =>
      t.isError = decide (cx.limit = 0) ∧
      (t.isError = false → List.Forall₂ TraitParam.Resolves (receiver :: others) t.params) := by
  by_cases full : cx.limit = 0
  · have notCached : id ∉ cx.cache.keys := by
      intro cached
      have room := idle.coherent.nested.limit_pos cached
      omega
    rw [resolveDef, Lowering.ends_resolveWithin_full span declared (idle.notOpen id) notCached
      (by omega)]
    simp [full, TraitRef.isError, TraitRef.error]
  · have room : 0 < cx.limit := by omega
    have serves := Lowering.resolveWithin_lasting tree.lasting_mirrored handed
      (tree.items.size + 1) id span cx (idle.ready numbered) (admits_of_idle idle.stack id)
    have both := (resolveDef_found numbered idle room declared span).and serves
    refine Ends.mono_faults ?_ fun f (_ : tree.Faults f) => trivial
    refine both.mono fun t cx' ended => ?_
    obtain ⟨⟨-, fine, found⟩, ⟨tour, -⟩⟩ := ended
    refine ⟨by simp [fine, full], fun _ => ?_⟩
    obtain ⟨decl', receiver', others', declared', split', mirrors⟩ :=
      tour.kept mirrored (id, t) (Table.mem_entries_of_get? found)
    obtain rfl : decl = decl' := Option.some.inj (declared.symm.trans declared')
    obtain ⟨rfl, rfl⟩ : receiver = receiver' ∧ others = others' := by
      simpa [split] using split'
    exact mirrors.params

/-- Which bounds fail is up to the declarations. -/
theorem lowerBound_fails (receivers : tree.HasReceivers) (scope : Scope) (isSuper : Bool)
    (path : TypePath) :
    Ends tree.Faults (tree.lowerBound scope isSuper path) cx fun p cx' =>
      tree.Tour (tree.mirroring handed) cx cx' ∧ tree.LoweredBound cx' isSuper path p ∧
      p.failed = (tree.boundTrait? cx.limit path).isNone := by
  have serves := Lowering.resolveWithin_lasting tree.lasting_mirrored handed (tree.items.size + 1)
  have lowers := Lowering.lowerBound_tours scope serves (idle.ready numbered) isSuper path
    (idle.admitsAll _) (fun _ => idle.atSuperBound path) (.refl cx)
  cases named : tree.resolveTraitPath path with
  | error problem =>
      refine lowers.mono fun p cx' ended => ?_
      obtain ⟨tour, lowered⟩ := ended
      have failed : p.failed = true := by
        by_contra fine
        obtain ⟨id, named', -⟩ := lowered.lowered (by simpa using fine)
        rw [named] at named'
        cases named'
      exact ⟨tour, lowered, by simp [boundTrait?, named, failed, Except.toOption]⟩
  | ok id =>
      obtain ⟨decl, declared⟩ := trait?_of_resolveTraitPath named
      obtain ⟨⟨receiver, others⟩, split⟩ := Option.isSome_iff_exists.1 (receivers.split declared)
      have notOpen : cx.isResolving id = false := by
        by_contra open_
        exact idle.notOpen id (cx.isResolving_iff.1 (by simpa using open_))
      have fails := Lowering.lowerBound_failed scope named notOpen
        (resolveDef_answers numbered idle mirrored declared split path.span) isSuper
      refine (lowers.and fails).mono fun p cx' ended => ?_
      obtain ⟨⟨tour, lowered⟩, failed⟩ := ended
      refine ⟨tour, lowered, ?_⟩
      rw [failed, boundTrait?_eq named declared split]
      by_cases room : cx.limit = 0
      · simp [room]
      · have some : 0 < cx.limit := by omega
        cases path.suits others <;> simp [room, some]

/-- A bound that does not fail stands for a cached trait that mirrors its declaration. -/
theorem lowerBound_trait (receivers : tree.HasReceivers) (scope : Scope) (isSuper : Bool)
    (path : TypePath) :
    Ends tree.Faults (tree.lowerBound scope isSuper path) cx fun p cx' =>
      tree.Tour (tree.mirroring handed) cx cx' ∧
      Option.Rel (fun decl t => ∃ receiver others,
          tree.Mirrors (handed ++ cx'.problems) t decl receiver others)
        (tree.boundTrait? cx.limit path) (p.getChecked? cx') := by
  refine (lowerBound_fails numbered idle mirrored receivers scope isSuper path).mono
    fun p cx' ended => ?_
  obtain ⟨tour, lowered, failed⟩ := ended
  refine ⟨tour, ?_⟩
  cases known : tree.boundTrait? cx.limit path with
  | none =>
      rw [known] at failed
      rw [Predicate.getChecked?, failed]
      exact .none
  | some decl =>
      have fine : p.failed = false := by simp [failed, known]
      obtain ⟨id, named, own, -, cached | ⟨waits, -⟩⟩ := lowered.lowered fine
      · obtain ⟨t, found⟩ := cx'.exists_trait? cached
        obtain ⟨decl', receiver, others, declared, split, mirrors⟩ :=
          tour.kept mirrored (id, t) (Table.mem_entries_of_get? found)
        obtain rfl : decl' = decl := by
          rw [boundTrait?_eq named declared split] at known
          simpa using (Option.ite_none_right_eq_some.1 known).2
        have checked : p.getChecked? cx' = some t := by
          simp [Predicate.getChecked?, Predicate.get?, fine, own, found]
        rw [checked]
        exact .some ⟨receiver, others, mirrors⟩
      · exact absurd waits ((idle.trip tour.trip).notOpen id)

end

end ItemTree

end TraitEngine
