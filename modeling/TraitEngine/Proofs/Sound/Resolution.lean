import TraitEngine.Proofs.Resolution
import TraitEngine.Proofs.Sound.Lowering
/-!
# Resolving a trait gives a sound reference

What holds of lowering holds of the parameters, items and default bodies of a trait, and
so of its reference: all types in it pass, and none of its super-traits has failed. An
item without a name and a trait without a receiver would be errors that nobody reports;
a regular standard has neither unless it excuses errors.
-/

namespace TraitEngine

set_option autoImplicit false

open Check

namespace Lowering

variable {std : Standard} {resolve : Resolver} {cx cx₁ : Context}

section

variable (regular : std.Regular) (answers : std.Answering resolve)

include regular answers

/-! ## Bounds -/

/-- Bounds that failed are left out, so all that come out have not, and bound to their type
they are sound if it passes. -/
theorem lowerBounds_sound (scope : Scope) (isSuper : Bool) (self : Ty) :
    ∀ (paths : List TypePath) {cx : Context}, std.Holds cx → self.Every (std.testAt cx) →
      Ends AnyFault (lowerBounds std.tree resolve scope isSuper self paths) cx fun ps cx' =>
        std.Onward cx cx' ∧ ∀ p ∈ ps, p.failed = false ∧ p.Sound std.tree (std.testAt cx')
  | [], cx, holds, _ => ⟨.refl holds, nofun⟩
  | path :: rest, cx, holds, fine => by
      rw [lowerBounds, ends_bind]
      refine (lowerBound_sound regular answers scope isSuper path holds).mono fun p cx₁ head => ?_
      obtain ⟨first, bound⟩ := head
      rw [ends_bind]
      refine (lowerBounds_sound scope isSuper self rest first.sound (fine.mono first.le)).mono
        fun ps cx₂ tail => ?_
      obtain ⟨second, others⟩ := tail
      rw [ends_pure]
      refine ⟨first.trans second, fun q mem => ?_⟩
      split at mem
      · exact others q mem
      · rename_i unfailed
        rcases List.mem_cons.1 mem with rfl | mem
        · have onward := first.trans second
          exact ⟨by simpa using unfailed, Predicate.bindReceiver_sound (bound.sound.mono second.le)
            (fine.mono onward.le)⟩
        · exact others q mem

/-- What is recorded as the bounds of a parameter is sound. -/
theorem lowerParamBounds_sound (scope : Scope) (p : TypeParam) (onward : std.Onward cx cx₁) :
    Ends AnyFault (lowerParamBounds std.tree resolve scope p) cx₁ fun _ cx₂ =>
      std.Onward cx cx₂ := by
  rw [lowerParamBounds, ends_bind]
  refine (lowerBounds_sound regular answers scope false (.param p.toParam) _ onward.sound
    trivial).mono fun ps cx₂ lowered => ?_
  obtain ⟨later, sound⟩ := lowered
  rw [ends_modify]
  exact (onward.trans later).addBounds p.node fun p mem => (sound p mem).2

/-- All parameters get their types before any of their bounds is lowered: a bound may name
each of them. -/
theorem lowerGenerics_sound (scope : Scope) (generics : List GenericParam)
    (holds : std.Holds cx) :
    Ends AnyFault (lowerGenerics std.tree resolve scope generics) cx fun _ cx' =>
      std.Onward cx cx' := by
  simp only [lowerGenerics, ends_bind, ends_pure]
  refine (ends_forIn _ _ (Standard.Onward.refl holds) fun p _ cx₁ onward => ?_).mono
    fun _ _ onward => ?_
  · simp only [ends_bind, ends_modify, ends_pure]
    exact ⟨trivial, onward.insertType p.node fun _ => trivial⟩
  · refine ends_forIn _ _ onward fun p _ cx₁ onward => ?_
    rw [ends_bind]
    exact (lowerParamBounds_sound regular answers _ p onward).mono fun _ _ onward => ⟨rfl, onward⟩

/-! ## Items -/

omit regular answers in
/-- The type of a receiver is the self type or a reference to it. -/
theorem receiverTy_every {test : NodeTest} {self : Ty} (fine : self.Every test) (s : SelfParam) :
    (receiverTy self s).Every test := by
  cases s <;> exact fine

/-- The type of a function passes if the self type does, which its receiver is made from. -/
theorem lowerSignature_sound (scope : Scope) (self : Ty) (name : String) (decl : FnDecl)
    (holds : std.Holds cx) :
    Ends AnyFault (lowerSignature std.tree resolve scope self name decl) cx fun ty cx' =>
      std.Onward cx cx' ∧ (self.Every (std.testAt cx) → ty.Every (std.testAt cx')) := by
  rw [lowerSignature, ends_bind]
  refine (lowerGenerics_sound regular answers scope decl.generics holds).mono
    fun out cx₁ first => ?_
  rw [ends_bind]
  refine (lowerTys_sound regular answers out.1 _ first.sound).mono fun params cx₂ lowered => ?_
  obtain ⟨second, params_fine⟩ := lowered
  have early := first.trans second
  have finish {ret : Ty} {cx₃ : Context} (third : std.Onward cx₂ cx₃)
      (ret_fine : ret.Every (std.testAt cx₃)) :
      std.Onward cx cx₃ ∧ (self.Every (std.testAt cx) →
        (Ty.fn name (decl.self.map (receiverTy self)) params ret out.2).Every (std.testAt cx₃)) := by
    refine ⟨early.trans third, fun fine => ⟨?_,
      Ty.everyList_iff.2 fun t mem => (params_fine t mem).mono third.le, ret_fine⟩⟩
    rw [Ty.everyOption_iff]
    intro t mem
    obtain ⟨s, -, rfl⟩ := Option.map_eq_some_iff.1 mem
    exact receiverTy_every (fine.mono (early.trans third).le) s
  cases written : decl.ret with
  | none => exact finish (.refl second.sound) (Ty.everyList_iff.2 fun _ mem =>
      absurd mem List.not_mem_nil)
  | some ret =>
      simp only [ends_bind, ends_pure]
      exact (lowerTy_sound regular answers out.1 ret second.sound).mono fun ty cx₃ lowered =>
        finish lowered.1 lowered.2

/-- The type of an item passes if the self type does. That of an associated type is a
placeholder, whatever its bounds and its default are. -/
theorem lowerItemKind_sound (scope : Scope) (id : DefId) (self : Ty) (name : String)
    (kind : TraitItemKind) (holds : std.Holds cx) :
    Ends AnyFault (lowerItemKind std.tree resolve scope id self name kind) cx fun out cx' =>
      std.Onward cx cx' ∧ (self.Every (std.testAt cx) → out.2.Every (std.testAt cx')) := by
  cases kind with
  | type bounds fallback =>
      rw [lowerItemKind, ends_bind]
      refine (ends_forIn _ _ (Standard.Onward.refl holds) fun path _ cx₁ onward => ?_).mono
        fun _ cx₁ onward => ?_
      · rw [ends_bind]
        exact (lowerBound_sound regular answers scope false path onward.sound).mono
          fun _ _ lowered => ⟨rfl, onward.trans lowered.1⟩
      · cases fallback with
        | none => exact ⟨onward, fun _ => trivial⟩
        | some t =>
            simp only [ends_bind]
            exact (lowerTy_sound regular answers scope t onward.sound).mono fun _ _ lowered =>
              ⟨onward.trans lowered.1, fun _ => trivial⟩
  | const t body =>
      simp only [lowerItemKind, ends_bind, ends_pure]
      exact (lowerTy_sound regular answers scope t holds).mono fun _ _ lowered =>
        ⟨lowered.1, fun _ => lowered.2⟩
  | fn decl =>
      simp only [lowerItemKind, ends_bind, ends_pure]
      exact lowerSignature_sound regular answers scope self name decl holds

/-- An item is sound if it has a name and its trait has parameters, and if the self type
and the parameters that it is lowered with pass. -/
theorem lowerItem_sound (scope : Scope) (id : DefId) (self : Ty) (params : List TraitParam)
    (item : TraitItem) (holds : std.Holds cx) (trust : std.trusted → self.Every (std.testAt cx)) :
    Ends AnyFault (lowerItem std.tree resolve scope id self params item) cx fun out cx' =>
      std.Onward cx cx' ∧ (self.Every (std.testAt cx) → DefaultsPass (std.testAt cx) params →
        ((item.name.isEmpty || params.isEmpty) = true → (std.testAt cx).error) →
        out.Sound (std.testAt cx')) := by
  rw [lowerItem]
  split
  · rename_i bare
    exact ⟨.refl holds, fun _ _ err => ItemRef.error_sound _ _ (err bare)⟩
  · rw [ends_bind]
    refine (lowerItemKind_sound regular answers scope id self item.name item.kind holds).mono
      fun out cx₁ lowered => ?_
    obtain ⟨first, every⟩ := lowered
    simp only [ends_bind, ends_modify, ends_pure]
    exact ⟨first.insertType item.node fun trusted => every (trust trusted), fun fine defaults _ =>
      ⟨every fine, fine.mono first.le, defaults.mono first.le⟩⟩

/-- The second item of a name is reported and left out, and the others are sound one by one.
-/
theorem lowerItems_sound (scope : Scope) (decl : TraitDecl) (self : Ty) {params : List TraitParam} :
    ∀ (items : List TraitItem) (seen : List TraitItem) {cx : Context}, std.Holds cx →
      self.Every (std.testAt cx) → DefaultsPass (std.testAt cx) params →
      (∀ item ∈ items, (item.name.isEmpty || params.isEmpty) = true → (std.testAt cx).error) →
      Ends AnyFault (lowerItems std.tree resolve scope decl self params seen items) cx
        fun out cx' => std.Onward cx cx' ∧ ∀ item ∈ out, item.Sound (std.testAt cx')
  | [], _, cx, holds, _, _, _ => ⟨.refl holds, nofun⟩
  | item :: rest, seen, cx, holds, fine, defaults, named => by
      have others (seen : List TraitItem) {cx₁ : Context} (first : std.Onward cx cx₁) :=
        lowerItems_sound scope decl self rest seen first.sound (fine.mono first.le)
          (defaults.mono first.le) fun item mem bare =>
            first.le.error (named item (List.mem_cons_of_mem _ mem) bare)
      rw [lowerItems]
      split
      · simp only [ends_bind, ends_report]
        have first := (Standard.Onward.refl holds).report
          (.duplicateItem decl.name item.name ‹TraitItem›.span item.span)
        exact (others seen first).mono fun _ _ lowered => ⟨first.trans lowered.1, lowered.2⟩
      · simp only [ends_bind, ends_pure]
        refine (lowerItem_sound regular answers scope decl.id self params item holds fun _ => fine).mono
          fun out cx₁ head => ?_
        obtain ⟨first, sound⟩ := head
        refine (others (item :: seen) first).mono fun outs cx₂ tail => ?_
        obtain ⟨second, sounds⟩ := tail
        refine ⟨first.trans second, fun o mem => ?_⟩
        rcases List.mem_cons.1 mem with rfl | mem
        · exact (sound fine defaults (named item List.mem_cons_self)).mono second.le
        · exact sounds o mem

/-! ## Building -/

/-- Every declared parameter is kept, in its place, and the written defaults pass. -/
theorem lowerFallbacks_sound (scope : Scope) :
    ∀ (ps : List TypeParam) {cx : Context}, std.Holds cx →
      Ends AnyFault (lowerFallbacks std.tree resolve scope ps) cx fun params cx' =>
        std.Onward cx cx' ∧ params.length = ps.length ∧ DefaultsPass (std.testAt cx') params
  | [], cx, holds => ⟨.refl holds, rfl, nofun⟩
  | p :: rest, cx, holds => by
      have others {cx₁ : Context} (first : std.Onward cx cx₁) (fallback : Option Ty)
          (fine : ∀ t, fallback = some t → t.Every (std.testAt cx₁)) :
          Ends AnyFault (lowerFallbacks std.tree resolve scope rest) cx₁ fun params cx₂ =>
            std.Onward cx cx₂ ∧
              ({ TraitParam.ofDecl p with fallback } :: params).length = (p :: rest).length ∧
              DefaultsPass (std.testAt cx₂) ({ TraitParam.ofDecl p with fallback } :: params) := by
        refine (lowerFallbacks_sound scope rest first.sound).mono fun params cx₂ lowered => ?_
        obtain ⟨second, counted, defaults⟩ := lowered
        refine ⟨first.trans second, congrArg Nat.succ counted, fun q mem t own => ?_⟩
        rcases List.mem_cons.1 mem with rfl | mem
        · exact (fine t own).mono second.le
        · exact defaults q mem t own
      rw [lowerFallbacks]
      cases written : p.fallback with
      | none =>
          simp only [ends_bind, ends_pure]
          exact others (.refl holds) none fun _ same => by cases same
      | some t =>
          simp only [ends_bind, ends_map, ends_pure]
          refine (lowerTy_sound regular answers scope t holds).mono fun ty cx₁ lowered => ?_
          refine others lowered.1 (some ty) fun u same => ?_
          cases same
          exact lowered.2

/-- The first stage gives sound parameters, and super-traits of which none has failed. Among
the recorded bounds of the receiver is the trait itself, whose predicate is made from these
parameters. -/
theorem buildSupers_sound (scope : Scope) {decl : TraitDecl}
    (declared : std.tree.trait? decl.id = some decl) {receiver : TypeParam} {others : List TypeParam}
    (split : decl.splitReceiver? = some (receiver, others)) (holds : std.Holds cx) :
    Ends AnyFault (buildSupers std.tree resolve scope decl receiver (receiver :: others)) cx
      fun out cx' => std.Onward cx cx' ∧ ParamsSound std.tree (std.testAt cx') decl.id out.1 ∧
        ∀ p ∈ out.2, p.failed = false ∧ p.Sound std.tree (std.testAt cx') := by
  simp only [buildSupers, ends_bind]
  refine (ends_forIn _ _ (Standard.Onward.refl holds) fun p _ cx₁ onward => ?_).mono
    fun _ cx₁ first => ?_
  · simp only [ends_bind, ends_modify, ends_pure]
    exact ⟨trivial, onward.insertType p.node fun _ => trivial⟩
  refine (lowerFallbacks_sound regular answers scope _ first.sound).mono fun params cx₂ lowered => ?_
  obtain ⟨second, counted, defaults⟩ := lowered
  have known : ParamsSound std.tree (std.testAt cx₂) decl.id params :=
    ⟨⟨decl, declared, counted.trans (TraitDecl.length_of_split split)⟩, defaults⟩
  have early := (first.trans second).setPending known
  rw [ends_modify]
  refine (lowerBounds_sound regular answers scope true (.param receiver.toParam) _ early.sound
    trivial).mono fun supers cx₃ lowered => ?_
  obtain ⟨third, sound⟩ := lowered
  have known₃ : ParamsSound std.tree (std.testAt cx₃) decl.id params :=
    ⟨known.counted, defaults.mono third.le⟩
  simp only [ends_modify, ends_pure]
  refine ⟨(early.trans third).addBounds receiver.node fun p mem => ?_, known₃, sound⟩
  rcases Bounds.mem_addAll_iff.1 mem with mem | mem
  · exact absurd mem List.not_mem_nil
  · rcases List.mem_cons.1 mem with rfl | mem
    · obtain ⟨decl', declared', counted'⟩ := known₃.counted
      cases declared.symm.trans declared'
      exact Predicate.bindReceiver_sound (Predicate.ofParams_sound declared counted' known₃.defaults
        fun none => regular.typeParams declared none cx₃) trivial
    · exact (sound p mem).2

/-- The second stage gives sound items. Those without a name or of a trait without parameters
are errors; a tidy tree has none. -/
theorem buildItems_sound (scope : Scope) {decl : TraitDecl}
    (declared : std.tree.trait? decl.id = some decl) (receiver : TypeParam)
    {params : List TraitParam} (holds : std.Holds cx)
    (known : ParamsSound std.tree (std.testAt cx) decl.id params) :
    Ends AnyFault (buildItems std.tree resolve scope decl receiver params) cx fun items cx' =>
      std.Onward cx cx' ∧ ∀ item ∈ items, item.Sound (std.testAt cx') := by
  simp only [buildItems, ends_bind]
  refine (ends_forIn _ _ (Standard.Onward.refl holds) fun p _ cx₁ onward => ?_).mono
    fun _ cx₁ first => ?_
  · split
    · exact ⟨rfl, onward⟩
    · rw [ends_bind]
      exact (lowerParamBounds_sound regular answers scope p onward).mono fun _ _ onward =>
        ⟨rfl, onward⟩
  refine (lowerItems_sound regular answers scope decl (.param receiver.toParam) decl.items []
    first.sound trivial (known.defaults.mono first.le) fun item mem bare => ?_).mono
    fun _ _ lowered => ⟨first.trans lowered.1, lowered.2⟩
  obtain ⟨decl', declared', counted⟩ := known.counted
  cases declared.symm.trans declared'
  rcases regular.tidy with excused | tidy
  · exact Or.inl excused
  · have named := tidy.2.named declared item mem
    have none : decl.typeParams = [] := by
      rw [Bool.or_eq_true, String.isEmpty_iff, or_iff_right named, List.isEmpty_iff] at bare
      rw [← List.length_eq_zero_iff, ← counted, bare]
      rfl
    exact regular.typeParams declared none cx₁

/-- Both stages together: a trait without a receiver ends in a fault, and any other one has a
sound reference. -/
theorem buildTrait_sound {decl : TraitDecl} (declared : std.tree.trait? decl.id = some decl)
    (holds : std.Holds cx) :
    Ends AnyFault (buildTrait std.tree resolve decl) cx fun t cx' =>
      std.Onward cx cx' ∧ t.Sound std.tree (std.testAt cx') decl.id := by
  simp only [buildTrait]
  split
  · rename_i receiver others split
    simp only [ends_bind]
    refine (buildSupers_sound regular answers _ declared split holds).mono fun out cx₁ built => ?_
    obtain ⟨first, params, supers⟩ := built
    have entered := first.enterItems decl.id
    have le : (std.testAt cx₁).Le (std.testAt (cx₁.enterItems decl.id)) :=
      ((Standard.Onward.refl first.sound).enterItems decl.id).le
    rw [ends_modify]
    refine (buildItems_sound regular answers _ declared receiver entered.sound
      ⟨params.counted, params.defaults.mono le⟩).mono fun items cx₂ built => ?_
    obtain ⟨second, items⟩ := built
    rw [ends_pure]
    refine ⟨entered.trans second, rfl, ⟨params.counted, (params.defaults.mono le).mono second.le⟩,
      items, fun p mem => ?_⟩
    exact (supers p mem).imp_right fun sound => (sound.mono le).mono second.le
  · exact trivial

/-! ## The checks that waited -/

/-- What a body uses is lowered for what it reports. -/
theorem checkUse_sound (scope : Scope) (use : BodyUse) (onward : std.Onward cx cx₁) :
    Ends AnyFault (checkUse std.tree resolve scope use) cx₁ fun _ cx₂ => std.Onward cx cx₂ := by
  cases use with
  | bound path =>
      simp only [checkUse, ends_bind, ends_pure]
      exact (lowerBound_sound regular answers scope false path onward.sound).mono
        fun _ _ lowered => onward.trans lowered.1
  | item path name =>
      simp only [checkUse, ends_bind, ends_get]
      refine (lowerBound_sound regular answers scope false path onward.sound).mono
        fun p cx₂ lowered => ?_
      have onward := onward.trans lowered.1
      split
      · exact onward.report _
      · exact onward

/-- From one sound context to the next, body by body. -/
theorem checkBodies_sound (scope : Scope) (decl : TraitDecl) (onward : std.Onward cx cx₁) :
    Ends AnyFault (checkBodies std.tree resolve scope decl) cx₁ fun _ cx₂ =>
      std.Onward cx cx₂ := by
  simp only [checkBodies, ends_bind, ends_pure]
  refine ends_forIn _ _ onward fun item _ cx₂ onward => ?_
  split
  · simp only [ends_bind, ends_pure]
    refine (ends_forIn _ _ onward fun use _ cx₃ onward => ?_).mono fun _ _ onward =>
      ⟨trivial, onward⟩
    rw [ends_bind]
    exact (checkUse_sound regular answers _ use onward).mono fun _ _ onward => ⟨rfl, onward⟩
  · exact ⟨rfl, onward⟩

/-- The checks that waited report, and the bodies are lowered after them. -/
theorem finishTrait_sound (decl : TraitDecl) (t : TraitRef) (onward : std.Onward cx cx₁) :
    Ends AnyFault (finishTrait std.tree resolve decl t) cx₁ fun _ cx₂ => std.Onward cx cx₂ := by
  have taken : std.Onward cx (cx₁.takeDeferred decl.id).2 := onward.of_eq rfl rfl rfl rfl rfl rfl
  simp only [finishTrait, ends_bind, ends_modifyGet]
  refine (ends_forIn _ _ taken fun span _ cx₂ onward => ?_).mono fun _ cx₂ onward => ?_
  · simp only [ends_bind, ends_modifyGet, ends_pure]
    exact ⟨trivial, onward.checkObjectSafety t true span⟩
  · refine (checkBodies_sound regular answers _ decl onward).mono fun _ cx₃ onward => ?_
    rw [ends_modify]
    exact onward.of_eq rfl rfl rfl rfl rfl rfl

/-- A trait that is resolved anew is in the cache with a sound reference, and that is the one
returned. -/
theorem resolveNew_sound {id : DefId} {decl : TraitDecl}
    (declared : std.tree.trait? id = some decl) (holds : std.Holds cx) :
    Ends AnyFault (resolveNew std.tree resolve id decl) cx fun t cx' =>
      std.Onward cx cx' ∧ t.Sound std.tree (std.testAt cx') id := by
  obtain rfl := regular.numbered id decl declared
  have begun := (Standard.Onward.refl holds).beginResolving declared
  simp only [resolveNew, ends_bind, ends_modify]
  refine (buildTrait_sound regular answers declared begun.sound).mono fun t cx₁ built => ?_
  obtain ⟨second, sound⟩ := built
  have stored := (begun.trans second).insertTrait sound
  refine (finishTrait_sound regular answers decl t (.refl stored.sound)).mono fun _ cx₂ third => ?_
  have cached : decl.id ∈ cx₂.cache.keys := third.cache (Table.mem_keys_insert.2 (Or.inl rfl))
  obtain ⟨t, found⟩ := cx₂.exists_trait? cached
  rw [ends_get, ends_pure, found, Option.getD_some]
  exact ⟨stored.trans third, third.sound.trait? found⟩

end

/-! ## The recursion -/

/-- However deep requests nest, each is answered with a sound reference, or with the error
reference for a trait that is not declared, is on the stack or is reported. -/
theorem resolveWithin_answering (regular : std.Regular) (depth : Nat) :
    std.Answering (resolveWithin std.tree depth) := by
  induction depth with
  | zero => exact fun _ _ _ _ => trivial
  | succ depth ih =>
      intro id span cx holds
      have known {t : TraitRef} {cx' : Context} (onward : std.Onward cx cx')
          (sound : t.Sound std.tree (std.testAt cx') id) : std.Answer cx cx' id t := by
        refine ⟨onward, fun _ => sound, fun isError => ?_⟩
        simp [TraitRef.isError, sound.own] at isError
      have error {cx' : Context} (onward : std.Onward cx cx')
          (cause : (std.testAt cx').error ∨ std.tree.trait? id = none ∨ id ∈ cx.stack.keys) :
          std.Answer cx cx' id .error :=
        ⟨onward, fun fine => (by cases fine), fun _ => cause⟩
      refine ends_resolveWithin span (fun t found => known (.refl holds) (holds.trait? found))
        (fun none => error (.refl holds) (Or.inr (Or.inl none)))
        (fun waits => error (.refl holds) (Or.inr (Or.inr waits))) (fun name => ?_)
        fun decl declared _ _ _ => ?_
      · exact error ((Standard.Onward.refl holds).report _) (Or.inl (std.testAt_report cx _))
      · exact (resolveNew_sound regular ih declared holds).mono fun t cx' resolved =>
          known resolved.1 resolved.2

end Lowering

end TraitEngine
