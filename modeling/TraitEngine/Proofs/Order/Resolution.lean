import TraitEngine.Proofs.Order.Items
/-!
# A trait built in two runs

Both runs build the same reference, cache it, and check the same default bodies. No
check was ever deferred: of two traits that need each other one would have to wait.
-/

namespace TraitEngine

set_option autoImplicit false

open Relation Check ItemTree

namespace Comparison

variable {cmp : Comparison} {a b : Context}

/-- What both runs know of the reference before it is cached. -/
structure Rebuilt (cmp : Comparison) (t : TraitRef) (cx : Context) : Prop where
  own : t.id = some cmp.id
  supers : ∀ p ∈ t.supers, p.Cached cx
  sees : cmp.Sees ⟨t.params.map TraitParam.param⟩

/-- The busy traits mention the trait, so it is none of them. -/
theorem not_busy (cmp : Comparison) : cmp.id ∉ cmp.busy := cmp.layered.not_above cmp.above

/-- A predicate over a cached trait reads the same reference in both runs. -/
theorem getChecked?_eq {p : Predicate} (cached : p.Cached b) (twin : cmp.Twin a b) :
    p.getChecked? a = p.getChecked? b := by
  have same : p.get? a = p.get? b := by
    cases own : p.trait with
    | none => simp [Predicate.get?, own]
    | some x => simpa [Predicate.get?, own] using twin.trait?_eq cmp.layered cmp.above (cached x own)
  rw [Predicate.getChecked?, same, Predicate.getChecked?]

/-- Both runs enter the second stage of the trait. -/
theorem enterItems_alike (twin : cmp.Twin a b) :
    Lockstep cmp.Twin (modify (·.enterItems cmp.id)) (modify (·.enterItems cmp.id)) a b Whatever := by
  refine lockstep_modify (twin.enterItems cmp.id) ?_ trivial
  obtain ⟨stack, same⟩ := b.enterItems_eq cmp.id
  rw [same]
  exact List.Subset.refl _

/-- Both runs cache the reference that they have built. -/
theorem insertTrait_alike {t : TraitRef} (rebuilt : cmp.Rebuilt t b) (twin : cmp.Twin a b) :
    Lockstep cmp.Twin (modify (·.insertTrait cmp.id t)) (modify (·.insertTrait cmp.id t)) a b
      fun _ b' => cmp.id ∈ b'.cache.keys :=
  lockstep_modify (twin.insertTrait rebuilt.own rebuilt.supers cmp.not_busy)
    (fun _ mem => Table.mem_keys_insert.2 (Or.inr mem)) (Table.mem_keys_insert.2 (Or.inl rfl))

end Comparison

namespace Lowering

open Comparison

variable {cmp : Comparison} {a b : Context} {scope : Scope} {decl : TraitDecl}
  (declared : cmp.tree.trait? cmp.id = some decl)

include declared

/-- A declared trait may ask for all that it mentions. -/
theorem asks_mentions : cmp.Asks decl.mentions := fun _ named => ⟨decl, declared, named⟩

/-- A trait owns the nodes of its parameters. -/
theorem owns_param {p : TypeParam} (mem : p ∈ decl.typeParams) : cmp.tree.Owns cmp.id p.node :=
  ⟨decl, declared, decl.node_mem_nodes mem⟩

/-- A trait owns the nodes of its items and of their parameters. -/
theorem owns_item {item : TraitItem} (mem : item ∈ decl.items) :
    ∀ n ∈ item.nodes, cmp.tree.Owns cmp.id n :=
  fun _ there => ⟨decl, declared, TraitDecl.item_nodes_subset mem there⟩

/-! ## Building -/

section

variable {receiver : TypeParam} {others : List TypeParam}
  (split : decl.splitReceiver? = some (receiver, others)) (sees : cmp.Sees scope)

include split sees

/-- The first stage is alike in both runs, and the super-traits it finds are cached. The bound
of the receiver by the trait itself is the one whose trait is not. -/
theorem buildSupers_alike (twin : cmp.Twin a b) :
    cmp.Alike (buildSupers cmp.tree · scope decl receiver (receiver :: others)) a b fun out b' =>
      out.1.map TraitParam.param = (receiver :: others).map TypeParam.toParam ∧
        ∀ p ∈ out.2, p.Cached b' := by
  have named := cmp.layered.numbered cmp.id decl declared
  have early := (asks_mentions declared).left
  have params_of := TraitDecl.mem_typeParams_of_split split
  have paths : (decl.supers ++ receiver.bounds).filterMap Bound.trait? = decl.superPaths := by
    simp [TraitDecl.superPaths, split]
  simp only [buildSupers, paths, named]
  refine (lockstep_forIn _ twin fun p mem a b twin => ?_).bind fun _ a b twin _ _ => ?_
  · exact (insertType_alike (owns_param declared (params_of p mem)) _ twin).map fun _ _ _ => rfl
  refine (lowerFallbacks_alike sees (receiver :: others) (early.left.mono ?_) twin).bind
    fun params a b twin _ same => ?_
  · intro path mem
    obtain ⟨p, there, mentioned⟩ := List.mem_flatMap.1 mem
    exact List.mem_flatMap.2 ⟨p, params_of p there, mentioned⟩
  have some : params ≠ [] := by
    rintro rfl
    cases same
  refine Lockstep.bind (lockstep_modify (twin.setPending params) (List.Subset.refl _) trivial)
    fun _ a b twin _ (_ : True) => ?_
  refine (lowerBounds_alike sees true _ decl.superPaths early.right twin).bind
    fun supers a b twin _ cached => ?_
  refine (addBounds_alike (owns_param declared (params_of receiver List.mem_cons_self))
    (fun p mem => ?_) twin).bind fun _ a b twin grows _ => lockstep_pure twin
      ⟨same, fun p mem => (cached p mem).mono grows⟩
  have mem := (Bounds.mem_addAll_iff.1 mem).resolve_left List.not_mem_nil
  rcases List.mem_cons.1 mem with rfl | mem
  · refine Or.inl ?_
    rw [Predicate.bindReceiver_trait]
    exact (Predicate.ofParams_fresh cmp.id decl.span some).trait
  · exact Or.inr (cached p mem)

/-- The second stage is alike in both runs. -/
theorem buildItems_alike (params : List TraitParam) (twin : cmp.Twin a b) :
    cmp.Alike (buildItems cmp.tree · scope decl receiver params) a b Whatever := by
  have late := (asks_mentions declared).right.left
  simp only [buildItems]
  refine (lockstep_forIn _ twin fun p mem a b twin => ?_).bind fun _ a b twin _ _ => ?_
  · split
    · exact lockstep_pure twin rfl
    · rename_i other
      have own : p ∈ decl.ownParams := by
        simp only [TraitDecl.ownParams, split]
        exact List.mem_filter.2 ⟨mem, by simpa using other⟩
      exact (lowerParamBounds_alike sees (owns_param declared mem) (late.left.flatMap own) twin).map
        fun _ _ _ => rfl
  · exact lowerItems_alike sees decl _ params decl.items [] (fun item mem => owns_item declared mem)
      late.right twin

end

/-- Both runs build the same reference, over parameters that the trait owns. -/
theorem buildTrait_alike (twin : cmp.Twin a b) :
    cmp.Alike (buildTrait cmp.tree · decl) a b fun t b' => cmp.Rebuilt t b' := by
  have named := cmp.layered.numbered cmp.id decl declared
  obtain ⟨⟨receiver, others⟩, split⟩ :=
    Option.isSome_iff_exists.1 (cmp.layered.receivers.split declared)
  have sees : cmp.Sees ⟨(receiver :: others).map TypeParam.toParam⟩ := by
    intro p mem
    obtain ⟨q, there, rfl⟩ := List.mem_map.1 mem
    exact owns_param declared (TraitDecl.mem_typeParams_of_split split q there)
  simp only [buildTrait, split]
  refine (buildSupers_alike declared split sees twin).bind fun out a b twin _ first => ?_
  obtain ⟨same, cached⟩ := first
  rw [named]
  refine (enterItems_alike twin).bind fun _ a b twin grows _ => ?_
  refine (buildItems_alike declared split sees out.1 twin).bind fun items a b twin grows' _ => ?_
  refine lockstep_pure twin ⟨rfl, fun p mem => ?_, ?_⟩
  · exact ((cached p mem).mono grows).mono grows'
  · show cmp.Sees ⟨out.1.map TraitParam.param⟩
    rw [same]
    exact sees

/-! ## The checks that waited -/

omit declared in
/-- Whether a used item is reported depends on the reference of its trait, which both runs
have. -/
theorem checkUse_alike (sees : cmp.Sees scope) {use : BodyUse} (asked : cmp.Asks use.path.mentions)
    (twin : cmp.Twin a b) : cmp.Alike (checkUse cmp.tree · scope use) a b Whatever := by
  cases use with
  | bound path =>
      simp only [checkUse]
      exact (lowerBound_alike sees false path asked twin).map fun _ _ _ => trivial
  | item path name =>
      simp only [checkUse]
      refine (lowerBound_alike sees false path asked twin).bind fun p a b twin _ cached => ?_
      have error : p.isError a = p.isError b := by
        simp only [Predicate.isError, getChecked?_eq cached twin]
      have contains : p.containsItem a name = p.containsItem b name := by
        simp only [Predicate.containsItem, Predicate.member?, getChecked?_eq cached twin]
      refine lockstep_get ?_
      rw [error, contains]
      split
      · exact report_alike _ twin
      · exact lockstep_pure twin trivial

/-- The default bodies are checked alike, each with the parameters of its item in scope. -/
theorem checkBodies_alike (sees : cmp.Sees scope) (twin : cmp.Twin a b) :
    cmp.Alike (checkBodies cmp.tree · scope decl) a b Whatever := by
  have asked := (asks_mentions declared).right.right
  simp only [checkBodies]
  refine (lockstep_forIn _ twin fun item mem a b twin => ?_).map fun _ _ _ => trivial
  have own := asked.flatMap mem
  unfold TraitItem.bodyMentions at own
  cases written : item.kind.body? with
  | none => exact lockstep_pure twin rfl
  | some body =>
      rw [written] at own
      have inner : cmp.Sees (scope.pushAll
          ((item.kind.generics.filterMap GenericParam.type?).map TypeParam.toParam)) := by
        refine sees.pushAll fun p there => ?_
        obtain ⟨q, generic, rfl⟩ := List.mem_map.1 there
        exact owns_item declared mem q.node (TraitItem.generic_mem_nodes generic)
      refine (lockstep_forIn _ twin fun use mem a b twin => ?_).map fun _ _ _ => rfl
      exact (checkUse_alike inner (own.flatMap mem) twin).map fun _ _ _ => rfl

/-- No check has waited for the trait in either run, so there are only the bodies. -/
theorem finishTrait_alike {t : TraitRef} (sees : cmp.Sees ⟨t.params.map TraitParam.param⟩)
    (twin : cmp.Twin a b) : cmp.Alike (finishTrait cmp.tree · decl t) a b Whatever := by
  have named := cmp.layered.numbered cmp.id decl declared
  obtain ⟨same, taken⟩ := twin.takeDeferred
  have nothing : (b.takeDeferred cmp.id).1 = [] := by
    simp [Context.takeDeferred, twin.right.deferred]
  simp only [finishTrait, named]
  refine Lockstep.bind (lockstep_modifyGet same taken (List.Subset.refl _) nothing)
    fun spans a b twin _ (none : spans = []) => ?_
  rw [none]
  simp only [List.forIn_nil, pure_bind]
  refine (checkBodies_alike declared sees twin).bind fun _ a b twin _ _ => ?_
  exact lockstep_modify twin.markBodiesResolved (List.Subset.refl _) trivial

/-- Both runs resolve the trait anew, if they are related once it is on the stack. -/
theorem resolveNew_alike (twin : cmp.Twin (a.beginResolving cmp.id) (b.beginResolving cmp.id)) :
    cmp.Alike (resolveNew cmp.tree · cmp.id decl) a b fun t b' => b'.trait? cmp.id = some t := by
  simp only [resolveNew]
  refine Lockstep.bind (lockstep_modify twin (List.Subset.refl _) trivial)
    fun _ a b twin _ (_ : True) => ?_
  refine (buildTrait_alike declared twin).bind fun t a b twin _ rebuilt => ?_
  refine (insertTrait_alike rebuilt twin).bind fun _ a b twin _ cached => ?_
  refine (finishTrait_alike declared rebuilt.sees twin).bind fun _ a b twin grows _ => ?_
  obtain ⟨t, found⟩ := b.exists_trait? (grows cached)
  refine lockstep_get ?_
  rw [twin.own, found]
  exact lockstep_pure twin found

end Lowering

end TraitEngine
