import TraitEngine.Proofs.Order.Lowering
/-!
# Items in two runs

What holds of lowering holds of parameters and items: both runs write the same types and
bounds, and only to nodes of the trait that they resolve.
-/

namespace TraitEngine

set_option autoImplicit false

open Check ItemTree

namespace Comparison

variable {cmp : Comparison} {a b : Context}

/-- Both runs record the same type at a node of the trait. -/
theorem insertType_alike {n : NodeId} (owns : cmp.tree.Owns cmp.id n) (ty : Ty)
    (twin : cmp.Twin a b) :
    Lockstep cmp.Twin (modify (·.insertType n ty)) (modify (·.insertType n ty)) a b Whatever :=
  lockstep_modify (twin.insertType cmp.layered cmp.above owns ty) (List.Subset.refl _) trivial

/-- Both runs add the same bounds to a node of the trait, if the traits of the bounds are
cached or the trait itself. -/
theorem addBounds_alike {n : NodeId} (owns : cmp.tree.Owns cmp.id n) {ps : List Predicate}
    (known : ∀ p ∈ ps, p.trait = some cmp.id ∨ p.Cached b) (twin : cmp.Twin a b) :
    Lockstep cmp.Twin (modify (·.addBounds n ps)) (modify (·.addBounds n ps)) a b Whatever := by
  refine lockstep_modify (twin.addBounds cmp.layered cmp.above owns fun p mem x super => ?_)
    (List.Subset.refl _) trivial
  rcases known p mem with own | cached
  · exact Or.inl (Option.some.inj (super.symm.trans own))
  · exact Or.inr (cached x super)

end Comparison

namespace Lowering

open Comparison

variable {cmp : Comparison} {a b : Context} {scope : Scope} (sees : cmp.Sees scope)

include sees

/-! ## Bounds -/

/-- Bounds that failed are left out in both runs, and the traits of the others are cached. -/
theorem lowerBounds_alike (isSuper : Bool) (self : Ty) : ∀ (paths : List TypePath) {a b : Context},
    cmp.Asks (paths.flatMap TypePath.mentions) → cmp.Twin a b →
    cmp.Alike (lowerBounds cmp.tree · scope isSuper self paths) a b fun ps b' =>
      ∀ p ∈ ps, p.Cached b'
  | [], a, b, _, twin => by
      simp only [lowerBounds]
      exact lockstep_pure twin fun _ mem => absurd mem List.not_mem_nil
  | path :: rest, a, b, asked, twin => by
      rw [List.flatMap_cons] at asked
      simp only [lowerBounds]
      refine (lowerBound_alike sees isSuper path asked.left twin).bind fun p a b twin _ cached => ?_
      refine (lowerBounds_alike isSuper self rest asked.right twin).bind
        fun ps a b twin grows others => ?_
      refine lockstep_pure twin fun q mem => ?_
      split at mem
      · exact others q mem
      · rcases List.mem_cons.1 mem with rfl | mem
        · intro x own
          exact grows (cached x (by simpa using own))
        · exact others q mem

/-- The bounds of a parameter are recorded at its node, which has to be a node of the trait.
-/
theorem lowerParamBounds_alike {p : TypeParam} (owns : cmp.tree.Owns cmp.id p.node)
    (asked : cmp.Asks p.mentions) (twin : cmp.Twin a b) :
    cmp.Alike (lowerParamBounds cmp.tree · scope p) a b Whatever := by
  simp only [lowerParamBounds]
  refine (lowerBounds_alike sees false _ _ asked twin).bind fun ps a b twin _ cached => ?_
  exact addBounds_alike owns (fun q mem => Or.inr (cached q mem)) twin

/-- The parameters come into scope, so they have to be the trait's own. -/
theorem lowerGenerics_alike {generics : List GenericParam}
    (owns : ∀ p ∈ generics.filterMap GenericParam.type?, cmp.tree.Owns cmp.id p.node)
    (asked : cmp.Asks (genericMentions generics)) (twin : cmp.Twin a b) :
    cmp.Alike (lowerGenerics cmp.tree · scope generics) a b fun out _ => cmp.Sees out.1 := by
  have own : ∀ p ∈ (generics.filterMap GenericParam.type?).map TypeParam.toParam,
      cmp.tree.Owns cmp.id p.node := by
    intro p mem
    obtain ⟨q, there, rfl⟩ := List.mem_map.1 mem
    exact owns q there
  have inner := sees.pushAll own
  simp only [lowerGenerics]
  refine (lockstep_forIn _ twin fun p mem a b twin => ?_).bind fun _ a b twin _ _ => ?_
  · exact (insertType_alike (own p mem) _ twin).map fun _ _ _ => rfl
  · refine (lockstep_forIn _ twin fun p mem a b twin => ?_).map fun _ _ _ => inner
    exact (lowerParamBounds_alike inner (owns p mem) (asked.flatMap mem) twin).map
      fun _ _ _ => rfl

/-! ## Items -/

/-- The parameters of a function come into scope for its argument types and its result. -/
theorem lowerSignature_alike (self : Ty) (name : String) {decl : FnDecl}
    (owns : ∀ p ∈ decl.generics.filterMap GenericParam.type?, cmp.tree.Owns cmp.id p.node)
    (asked : cmp.Asks decl.mentions) (twin : cmp.Twin a b) :
    cmp.Alike (lowerSignature cmp.tree · scope self name decl) a b Whatever := by
  simp only [lowerSignature]
  refine (lowerGenerics_alike sees owns asked.left.left twin).bind fun out a b twin _ inner => ?_
  refine (lowerTys_alike inner _ asked.left.right twin).bind fun params a b twin _ _ => ?_
  have returned := asked.right
  cases written : decl.ret with
  | none => exact lockstep_pure twin trivial
  | some ret =>
      rw [written] at returned
      exact (lowerTy_alike inner ret returned twin).map fun _ _ _ => trivial

/-- The three kinds of items, each lowered alike in both runs. -/
theorem lowerItemKind_alike (id : DefId) (self : Ty) (name : String) {kind : TraitItemKind}
    (owns : ∀ p ∈ kind.generics.filterMap GenericParam.type?, cmp.tree.Owns cmp.id p.node)
    (asked : cmp.Asks kind.mentions) (twin : cmp.Twin a b) :
    cmp.Alike (lowerItemKind cmp.tree · scope id self name kind) a b Whatever := by
  cases kind with
  | type bounds fallback =>
      have bound := asked.left
      have default := asked.right
      simp only [lowerItemKind]
      refine (lockstep_forIn _ twin fun path mem a b twin => ?_).bind fun _ a b twin _ _ => ?_
      · exact (lowerBound_alike sees false path (bound.flatMap mem) twin).map fun _ _ _ => rfl
      · cases fallback with
        | none => exact lockstep_pure twin trivial
        | some t => exact (lowerTy_alike sees t default twin).map fun _ _ _ => trivial
  | const t body =>
      simp only [lowerItemKind]
      exact (lowerTy_alike sees t asked twin).map fun _ _ _ => trivial
  | fn decl =>
      simp only [lowerItemKind]
      exact (lowerSignature_alike sees self name owns asked twin).map fun _ _ _ => trivial

/-- An item is lowered alike and its type recorded at its own node. -/
theorem lowerItem_alike (id : DefId) (self : Ty) (params : List TraitParam) {item : TraitItem}
    (owns : ∀ n ∈ item.nodes, cmp.tree.Owns cmp.id n) (asked : cmp.Asks item.kind.mentions)
    (twin : cmp.Twin a b) :
    cmp.Alike (lowerItem cmp.tree · scope id self params item) a b Whatever := by
  simp only [lowerItem]
  split
  · exact lockstep_pure twin trivial
  · refine (lowerItemKind_alike sees id self item.name
      (fun p mem => owns p.node (TraitItem.generic_mem_nodes mem)) asked twin).bind
        fun out a b twin _ _ => ?_
    exact (insertType_alike (owns item.node List.mem_cons_self) out.2 twin).map fun _ _ _ => trivial

/-- Which items are left out as repeated depends on the names alone, so it is the same in both
runs. -/
theorem lowerItems_alike (decl : TraitDecl) (self : Ty) (params : List TraitParam) :
    ∀ (items : List TraitItem) (seen : List TraitItem) {a b : Context},
      (∀ item ∈ items, ∀ n ∈ item.nodes, cmp.tree.Owns cmp.id n) →
      cmp.Asks (items.flatMap fun item => item.kind.mentions) → cmp.Twin a b →
      cmp.Alike (lowerItems cmp.tree · scope decl self params seen items) a b Whatever
  | [], _, a, b, _, _, twin => by
      simp only [lowerItems]
      exact lockstep_pure twin trivial
  | item :: rest, seen, a, b, owns, asked, twin => by
      rw [List.flatMap_cons] at asked
      have others : ∀ item ∈ rest, ∀ n ∈ item.nodes, cmp.tree.Owns cmp.id n :=
        fun other mem => owns other (List.mem_cons_of_mem item mem)
      simp only [lowerItems]
      split
      · refine (report_alike _ twin).bind fun _ a b twin _ _ => ?_
        exact lowerItems_alike decl self params rest seen others asked.right twin
      · refine (lowerItem_alike sees decl.id self params (owns item List.mem_cons_self) asked.left
          twin).bind fun lowered a b twin _ _ => ?_
        exact (lowerItems_alike decl self params rest (item :: seen) others asked.right twin).map
          fun _ _ _ => trivial

/-- The defaults are lowered alike, and the parameters are the declared ones. -/
theorem lowerFallbacks_alike : ∀ (ps : List TypeParam) {a b : Context},
    cmp.Asks (ps.flatMap TypeParam.fallbackMentions) → cmp.Twin a b →
    cmp.Alike (lowerFallbacks cmp.tree · scope ps) a b fun params _ =>
      params.map TraitParam.param = ps.map TypeParam.toParam
  | [], a, b, _, twin => by
      simp only [lowerFallbacks]
      exact lockstep_pure twin rfl
  | p :: rest, a, b, asked, twin => by
      rw [List.flatMap_cons] at asked
      have own := asked.left
      unfold TypeParam.fallbackMentions at own
      have others {a b : Context} (fallback : Option Ty) (twin : cmp.Twin a b) :
          cmp.Alike (fun resolve => do
            return { TraitParam.ofDecl p with fallback } ::
              (← lowerFallbacks cmp.tree resolve scope rest)) a b fun params _ =>
            params.map TraitParam.param = (p :: rest).map TypeParam.toParam :=
        (lowerFallbacks_alike rest asked.right twin).map fun params _ same =>
          congrArg (p.toParam :: ·) same
      simp only [lowerFallbacks]
      cases written : p.fallback with
      | none => exact others none twin
      | some t =>
          rw [written] at own
          have lowered : cmp.Alike (fun resolve => some <$> lowerTy cmp.tree resolve scope t) a b
              Whatever := (lowerTy_alike sees t own twin).map fun _ _ _ => trivial
          exact lowered.bind fun fallback a b twin _ _ => others fallback twin

end Lowering

end TraitEngine
