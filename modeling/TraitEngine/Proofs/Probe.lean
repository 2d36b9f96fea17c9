import TraitEngine.Proofs.Acceptance
import TraitEngine.Proofs.Foreign
import TraitEngine.Proofs.Lifecycle
import TraitEngine.Proofs.RecursionLimit
/-!
# What a probe finds

A probe goes through the implementations and resolves the traits of those whose self types
are compatible with the receiver. Resolving a trait for the first time resolves others, with
all that they mention, and records types and bounds on the way, but none for the self type
of an implementation. So what a probe finds is decided when it starts: the `candidates`, each
with the reference of its trait that is in the cache in the end (`performAll_probe`).

An instance of a self type is compatible with it (`Ty.accepts_replace`), so that an
implementation is found for all instances of its self type.
-/

namespace TraitEngine

set_option autoImplicit false

open Check

/-- The implementation was found, with the cached reference of its trait. -/
def Context.Found (cx : Context) (expected : DefId × ImplBlock) (found : TraitRef × ImplBlock) :
    Prop :=
  cx.trait? expected.1 = some found.1 ∧ found.2 = expected.2

namespace ItemTree

section

variable (tree : ItemTree) (types : Table NodeId Ty) (receiver : Ty)

/-- The implementation and its trait, if the trait is declared and the self type is recorded
and compatible with the receiver. -/
def candidate? (block : ImplBlock) : Option (DefId × ImplBlock) := do
  let path ← block.trait
  let self ← types.get? block.selfNode
  let id ← (tree.resolveTraitPath path).toOption
  if receiver.compatible self then some (id, block) else none

/-- The implementations that a probe is to find, in order. -/
def candidates : List (DefId × ImplBlock) :=
  tree.impls.toList.filterMap (tree.candidate? types receiver)

end

/-! ## One implementation -/

variable {tree : ItemTree} {cx cx' : Context} {receiver : Ty}

/-- What is asked for at the top level, while the recursion limit is not zero, is found. -/
theorem resolveDef_found (numbered : tree.Numbered) (idle : tree.Idle cx) (room : 0 < cx.limit)
    {id : DefId} {decl : TraitDecl} (declared : tree.trait? id = some decl) (span : Span) :
    Ends tree.Faults (tree.resolveDef id span) cx fun t cx' =>
      tree.Trip cx cx' ∧ t.isError = false ∧ cx'.trait? id = some t := by
  have notOpen := idle.notOpen id
  have room : cx.depth < cx.limit := by simpa [Context.depth, Table.size, idle.stack] using room
  by_cases cached : id ∈ cx.cache.keys
  · obtain ⟨t, found⟩ := cx.exists_trait? cached
    obtain ⟨own, -⟩ := idle.coherent.cached_shape _ (Table.mem_entries_of_get? found)
    have fine : t.isError = false := by simp [TraitRef.isError, show t.id = some id from own]
    simp only [resolveDef, Lowering.resolveWithin, ends_bind, ends_get, found, ends_pure]
    exact ⟨.refl cx, fine, trivial⟩
  · rw [resolveDef, Lowering.ends_resolveWithin_new span declared notOpen cached room]
    exact Lowering.resolveNew_ends (Lowering.resolveWithin_resolves _) (idle.ready numbered)
      declared notOpen cached room (admits_of_idle idle.stack id)

/-- What a probe does to the context: it resolves traits, but records no self type. -/
structure Surveyed (tree : ItemTree) (cx cx' : Context) : Prop where
  trip : tree.Trip cx cx'
  spares : tree.Spares cx cx'

namespace Surveyed

theorem refl (cx : Context) : tree.Surveyed cx cx := ⟨.refl cx, .refl cx⟩

theorem trans {cx'' : Context} (first : tree.Surveyed cx cx') (second : tree.Surveyed cx' cx'') :
    tree.Surveyed cx cx'' :=
  ⟨first.trip.trans second.trip, first.spares.trans second.spares⟩

/-- What was found before stays found. -/
theorem found (surveyed : tree.Surveyed cx cx') {e : DefId × ImplBlock}
    {f : TraitRef × ImplBlock} (found : cx.Found e f) : cx'.Found e f :=
  ⟨surveyed.trip.moves.trait?_eq found.1, found.2⟩

/-- Whether an implementation is a candidate does not change. -/
theorem candidate?_eq (surveyed : tree.Surveyed cx cx') {block : ImplBlock}
    (foreign : tree.Foreign block.selfNode) :
    tree.candidate? cx'.types receiver block = tree.candidate? cx.types receiver block := by
  rw [candidate?, candidate?, surveyed.spares.types _ foreign]

end Surveyed

section

variable (numbered : tree.Numbered) (idle : tree.Idle cx) (room : 0 < cx.limit)

include numbered idle room

/-- A path gives the cached reference of the trait that it names, or the error reference. -/
theorem resolveTrait_found (path : TypePath) :
    Ends tree.Faults (tree.resolveTrait path) cx fun t cx' => tree.Surveyed cx cx' ∧
      match (tree.resolveTraitPath path).toOption with
      | some id => t.isError = false ∧ cx'.trait? id = some t
      | none => t.isError = true := by
  have spares : Ends AnyFault (tree.resolveTrait path) cx fun _ cx' => tree.Spares cx cx' :=
    resolveTrait_spares (.refl cx) path
  suffices resolved : Ends tree.Faults (tree.resolveTrait path) cx fun t cx' =>
      tree.Trip cx cx' ∧ match (tree.resolveTraitPath path).toOption with
        | some id => t.isError = false ∧ cx'.trait? id = some t
        | none => t.isError = true from
    (resolved.and spares).mono fun _ _ ⟨⟨trip, answer⟩, spares⟩ => ⟨⟨trip, spares⟩, answer⟩
  cases named : tree.resolveTraitPath path with
  | ok id =>
      obtain ⟨decl, declared⟩ := trait?_of_resolveTraitPath named
      simp only [resolveTrait, named]
      exact resolveDef_found numbered idle room declared path.span
  | error problem =>
      simp only [resolveTrait, named, ends_bind, ends_report, ends_pure]
      exact ⟨(Trip.refl cx).report (Problem.isPlain_iff.1 (resolveTraitPath_plain named)).1, rfl⟩

/-- An implementation is found if it is a candidate. -/
theorem probeBlock_found (block : ImplBlock) :
    Ends tree.Faults (tree.probeBlock receiver block) cx fun found cx' => tree.Surveyed cx cx' ∧
      Option.Rel cx'.Found (tree.candidate? cx.types receiver block) found := by
  rw [probeBlock, candidate?]
  cases block.trait with
  | none => exact ⟨.refl cx, .none⟩
  | some path =>
      simp only [ends_bind, ends_get, Option.bind_eq_bind, Option.bind_some]
      cases cx.types.get? block.selfNode with
      | none => exact ⟨.refl cx, .none⟩
      | some self =>
          by_cases fits : receiver.compatible self
          · simp only [fits, if_true, ends_bind, ends_pure, Option.bind_some]
            refine (resolveTrait_found numbered idle room path).mono fun t cx' resolved => ?_
            obtain ⟨surveyed, answer⟩ := resolved
            refine ⟨surveyed, ?_⟩
            cases named : (tree.resolveTraitPath path).toOption with
            | none =>
                rw [named] at answer
                rw [show t.isError = true from answer]
                exact .none
            | some id =>
                rw [named] at answer
                rw [answer.1]
                exact .some ⟨answer.2, rfl⟩
          · simp only [fits, Option.bind_some]
            refine ⟨.refl cx, ?_⟩
            cases (tree.resolveTraitPath path).toOption <;> exact .none

end

/-! ## All implementations -/

theorem probeBlocks_found (numbered : tree.Numbered) :
    ∀ (blocks : List ImplBlock) {cx : Context}, tree.Idle cx → 0 < cx.limit →
      (∀ block ∈ blocks, tree.Foreign block.selfNode) →
      Ends tree.Faults (blocks.mapM (tree.probeBlock receiver)) cx fun outs cx' =>
        tree.Surveyed cx cx' ∧ List.Forall₂ cx'.Found
          (blocks.filterMap (tree.candidate? cx.types receiver)) (outs.filterMap id)
  | [], cx, _, _, _ => by
      rw [List.mapM_nil, ends_pure]
      exact ⟨.refl cx, .nil⟩
  | block :: rest, cx, idle, room, foreign => by
      obtain ⟨own, others⟩ := List.forall_mem_cons.1 foreign
      simp only [List.mapM_cons, ends_bind, ends_pure]
      refine (probeBlock_found numbered idle room block).mono fun out cx₁ first => ?_
      obtain ⟨surveyed, found⟩ := first
      refine (probeBlocks_found numbered rest (idle.trip surveyed.trip)
        (surveyed.trip.limit ▸ room) others).mono fun outs cx₂ ended => ?_
      obtain ⟨surveyed₂, rested⟩ := ended
      refine ⟨surveyed.trans surveyed₂, ?_⟩
      -- what the first resolution recorded does not decide about the others
      have same : rest.filterMap (tree.candidate? cx₁.types receiver) =
          rest.filterMap (tree.candidate? cx.types receiver) :=
        List.filterMap_congr fun block mem => surveyed.candidate?_eq (others block mem)
      rw [same] at rested
      rw [List.filterMap_cons, List.filterMap_cons]
      generalize tree.candidate? cx.types receiver block = expected at found ⊢
      cases found with
      | none => exact rested
      | some same => exact .cons (surveyed₂.found same) rested

/-- From an idle context a probe finds the candidates. -/
theorem probe_found (numbered : tree.Numbered) (housed : tree.Housed) (idle : tree.Idle cx)
    (room : 0 < cx.limit) (receiver : Ty) :
    Ends tree.Faults (tree.probe receiver) cx fun found cx' =>
      List.Forall₂ cx'.Found (tree.candidates cx.types receiver) found := by
  simp only [probe, ends_bind, ends_pure]
  refine (probeBlocks_found numbered tree.impls.toList idle room fun block mem =>
    housed.foreign_selfNode (Array.mem_toList_iff.1 mem)).mono fun _ _ ended => ended.2

/-- An instance of the recorded self type makes the implementation a candidate. -/
theorem candidate?_specialize {types : Table NodeId Ty} {block : ImplBlock} {path : TypePath}
    {id : DefId} {self : Ty} (offers : block.trait = some path)
    (named : tree.resolveTraitPath path = .ok id)
    (recorded : types.get? block.selfNode = some self) (fine : self.hasError = false)
    {slots : List ArgSlot} {span : Option Span}
    (bound : ∀ p ∈ self.occurring, (ArgList.of slots span).lookup p ≠ some .error) :
    tree.candidate? types (self.specialize (.of slots span)) block = some (id, block) := by
  have accepted : Ty.accepts (self.specialize (.of slots span)) self false = true :=
    (Ty.accepts_replace self).2 ⟨fine, fun p mem => Ty.image_ne_error.2 (bound p mem)⟩
  simp [candidate?, offers, recorded, named, Ty.compatible, accepted, Except.toOption]

end ItemTree

namespace Session

/-- After any steps of a session whose recursion limit is not zero, a probe finds exactly the
implementations of declared traits whose self types are recorded when it starts and
compatible with the receiver: in order, each once, and with the reference of the trait
that is then cached. So an implementation is found for every instance of its self type, if
that has no error and none of its parameters is replaced by the error type itself. -/
theorem performAll_probe (config : Config) (steps : List Step)
    (receivers : ((ItemTree.empty config.crate).after steps).HasReceivers)
    (room : 1 ≤ config.limit) :
    ∃ handed s, (ofConfig config).performAll steps = .ok (handed, s) ∧
      (∀ receiver, ∃ found cx, s.tree.probe receiver s.context = .ok (found, cx) ∧
        List.Forall₂ cx.Found (s.tree.candidates s.context.types receiver) found) ∧
      ∀ block ∈ s.tree.impls, ∀ path ∈ block.trait, ∀ id, s.tree.resolveTraitPath path = .ok id →
        ∀ self, s.context.types.get? block.selfNode = some self → self.hasError = false →
          ∀ slots span, (∀ p ∈ self.occurring, (ArgList.of slots span).lookup p ≠ some .error) →
            ∃ found cx t, s.tree.probe (self.specialize (.of slots span)) s.context =
              .ok (found, cx) ∧ (t, block) ∈ found := by
  obtain ⟨handed, s, performed, tree, settled, advances⟩ :=
    (settled_ofConfig config).performAll Context.Advances (fun _ => .refl) .trans
      (fun coherent run => run.advances coherent) steps receivers
  have receivers : s.tree.HasReceivers := tree ▸ receivers
  have housed : s.tree.Housed := tree ▸ (ItemTree.housed_empty config.crate).after steps
  have room : 0 < s.context.limit := advances.limit.symm ▸ room
  have exact (receiver : Ty) : ∃ found cx, s.tree.probe receiver s.context = .ok (found, cx) ∧
      List.Forall₂ cx.Found (s.tree.candidates s.context.types receiver) found :=
    ((ItemTree.probe_found settled.numbered housed settled.idle room receiver).mono_faults
      fun _ fault => receivers.no_fault fault).exists_ok
  refine ⟨handed, s, performed, exact, ?_⟩
  intro block mem path offers id named self recorded fine slots span bound
  obtain ⟨found, cx, probed, listed⟩ := exact (self.specialize (.of slots span))
  have expected : (id, block) ∈ s.tree.candidates s.context.types
      (self.specialize (.of slots span)) :=
    List.mem_filterMap.2 ⟨block, Array.mem_toList_iff.2 mem,
      ItemTree.candidate?_specialize offers named recorded fine bound⟩
  have blocks : (s.tree.candidates s.context.types (self.specialize (.of slots span))).map
      Prod.snd = found.map Prod.snd := by
    rw [← List.forall₂_eq_eq_eq, List.forall₂_map_left_iff, List.forall₂_map_right_iff]
    exact listed.imp fun _ _ same => same.2.symm
  obtain ⟨⟨t, _⟩, there, rfl⟩ := List.mem_map.1 (blocks ▸ List.mem_map_of_mem expected)
  exact ⟨found, cx, t, probed, there⟩

/-- A struct `Wrap<T>`, all instances of which implement `Show`, and one of which implements
its super-trait besides. The self types are recorded, but no trait is resolved yet. -/
def wrappers : List Step := [
  .declare (.trait "Named" []),
  .declare (.trait "Show" [.super (.ofText "Named"), .method "show" [.self .ref]]),
  .declare (.adt .struct "Wrap" ["T"]),
  .declare (.impl (.path ((TypePath.ofText "Wrap").withArgs [.type (.ofText "T")] []))
    [.typeParam "T" [], .forTrait (.ofText "Show")]),
  .declare (.impl (.ofText "bool") [.forTrait (.ofText "Named")]),
  .declare (.impl (.path ((TypePath.ofText "Wrap").withArgs [.type (.ofText "u8")] []))
    [.forTrait (.ofText "Named")]),
  .request (.runPasses [.implHeaders])]

theorem performAll_probe_wrappers :
    ((ItemTree.empty "main").after wrappers).HasReceivers ∧ 1 ≤ ({} : Config).limit ∧
      ∃ handed s found cx, (ofConfig {}).performAll wrappers = .ok (handed, s) ∧
        s.tree.probe (.adt ⟨2⟩ "Wrap" [.prim (.uint .w8)]) s.context = .ok (found, cx) ∧
        found.map (fun f => (f.1.name, f.2.id.index)) = [("Show", 0), ("Named", 2)] ∧
        List.Forall₂ cx.Found (s.tree.candidates s.context.types
          (.adt ⟨2⟩ "Wrap" [.prim (.uint .w8)])) found := by
  have receivers : ((ItemTree.empty "main").after wrappers).HasReceivers := by decide +kernel
  refine ⟨receivers, by decide, ?_⟩
  obtain ⟨handed, s, performed, exact, -⟩ := performAll_probe {} wrappers receivers (by decide)
  obtain ⟨found, cx, probed, listed⟩ := exact (.adt ⟨2⟩ "Wrap" [.prim (.uint .w8)])
  have seen : ((ofConfig {}).performAll wrappers).toOption.bind (fun out =>
      (out.2.tree.probe (.adt ⟨2⟩ "Wrap" [.prim (.uint .w8)]) out.2.context).toOption.map
        fun probed => probed.1.map fun f => (f.1.name, f.2.id.index)) =
      some [("Show", 0), ("Named", 2)] := by decide +kernel
  rw [performed] at seen
  simp only [Except.toOption, Option.bind_some, probed, Option.map_some] at seen
  exact ⟨handed, s, found, cx, performed, probed, Option.some.inj seen, listed⟩

end Session

end TraitEngine
