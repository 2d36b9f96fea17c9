import TraitEngine.Proofs.Recording
/-!
# What resolution leaves alone

Resolving traits records types and bounds for the nodes of the traits that are resolved, their
parameters and items. What is recorded for nodes that belong to no trait stays as it is, in
particular for those of implementations (`ItemTree.Spares`).

A trait is built with records for its own nodes only, so the property is one of those that
resolution keeps (`Lowering.resolveWithin_keeps`).
-/

namespace TraitEngine

set_option autoImplicit false

open Check

namespace ItemTree

variable (tree : ItemTree)

/-- What is recorded for foreign nodes is the same. -/
structure Spares (cx cx' : Context) : Prop where
  types : ∀ n, tree.Foreign n → cx'.types.get? n = cx.types.get? n
  bounds : ∀ n, tree.Foreign n → cx'.bounds.get? n = cx.bounds.get? n

variable {tree} {start cx cx' : Context}

namespace Spares

theorem refl (cx : Context) : tree.Spares cx cx := ⟨fun _ _ => rfl, fun _ _ => rfl⟩

theorem trans (first : tree.Spares start cx) (second : tree.Spares cx cx') :
    tree.Spares start cx' where
  types := fun n foreign => (second.types n foreign).trans (first.types n foreign)
  bounds := fun n foreign => (second.bounds n foreign).trans (first.bounds n foreign)

/-- Nothing is recorded for any node. -/
theorem of_eq (spared : tree.Spares start cx) (types : cx'.types = cx.types)
    (bounds : cx'.bounds = cx.bounds) : tree.Spares start cx' where
  types := types ▸ spared.types
  bounds := bounds ▸ spared.bounds

theorem report (spared : tree.Spares start cx) (p : Problem) :
    tree.Spares start (cx.report p) := by
  obtain ⟨same, -⟩ | same := cx.report_cases p
  · rwa [same]
  · rw [same]
    exact spared.of_eq rfl rfl

theorem enterItems (spared : tree.Spares start cx) (id : DefId) :
    tree.Spares start (cx.enterItems id) := by
  obtain ⟨stack, same⟩ := cx.enterItems_eq id
  rw [same]
  exact spared.of_eq rfl rfl

theorem insertType (spared : tree.Spares start cx) {id : DefId} {n : NodeId}
    (owned : tree.Owns id n) (ty : Ty) : tree.Spares start (cx.insertType n ty) where
  types := by
    intro m foreign
    have other : m ≠ n := fun same => foreign id (same ▸ owned)
    rw [Context.insertType, Table.get?_insert, if_neg other]
    exact spared.types m foreign
  bounds := spared.bounds

theorem addBounds (spared : tree.Spares start cx) {id : DefId} {n : NodeId}
    (owned : tree.Owns id n) (ps : List Predicate) : tree.Spares start (cx.addBounds n ps) where
  types := spared.types
  bounds := by
    intro m foreign
    have other : m ≠ n := fun same => foreign id (same ▸ owned)
    rw [Context.addBounds, Table.get?_insert, if_neg other]
    exact spared.bounds m foreign

end Spares

end ItemTree

/-- Requests leave foreign nodes alone. -/
def Resolver.Spares (resolve : Resolver) (tree : ItemTree) : Prop :=
  ∀ id span cx t cx', resolve id span cx = .ok (t, cx') → tree.Spares cx cx'

/-- Where requests do so, traits are built with records for their own nodes only. -/
theorem Resolver.Keeps.builds_sparing {resolve : Resolver} {tree : ItemTree} {start : Context}
    (keeping : resolve.Keeps (tree.Spares start)) (id : DefId) :
    resolve.Builds (tree.Spares start) (tree.Owns id) id where
  toKeeps := keeping
  insertType := fun ty owned spared => spared.insertType owned ty
  addBounds := fun ps owned spared => spared.addBounds owned ps
  beginResolving := fun spared => spared.of_eq rfl rfl
  setPending := fun _ _ spared => spared.of_eq rfl rfl
  enterItems := fun id spared => spared.enterItems id
  insertTrait := fun _ spared => spared.of_eq rfl rfl
  takeDeferred := fun _ spared => spared.of_eq rfl rfl
  markBodiesResolved := fun _ spared => spared.of_eq rfl rfl

namespace Lowering

/-- A request leaves foreign nodes alone, whatever it resolves. -/
theorem resolveWithin_spares (tree : ItemTree) (depth : Nat) :
    Resolver.Spares (resolveWithin tree depth) tree := by
  intro id span cx t cx' ran
  have keeping : (resolveWithin tree depth).Keeps (tree.Spares cx) :=
    resolveWithin_keeps (fun _ spared => spared.report _) (fun _ _ spared => spared.of_eq rfl rfl)
      (fun keeping declared _ _ spared =>
        resolveNew_keeps (keeping.builds_sparing _) (fun _ mem => ⟨_, declared, mem⟩) spared) depth
  exact keeping.request ran (.refl cx)

end Lowering

namespace ItemTree

theorem resolveTrait_spares {tree : ItemTree} {start cx : Context} (spared : tree.Spares start cx)
    (path : TypePath) :
    Ends AnyFault (tree.resolveTrait path) cx fun _ cx' => tree.Spares start cx' := by
  rw [resolveTrait]
  split
  · rename_i id named
    refine (ends_self (tree.resolveDef id path.span) cx).mono fun t cx' ran => ?_
    exact spared.trans (Lowering.resolveWithin_spares tree _ id path.span cx t cx' ran)
  · simp only [ends_bind, ends_report, ends_pure]
    exact spared.report _

end ItemTree

end TraitEngine
