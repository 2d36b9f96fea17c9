import TraitEngine.Proofs.Keeping
import TraitEngine.Proofs.Resolution
/-!
# What is recorded on the way

Types and bounds record nothing by themselves (`Resolver.Keeps`), but parameters and items
record what is lowered for their nodes. So a property is kept by what is made of parameters and
items, if it is kept by the records for their nodes (`Resolver.Records`).

A trait that is resolved besides goes through its stations: the stack, the cache, the journal
(`Resolver.Builds`). The operations at the top level go through no stations of their own, and
what they record is for the nodes of implementations and for those that a request brings along
(`ItemTree.run_records`).
-/

namespace TraitEngine

set_option autoImplicit false

open Check

/-- Besides, what is recorded for some nodes keeps the property. -/
structure Resolver.Records (resolve : Resolver) (keeps : Context → Prop)
    (free : NodeId → Prop) : Prop extends resolve.Keeps keeps where
  insertType {cx : Context} {n : NodeId} (ty : Ty) :
    free n → keeps cx → keeps (cx.insertType n ty)
  addBounds {cx : Context} {n : NodeId} (ps : List Predicate) :
    free n → keeps cx → keeps (cx.addBounds n ps)

/-- Besides, the stations of the trait `id` keep the property. -/
structure Resolver.Builds (resolve : Resolver) (keeps : Context → Prop) (free : NodeId → Prop)
    (id : DefId) : Prop extends resolve.Records keeps free where
  beginResolving {cx : Context} : keeps cx → keeps (cx.beginResolving id)
  setPending {cx : Context} (other : DefId) (params : List TraitParam) :
    keeps cx → keeps (cx.setPending other params)
  enterItems {cx : Context} (other : DefId) : keeps cx → keeps (cx.enterItems other)
  insertTrait {cx : Context} (t : TraitRef) : keeps cx → keeps (cx.insertTrait id t)
  takeDeferred {cx : Context} (other : DefId) : keeps cx → keeps (cx.takeDeferred other).2
  markBodiesResolved {cx : Context} (other : DefId) :
    keeps cx → keeps (cx.markBodiesResolved other)

/-- The nodes whose records keep the property are those that its passage goes on across. -/
theorem Resolver.Records.passage {tree : ItemTree} {resolve : Resolver} {keeps : Context → Prop}
    {free : NodeId → Prop} (records : resolve.Records keeps free) {n : NodeId} (own : free n) :
    (records.toKeeps.passage tree).Records n where
  insertType := fun _ ty => records.insertType ty own
  addBounds := fun _ ps => records.addBounds ps own

namespace Lowering

variable {tree : ItemTree} {resolve : Resolver} {keeps : Context → Prop} {free : NodeId → Prop}
  {cx : Context}

/-- The second stage of a trait records nothing for its receiver, unless an item does. -/
theorem buildItems_records (records : resolve.Records keeps free) (scope : Scope) (kept : keeps cx)
    {decl : TraitDecl} {receiver : TypeParam} (params : List TraitParam)
    (others : ∀ p ∈ decl.typeParams, p.node ≠ receiver.node → free p.node)
    (items : ∀ item ∈ decl.items, ∀ n ∈ item.nodes, free n) :
    Ends AnyFault (buildItems tree resolve scope decl receiver params) cx fun _ cx' =>
      keeps cx' :=
  ((records.toKeeps.passage tree).buildItems_goes scope params
    (fun p mem other => ⟨records.asksAll cx _, records.passage (others p mem other)⟩)
    (records.asksAll cx _) fun item mem n there => records.passage (items item mem n there)).mono
    fun _ _ goes => goes kept

/-! ## Traits -/

/-- The checks that waited for a trait are reports, requests and the end of its journal. -/
theorem finishTrait_keeps (keeping : resolve.Keeps keeps) {decl : TraitDecl}
    (takeDeferred : ∀ {cx : Context}, keeps cx → keeps (cx.takeDeferred decl.id).2)
    (markBodiesResolved : ∀ {cx : Context}, keeps cx → keeps (cx.markBodiesResolved decl.id))
    (kept : keeps cx) (t : TraitRef) :
    Ends AnyFault (finishTrait tree resolve decl t) cx fun _ cx' => keeps cx' := by
  have checked : keeps (cx.checkDeferred decl.id t) :=
    keeping.reporting.checkAll t _ _ (takeDeferred kept)
  rw [ends_finishTrait]
  exact (checkBodies_keeps keeping _ checked decl).mono fun _ _ kept => markBodiesResolved kept

section

variable {id : DefId} {decl : TraitDecl} (builds : resolve.Builds keeps free id)

include builds

variable (own : ∀ n ∈ decl.nodes, free n)

include own

theorem buildSupers_keeps (kept : keeps cx) {receiver : TypeParam} {others : List TypeParam}
    (split : decl.splitReceiver? = some (receiver, others)) (scope : Scope) :
    Ends AnyFault (buildSupers tree resolve scope decl receiver (receiver :: others)) cx
      fun _ cx' => keeps cx' := by
  have mine (p : TypeParam) (mem : p ∈ receiver :: others) : free p.node :=
    own p.node (decl.node_mem_nodes (TraitDecl.mem_typeParams_of_split split p mem))
  simp only [buildSupers, ends_bind, ends_modify, ends_pure]
  refine (ends_forIn _ _ kept fun p mem cx₁ kept => ?_).mono fun _ cx₁ kept => ?_
  · simp only [ends_bind, ends_modify, ends_pure]
    exact ⟨trivial, builds.insertType _ (mine p mem) kept⟩
  · refine (lowerFallbacks_keeps builds.toKeeps scope _ kept).mono fun params cx₂ kept => ?_
    refine (lowerBounds_keeps builds.toKeeps scope true _ _
      (builds.setPending decl.id params kept)).mono fun supers cx₃ kept => ?_
    exact builds.addBounds _ (mine receiver List.mem_cons_self) kept

theorem buildTrait_keeps (kept : keeps cx) :
    Ends AnyFault (buildTrait tree resolve decl) cx fun _ cx' => keeps cx' := by
  rw [buildTrait]
  cases split : decl.splitReceiver? with
  | none => exact trivial
  | some parts =>
      obtain ⟨receiver, others⟩ := parts
      simp only [ends_bind, ends_modify, ends_pure]
      refine (buildSupers_keeps builds own kept split _).mono fun out cx₁ kept => ?_
      refine buildItems_records builds.toRecords _ (builds.enterItems decl.id kept) out.1
        (fun p mem _ => own p.node (decl.node_mem_nodes mem)) fun item mem n there => ?_
      exact own n (TraitDecl.item_nodes_subset mem there)

/-- A trait that is resolved keeps what its requests, its records and its stations keep. -/
theorem resolveNew_keeps (kept : keeps cx) :
    Ends AnyFault (resolveNew tree resolve id decl) cx fun _ cx' => keeps cx' := by
  simp only [resolveNew, ends_bind, ends_modify, ends_get, ends_pure]
  refine (buildTrait_keeps builds own (builds.beginResolving kept)).mono fun t cx₁ kept => ?_
  exact finishTrait_keeps builds.toKeeps (builds.takeDeferred decl.id)
    (builds.markBodiesResolved decl.id) (builds.insertTrait t kept) t

end

/-- What reports, deferred checks and new traits keep, requests keep, however deep they nest. -/
theorem resolveWithin_keeps
    (report : ∀ {cx : Context} {p : Problem}, p.isOfImpl = false → keeps cx → keeps (cx.report p))
    (deferObjectSafety : ∀ {cx : Context} (id : DefId) (span : Span),
      keeps cx → keeps (cx.deferObjectSafety id span))
    (new : ∀ {depth : Nat} {id : DefId} {decl : TraitDecl} {cx : Context},
      (resolveWithin tree depth).Keeps keeps → tree.trait? id = some decl →
      id ∉ cx.stack.keys → id ∉ cx.cache.keys → keeps cx →
      Ends AnyFault (resolveNew tree (resolveWithin tree depth) id decl) cx
        fun _ cx' => keeps cx') (depth : Nat) :
    (resolveWithin tree depth).Keeps keeps := by
  induction depth with
  | zero => exact ⟨report, deferObjectSafety, fun ran => by cases ran⟩
  | succ depth ih =>
      refine ⟨report, deferObjectSafety, fun {id span cx t cx'} ran kept => ?_⟩
      have ends : Ends AnyFault (resolveWithin tree (depth + 1) id span) cx fun _ cx' =>
          keeps cx' :=
        ends_resolveWithin span (fun _ _ => kept) (fun _ => kept) (fun _ => kept)
          (fun _ => report rfl kept) fun decl declared notOpen notCached _ =>
            new ih declared notOpen notCached kept
      exact ends.of_eq_ok ran

end Lowering

/-! ## Requests -/

def Step.brought : Step → List NodeId
  | .declare _ => []
  | .request r => r.brought

namespace ItemTree

variable {tree : ItemTree} {keeps : Context → Prop} {free : NodeId → Prop} {cx : Context}

section

variable (records : tree.resolveDef.Records keeps free)

include records

theorem free_passage (cx : Context) : (records.toKeeps.passage tree).Free cx :=
  ⟨fun _ => trivial, fun _ => trivial⟩

theorem lowerImplHeader_records (kept : keeps cx) {block : ImplBlock}
    (own : ∀ n ∈ block.nodes, free n) :
    Ends AnyFault (tree.lowerImplHeader block) cx fun _ cx' => keeps cx' :=
  (Passage.lowerImplHeader_goes (free_passage records cx) fun n mem =>
    records.passage (own n mem)).mono fun _ _ goes => goes kept

variable (report : ∀ {cx : Context} (p : Problem), keeps cx → keeps (cx.report p))
  (impls : ∀ block ∈ tree.impls, ∀ n ∈ block.nodes, free n)
  (handOut : ∀ {cx : Context}, keeps cx → keeps { cx with problems := [] })

include report impls handOut

theorem runPasses_records : ∀ (passes : List Pass) {cx : Context}, keeps cx →
    Ends AnyFault (tree.runPasses passes) cx fun _ cx' => keeps cx'
  | [], cx, kept => by
      rw [runPasses, ends_pure]
      exact kept
  | pass :: rest, cx, kept => by
      have passed : Ends AnyFault (pass.run tree) cx fun _ cx₁ => keeps cx → keeps cx₁ :=
        Passage.pass_goes (free_passage records cx) (fun p _ _ => report p)
          (fun block mem n there => records.passage (impls block mem n there)) pass
      simp only [runPasses, ends_bind, Check.takeProblems, ends_modifyGet, ends_pure]
      exact passed.mono fun _ cx₁ goes => runPasses_records rest (handOut (goes kept))

/-- A request keeps what is kept by resolution, by every report, by handing out the problems and by
the records for the nodes of implementations and for those that it brings along. -/
theorem run_records (kept : keeps cx) (request : Request) (own : ∀ n ∈ request.brought, free n) :
    Ends AnyFault (request.run tree) cx fun _ cx' => keeps cx' := by
  cases hands : request.handsOut with
  | false =>
      exact (Passage.run_goes (free_passage records cx) (fun p _ _ => report p) hands
        fun n mem => records.passage (own n mem)).mono fun _ _ ended => ended.2 kept
  | true =>
      cases request with
      | runPasses passes => exact runPasses_records records report impls handOut passes kept
      | takeProblems =>
          simp only [Request.run, Check.takeProblems, ends_modifyGet]
          exact handOut kept
      | _ => cases hands

end

end ItemTree

end TraitEngine
