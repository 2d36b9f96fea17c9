import TraitEngine.Proofs.Owners
import TraitEngine.Proofs.Passage.Types
import TraitEngine.Workload
/-!
# Passing through an operation

What is made of types and bounds does three things of its own: it records the types and the bounds
of nodes (`Passage.Records`), it reports, and it looks at what is recorded. So a passage that goes
on across the records for some nodes goes on across the parameters and the items that have these
nodes, and at the top level across a whole request (`Passage.run_goes`). Two of the reports are not
plain, those of default bodies and those of the items of implementations, and are asked of the
passage where they come up (`Passage.Reports`).
-/

namespace TraitEngine

set_option autoImplicit false

open Check

namespace Passage

/-- The passage goes on across a report of the problem. -/
def Reports {tree : ItemTree} {resolve : Resolver} (w : Passage tree resolve) (p : Problem) :
    Prop :=
  ∀ cx : Context, w.Goes cx (cx.report p)

/-- The passage goes on across what is recorded for the node. -/
structure Records {tree : ItemTree} {resolve : Resolver} (w : Passage tree resolve) (n : NodeId) :
    Prop where
  insertType (cx : Context) (ty : Ty) : w.Goes cx (cx.insertType n ty)
  addBounds (cx : Context) (ps : List Predicate) : w.Goes cx (cx.addBounds n ps)

section

variable {tree : ItemTree} {resolve : Resolver} (w : Passage tree resolve) {cx : Context}
  (scope : Scope)

open Lowering

/-! ## Bounds and parameters -/

/-- A list of bounds keeps those that have not failed, for the type they are on. -/
theorem lowerBounds_goes (isSuper : Bool) (self : Ty) : ∀ (paths : List TypePath) {cx : Context},
    w.AsksAll cx (paths.flatMap TypePath.mentions) →
    (isSuper = true → ∀ path ∈ paths, w.AtSuper cx path) →
    Ends w.faults (Lowering.lowerBounds tree resolve scope isSuper self paths) cx fun ps cx' =>
      w.Goes cx cx' ∧ ∃ all, List.Forall₂ (fun path p => w.Lowered isSuper path cx' p) paths all ∧
        ps = (all.filter fun p => !p.failed).map fun p => p.bindReceiver self
  | [], cx, _, _ => by
      rw [Lowering.lowerBounds]
      exact ⟨w.reporting.refl cx, [], .nil, rfl⟩
  | path :: rest, cx, asked, super => by
      rw [List.flatMap_cons] at asked
      rw [Lowering.lowerBounds, ends_bind]
      refine (w.lowerBound_goes scope isSuper path asked.left
        fun isSuper => super isSuper path List.mem_cons_self).mono fun p cx₁ head => ?_
      obtain ⟨goes₁, lowered⟩ := head
      rw [ends_bind]
      refine (lowerBounds_goes isSuper self rest (w.asksAll goes₁ asked.right)
        fun isSuper path mem => w.atSuper goes₁ (super isSuper path
          (List.mem_cons_of_mem _ mem))).mono fun ps cx₂ others => ?_
      obtain ⟨goes₂, all, each, rfl⟩ := others
      refine ⟨w.reporting.trans goes₁ goes₂, p :: all, .cons (w.lowered goes₂ lowered) each, ?_⟩
      cases failed : p.failed <;> simp [failed]

/-- The bounds of a parameter are recorded once they are lowered. -/
theorem lowerParamBounds_goes {p : TypeParam} (asked : w.AsksAll cx p.mentions)
    (own : w.Records p.node) :
    Ends w.faults (lowerParamBounds tree resolve scope p) cx fun _ cx' => w.Goes cx cx' := by
  simp only [lowerParamBounds, ends_bind, ends_modify]
  refine (w.lowerBounds_goes scope false _ _ asked (absurd · Bool.false_ne_true)).mono
    fun ps cx₁ lowered => ?_
  exact w.reporting.trans lowered.1 (own.addBounds cx₁ ps)

/-- The parameters are recorded first, all of them, and then their bounds are lowered. -/
theorem lowerGenerics_goes {generics : List GenericParam}
    (asked : w.AsksAll cx (genericMentions generics))
    (own : ∀ p ∈ generics.filterMap GenericParam.type?, w.Records p.node) :
    Ends w.faults (lowerGenerics tree resolve scope generics) cx fun _ cx' => w.Goes cx cx' := by
  simp only [lowerGenerics, ends_bind, ends_pure]
  refine (ends_forIn _ _ (w.reporting.refl cx) fun p mem cx₁ goes => ?_).mono fun _ _ goes => ?_
  · obtain ⟨q, there, rfl⟩ := List.mem_map.1 mem
    simp only [ends_bind, ends_modify, ends_pure]
    exact ⟨trivial, w.reporting.trans goes ((own q there).insertType cx₁ _)⟩
  · refine ends_forIn _ _ goes fun p mem cx₂ goes => ?_
    rw [ends_bind]
    exact (w.ends_trans goes (w.lowerParamBounds_goes _ (w.asksAll goes (asked.flatMap mem))
      (own p mem))).mono fun _ _ goes => ⟨rfl, goes⟩

/-! ## Items -/

theorem lowerSignature_goes (self : Ty) (name : String) {decl : FnDecl}
    (asked : w.AsksAll cx decl.mentions)
    (own : ∀ p ∈ decl.generics.filterMap GenericParam.type?, w.Records p.node) :
    Ends w.faults (lowerSignature tree resolve scope self name decl) cx fun _ cx' =>
      w.Goes cx cx' := by
  rw [lowerSignature, ends_bind]
  refine (w.lowerGenerics_goes scope asked.left.left own).mono fun out cx₁ goes => ?_
  rw [ends_bind]
  refine (w.ends_trans goes (w.lowerTys_goes out.1 _ (w.asksAll goes asked.left.right))).mono
    fun _ cx₂ goes => ?_
  have returned := asked.right
  cases written : decl.ret with
  | none => exact goes
  | some ret =>
      rw [written] at returned
      simp only [ends_bind, ends_pure]
      exact w.ends_trans goes (w.lowerTy_goes out.1 ret (w.asksAll goes returned))

/-- The bounds and the default of an associated type, the type of a constant, the signature of
a function. -/
theorem lowerItemKind_goes (id : DefId) (self : Ty) (name : String) {kind : TraitItemKind}
    (asked : w.AsksAll cx kind.mentions)
    (own : ∀ p ∈ kind.generics.filterMap GenericParam.type?, w.Records p.node) :
    Ends w.faults (lowerItemKind tree resolve scope id self name kind) cx fun _ cx' =>
      w.Goes cx cx' := by
  cases kind with
  | type bounds fallback =>
      have bound := asked.left
      have default := asked.right
      rw [lowerItemKind, ends_bind]
      refine (ends_forIn _ _ (w.reporting.refl cx) fun path mem cx₁ goes => ?_).mono
        fun _ cx₁ goes => ?_
      · rw [ends_bind]
        exact (w.ends_trans goes (w.lowerOtherBound_goes scope path
          (w.asksAll goes (bound.flatMap mem)))).mono fun _ _ goes => ⟨rfl, goes⟩
      · cases fallback with
        | none => exact goes
        | some t =>
            simp only [ends_bind]
            exact w.ends_trans goes (w.lowerTy_goes scope t (w.asksAll goes default))
  | const t body =>
      simp only [lowerItemKind, ends_bind, ends_pure]
      exact w.lowerTy_goes scope t asked
  | fn decl =>
      simp only [lowerItemKind, ends_bind, ends_pure]
      exact w.lowerSignature_goes scope self name asked own

/-- An item has its type recorded at its own node. -/
theorem lowerItem_goes (id : DefId) (self : Ty) (params : List TraitParam) {item : TraitItem}
    (asked : w.AsksAll cx item.kind.mentions) (own : ∀ n ∈ item.nodes, w.Records n) :
    Ends w.faults (lowerItem tree resolve scope id self params item) cx fun _ cx' =>
      w.Goes cx cx' := by
  rw [lowerItem]
  split
  · exact w.reporting.refl cx
  · rw [ends_bind]
    refine (w.lowerItemKind_goes scope id self item.name asked fun p mem =>
      own p.node (TraitItem.generic_mem_nodes mem)).mono fun out cx₁ goes => ?_
    simp only [ends_bind, ends_modify, ends_pure]
    exact w.reporting.trans goes ((own item.node List.mem_cons_self).insertType cx₁ out.2)

/-- Of the items with one name only the first is lowered. -/
theorem lowerItems_goes (decl : TraitDecl) (self : Ty) (params : List TraitParam) :
    ∀ (items seen : List TraitItem) {cx : Context},
      w.AsksAll cx (items.flatMap fun item => item.kind.mentions) →
      (∀ item ∈ items, ∀ n ∈ item.nodes, w.Records n) →
      Ends w.faults (lowerItems tree resolve scope decl self params seen items) cx fun _ cx' =>
        w.Goes cx cx'
  | [], _, cx, _, _ => by
      rw [lowerItems]
      exact w.reporting.refl cx
  | item :: rest, seen, cx, asked, own => by
      rw [List.flatMap_cons] at asked
      obtain ⟨first, others⟩ := List.forall_mem_cons.1 own
      rw [lowerItems]
      split
      · rename_i earlier _
        simp only [ends_bind, ends_report]
        have goes : w.Goes cx (cx.report (.duplicateItem decl.name item.name earlier.span
          item.span)) := w.reporting.report cx rfl
        exact w.ends_trans goes (lowerItems_goes decl self params rest seen
          (w.asksAll goes asked.right) others)
      · simp only [ends_bind, ends_pure]
        exact (w.lowerItem_goes scope decl.id self params asked.left first).mono fun _ _ goes =>
          w.ends_trans goes (lowerItems_goes decl self params rest (item :: seen)
            (w.asksAll goes asked.right) others)

/-! ## The parts of a trait -/

/-- Every parameter comes out, with or without a default. -/
theorem lowerFallbacks_goes : ∀ (ps : List TypeParam) {cx : Context},
    w.AsksAll cx (ps.flatMap TypeParam.fallbackMentions) →
    Ends w.faults (lowerFallbacks tree resolve scope ps) cx fun params cx' =>
      w.Goes cx cx' ∧ params.length = ps.length
  | [], cx, _ => by
      rw [lowerFallbacks]
      exact ⟨w.reporting.refl cx, rfl⟩
  | p :: rest, cx, asked => by
      rw [List.flatMap_cons] at asked
      have others {cx₁ : Context} (goes : w.Goes cx cx₁) :
          Ends w.faults (lowerFallbacks tree resolve scope rest) cx₁ fun params cx₂ =>
            w.Goes cx cx₂ ∧ params.length + 1 = rest.length + 1 := by
        refine (lowerFallbacks_goes rest (w.asksAll goes asked.right)).mono fun _ _ lowered => ?_
        exact ⟨w.reporting.trans goes lowered.1, congrArg Nat.succ lowered.2⟩
      have own := asked.left
      rw [lowerFallbacks]
      unfold TypeParam.fallbackMentions at own
      cases written : p.fallback with
      | none =>
          simp only [ends_bind, ends_pure]
          exact others (w.reporting.refl cx)
      | some t =>
          rw [written] at own
          simp only [ends_bind, ends_map, ends_pure]
          exact (w.lowerTy_goes scope t own).mono fun _ _ goes => others goes

/-- The second stage of a trait lowers the bounds of its parameters but the receiver, and then its
items. -/
theorem buildItems_goes {decl : TraitDecl} {receiver : TypeParam} (params : List TraitParam)
    (bounds : ∀ p ∈ decl.typeParams, p.node ≠ receiver.node →
      w.AsksAll cx p.mentions ∧ w.Records p.node)
    (asked : w.AsksAll cx (decl.items.flatMap fun item => item.kind.mentions))
    (items : ∀ item ∈ decl.items, ∀ n ∈ item.nodes, w.Records n) :
    Ends w.faults (buildItems tree resolve scope decl receiver params) cx fun _ cx' =>
      w.Goes cx cx' := by
  simp only [buildItems, ends_bind]
  refine (ends_forIn _ _ (w.reporting.refl cx) fun p mem cx₁ goes => ?_).mono fun _ _ goes => ?_
  · split
    · exact ⟨rfl, goes⟩
    · rename_i other
      obtain ⟨asked, own⟩ := bounds p mem (by simpa using other)
      rw [ends_bind]
      exact (w.ends_trans goes (w.lowerParamBounds_goes scope (w.asksAll goes asked) own)).mono
        fun _ _ goes => ⟨rfl, goes⟩
  · exact w.ends_trans goes (w.lowerItems_goes scope decl _ params decl.items []
      (w.asksAll goes asked) items)

/-- A use may be reported as an unknown item. -/
theorem checkUse_goes (unknown : ∀ p : Problem, p.isUnknownItem = true → w.Reports p)
    {use : BodyUse} (asked : w.AsksAll cx use.path.mentions) :
    Ends w.faults (checkUse tree resolve scope use) cx fun _ cx' => w.Goes cx cx' := by
  cases use with
  | bound path =>
      simp only [checkUse, ends_bind, ends_pure]
      exact w.lowerOtherBound_goes scope path asked
  | item path name =>
      simp only [checkUse, ends_bind, ends_get]
      refine (w.lowerOtherBound_goes scope path asked).mono fun p cx₁ goes => ?_
      split
      · exact w.reporting.trans goes (unknown _ rfl cx₁)
      · exact goes

theorem checkBodies_goes (unknown : ∀ p : Problem, p.isUnknownItem = true → w.Reports p)
    {decl : TraitDecl} (asked : w.AsksAll cx decl.bodyMentions) :
    Ends w.faults (checkBodies tree resolve scope decl) cx fun _ cx' => w.Goes cx cx' := by
  simp only [checkBodies, ends_bind, ends_pure]
  refine ends_forIn _ _ (w.reporting.refl cx) fun item mem cx₁ goes => ?_
  have own := asked.flatMap mem
  unfold TraitItem.bodyMentions at own
  cases written : item.kind.body? with
  | none => exact ⟨rfl, goes⟩
  | some body =>
      rw [written] at own
      simp only [ends_bind, ends_pure]
      refine (ends_forIn _ _ goes fun use mem cx₂ goes => ?_).mono fun _ _ goes => ⟨trivial, goes⟩
      rw [ends_bind]
      exact (w.ends_trans goes (w.checkUse_goes _ unknown (w.asksAll goes (own.flatMap mem)))).mono
        fun _ _ goes => ⟨rfl, goes⟩

end

end Passage

/-- The nodes of the parameters and items that a request brings along. -/
def Request.brought : Request → List NodeId
  | .lowerGenerics generics => generics.map GenericParam.node
  | .lowerItem _ _ _ _ item => item.nodes
  | .implHeader block | .checkImpl block => block.nodes
  | _ => []

/-- The request answers with problems, which the context then no longer holds. -/
def Request.handsOut : Request → Bool
  | .runPasses _ | .takeProblems => true
  | _ => false

namespace Passage

variable {tree : ItemTree} (w : Passage tree tree.resolveDef) {cx cx₁ : Context}

/-- Everything may be asked for and lowered. -/
structure Free (w : Passage tree tree.resolveDef) (cx : Context) : Prop where
  asks (id : DefId) : w.Asks cx id
  atSuper (path : TypePath) : w.AtSuper cx path

variable {w} (free : w.Free cx)

include free

/-- What may be done freely may still be done later. -/
theorem Free.goes (goes : w.Goes cx cx₁) : w.Free cx₁ :=
  ⟨fun id => w.asks goes (free.asks id), fun path => w.atSuper goes (free.atSuper path)⟩

theorem Free.asksAll (paths : List TypePath) : w.AsksAll cx paths := fun id _ => free.asks id

/-! ## The operations of a tree -/

theorem resolveDef_goes (id : DefId) (span : Span) :
    Ends w.faults (tree.resolveDef id span) cx fun _ cx' => w.Goes cx cx' :=
  w.request span (free.asks id)

theorem resolveTrait_goes (path : TypePath) :
    Ends w.faults (tree.resolveTrait path) cx fun _ cx' => w.Goes cx cx' := by
  rw [ItemTree.resolveTrait]
  split
  · exact resolveDef_goes free _ path.span
  · rename_i problem failed
    simp only [ends_bind, ends_report, ends_pure]
    exact w.reporting.report cx (ItemTree.resolveTraitPath_plain failed)

omit free in
theorem lookupTrait_goes (w : Passage tree tree.resolveDef) (path : TypePath) :
    Ends w.faults (tree.lookupTrait path) cx fun _ cx' => w.Goes cx cx' := by
  rw [ItemTree.lookupTrait]
  split
  · exact w.reporting.refl cx
  · rename_i problem failed
    simp only [ends_bind, ends_report, ends_pure]
    exact w.reporting.report cx (ItemTree.resolveTraitPath_plain failed)

theorem lowerBoundAt_goes (scope : Scope) (isSuper : Bool) (path : TypePath) :
    Ends w.faults (tree.lowerBound scope isSuper path) cx fun _ cx' => w.Goes cx cx' :=
  (w.lowerBound_goes scope isSuper path (free.asksAll _) fun _ => free.atSuper path).mono
    fun _ _ lowered => lowered.1

/-- The header records the parameters of the implementation and its self type. -/
theorem lowerImplHeader_goes {block : ImplBlock} (own : ∀ n ∈ block.nodes, w.Records n) :
    Ends w.faults (tree.lowerImplHeader block) cx fun _ cx' => w.Goes cx cx' := by
  simp only [ItemTree.lowerImplHeader, ItemTree.lowerGenerics, ends_bind, ends_modify, ends_pure]
  refine (w.lowerGenerics_goes {} (free.asksAll _) fun p mem =>
    own p.node (ImplBlock.generic_mem_nodes mem)).mono fun out cx₁ goes => ?_
  refine (w.ends_trans goes (w.lowerTy_goes out.1 block.self ((free.goes goes).asksAll _))).mono
    fun self cx₂ goes => ?_
  exact w.reporting.trans goes ((own block.selfNode List.mem_cons_self).insertType cx₂ self)

/-- A probe looks at recorded types and resolves traits; it records nothing itself. -/
theorem probe_goes (receiver : Ty) :
    Ends w.faults (tree.probe receiver) cx fun _ cx' => w.Goes cx cx' := by
  simp only [ItemTree.probe, ends_bind, ends_pure]
  refine ends_mapM _ _ (w.reporting.refl cx) fun block _ cx₁ goes => ?_
  rw [ItemTree.probeBlock]
  split
  · simp only [ends_bind, ends_get]
    split
    · split
      · simp only [ends_bind, ends_pure]
        exact w.ends_trans goes (resolveTrait_goes (free.goes goes) _)
      · exact goes
    · exact goes
  · exact goes

variable (strange : ∀ p : Problem, p.isOfImpl = true → w.Reports p)

include strange

omit free in
/-- An implementation is reported for what it leaves out and for each item that is not of its
trait. -/
theorem reviewImpl_goes (block : ImplBlock) (p : Predicate) :
    Ends w.faults (ItemTree.reviewImpl block p) cx fun _ cx' => w.Goes cx cx' := by
  simp only [ItemTree.reviewImpl, ends_bind, ends_get]
  split
  · rename_i t _
    have missing : Ends w.faults (ItemTree.reportMissing cx block p t) cx fun _ cx₁ =>
        w.Goes cx cx₁ := by
      rw [ItemTree.reportMissing]
      split
      · exact w.reporting.refl cx
      · rw [ends_report]
        exact strange _ rfl cx
    rw [ends_bind]
    refine missing.mono fun _ cx₁ goes => ?_
    simp only [ItemTree.reportStrangers, ends_bind, ends_pure]
    refine ends_forIn _ _ goes fun item _ cx₂ goes => ?_
    split
    · exact ⟨rfl, goes⟩
    · simp only [ends_bind, ends_report, ends_pure]
      exact ⟨trivial, w.reporting.trans goes (strange _ rfl cx₂)⟩
  · exact w.reporting.refl cx

/-- An implementation is reviewed against the trait of its bound. -/
theorem checkImpl_goes {block : ImplBlock} (own : ∀ n ∈ block.nodes, w.Records n) :
    Ends w.faults (tree.checkImpl block) cx fun _ cx' => w.Goes cx cx' := by
  rw [ItemTree.checkImpl]
  split
  · rename_i path _
    have bound (self : Ty) {cx₁ : Context} (goes : w.Goes cx cx₁) :
        Ends w.faults (tree.lowerBound (ItemTree.implScope cx₁ block) false path) cx₁
          fun p cx₂ => Ends w.faults (ItemTree.reviewImpl block (p.bindReceiver self)) cx₂
            fun _ cx₃ => w.Goes cx cx₃ :=
      (w.ends_trans goes (lowerBoundAt_goes (free.goes goes) _ false path)).mono fun p _ goes =>
        w.ends_trans goes (reviewImpl_goes strange block (p.bindReceiver self))
    simp only [ends_bind, ends_get]
    split
    · simp only [ends_bind, ends_get, ends_pure]
      exact bound _ (w.reporting.refl cx)
    · simp only [ends_bind, ends_get]
      exact (lowerImplHeader_goes free own).mono fun self _ goes => bound self goes
  · exact w.reporting.refl cx

/-- The three passes, each over what it visits. -/
theorem pass_goes (impls : ∀ block ∈ tree.impls, ∀ n ∈ block.nodes, w.Records n) (pass : Pass) :
    Ends w.faults (pass.run tree) cx fun _ cx' => w.Goes cx cx' := by
  cases pass with
  | implHeaders =>
      simp only [Pass.run, ← Array.forIn_toList, ends_bind, ends_pure]
      refine ends_forIn _ _ (w.reporting.refl cx) fun block mem cx₁ goes => ?_
      simp only [ends_bind, ends_pure]
      exact (w.ends_trans goes (lowerImplHeader_goes (free.goes goes)
        (impls block (Array.mem_toList_iff.1 mem)))).mono fun _ _ goes => ⟨trivial, goes⟩
  | traits =>
      simp only [Pass.run, ends_bind, ends_pure]
      refine ends_forIn _ _ (w.reporting.refl cx) fun id _ cx₁ goes => ?_
      split
      · simp only [ends_bind, ends_pure]
        exact (w.ends_trans goes (resolveDef_goes (free.goes goes) id _)).mono
          fun _ _ goes => ⟨trivial, goes⟩
      · exact ⟨rfl, goes⟩
  | impls =>
      simp only [Pass.run, ← Array.forIn_toList, ends_bind, ends_pure]
      refine ends_forIn _ _ (w.reporting.refl cx) fun block mem cx₁ goes => ?_
      simp only [ends_bind, ends_pure]
      exact (w.ends_trans goes (checkImpl_goes (free.goes goes) strange
        (impls block (Array.mem_toList_iff.1 mem)))).mono fun _ _ goes => ⟨trivial, goes⟩

/-- A request that hands out nothing is a passage, if it may ask for everything and its records are
for nodes that it brings along. -/
theorem run_goes {request : Request} (keeps : request.handsOut = false)
    (own : ∀ n ∈ request.brought, w.Records n) :
    Ends w.faults (request.run tree) cx fun handed cx' => handed = [] ∧ w.Goes cx cx' := by
  have nothing {α : Type} {x : Check α} (h : Ends w.faults x cx fun _ cx' => w.Goes cx cx') :
      Ends w.faults (do let _ ← x; return ([] : List Problem)) cx fun handed cx' =>
        handed = [] ∧ w.Goes cx cx' := by
    simp only [ends_bind, ends_pure]
    exact h.mono fun _ _ goes => ⟨trivial, goes⟩
  cases request with
  | resolve path => exact nothing (resolveTrait_goes free path)
  | resolveDef id span => exact nothing (resolveDef_goes free id span)
  | lookup path => exact nothing (w.lookupTrait_goes path)
  | lowerTy scope t => exact nothing (w.lowerTy_goes scope t (free.asksAll _))
  | lowerBound scope isSuper path => exact nothing (lowerBoundAt_goes free scope isSuper path)
  | lowerGenerics generics =>
      refine nothing ?_
      simp only [ItemTree.lowerGenerics, ends_bind, ends_pure]
      exact w.lowerGenerics_goes {} (free.asksAll _) fun p mem =>
        own p.node (GenericParam.node_mem_of_type mem)
  | lowerItem scope id self params item =>
      exact nothing (w.lowerItem_goes scope id self params (free.asksAll _) own)
  | checkBound p emit span =>
      refine nothing ?_
      rw [ends_modifyGet]
      exact w.reporting.checkPredicate p emit span cx
  | checkTrait t emit span =>
      refine nothing ?_
      rw [ends_modifyGet]
      exact w.reporting.checkObjectSafety t emit span cx
  | implHeader block => exact nothing (lowerImplHeader_goes free own)
  | checkImpl block => exact nothing (checkImpl_goes free strange own)
  | probe receiver => exact nothing (probe_goes free receiver)
  | runPasses passes => cases keeps
  | takeProblems => cases keeps

end Passage

end TraitEngine
