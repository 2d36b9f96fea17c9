import TraitEngine.Proofs.Projections
import TraitEngine.Proofs.Recording
import TraitEngine.Proofs.Sound.Session
/-!
# The bounds of a receiver

The bounds of a trait's receiver are attached once, at the end of its first stage: the trait
itself, then its super-traits (`TraitRef.receiverBounds`). Before the trait is begun nothing is
attached to the node of its receiver, and from the time that it is on the stack no request
attaches anything to it: a request records bounds for the nodes of the traits that it begins,
and the node belongs to no other trait.

So in every context between two requests the trait is not begun and its receiver is bare, or the
trait is cached with these bounds (`Context.Fitting`), unless a request has brought the node of
the receiver along.
-/

namespace TraitEngine

set_option autoImplicit false

open Check

namespace TraitRef

/-- The trait as a bound on its own receiver. -/
def asBound (t : TraitRef) (self : Ty) : Predicate :=
  (Predicate.ofTrait t t.span).bindReceiver self

/-- The bounds of the receiver: the trait itself, then its super-traits, each once. -/
def receiverBounds (t : TraitRef) (self : Ty) : Bounds :=
  Bounds.addAll {} (t.asBound self :: t.supers)

/-- A trait with parameters bounds its receiver with itself. -/
theorem asBound_spec {t : TraitRef} {id : DefId} (own : t.id = some id) (some : t.params ≠ [])
    (self : Ty) : (t.asBound self).trait = .some id ∧ (t.asBound self).receiver? = .some self := by
  obtain ⟨first, rest, params⟩ := List.exists_cons_of_ne_nil some
  rw [asBound, Predicate.ofTrait, own, params]
  exact ⟨rfl, rfl⟩

end TraitRef

namespace ItemTree

/-- `receiver` is the receiver of `id`, if `id` is declared, and its node is nobody else's. -/
structure Receives (tree : ItemTree) (id : DefId) (receiver : Param) : Prop where
  alone : ∀ other decl, tree.trait? other = some decl → receiver.node ∈ decl.nodes → other = id
  split : ∀ decl parts, tree.trait? id = some decl → decl.splitReceiver? = some parts →
    parts.1.toParam = receiver
  items : ∀ decl, tree.trait? id = some decl → ∀ item ∈ decl.items, receiver.node ∉ item.nodes
  impls : ∀ block ∈ tree.impls, receiver.node ∉ block.nodes

end ItemTree

namespace Context

/-- The trait is begun, and this is cached for it and attached to the node. -/
structure Steady (id : DefId) (n : NodeId) (cached : Option TraitRef) (bounds : Option Bounds)
    (cx : Context) : Prop where
  begun : cx.Begun id
  cached : cx.trait? id = cached
  bounds : cx.bounds.get? n = bounds

/-- The trait is not begun and its receiver is bare, or it is cached with its bounds. -/
inductive Fitting (id : DefId) (receiver : Param) (cx : Context) : Prop where
  | fresh (notBegun : ¬cx.Begun id) (bare : cx.bounds.get? receiver.node = none)
  | built {t : TraitRef} (steady : cx.Steady id receiver.node (some t)
      (some (t.receiverBounds (.param receiver))))

variable {id other : DefId} {n m : NodeId} {cached : Option TraitRef} {bounds : Option Bounds}
  {receiver : Param} {cx cx' : Context}

/-! ## What the two states depend on -/

theorem begun_congr (stack : cx'.stack.keys = cx.stack.keys) (cache : cx'.cache = cx.cache) :
    cx'.Begun id ↔ cx.Begun id := by
  rw [Begun, Begun, stack, cache]

/-- Both states are about the stack, the cache and the bounds of one node. -/
theorem Steady.of_eq (h : cx.Steady id n cached bounds) (stack : cx'.stack.keys = cx.stack.keys)
    (cache : cx'.cache = cx.cache) (same : cx'.bounds.get? n = cx.bounds.get? n) :
    cx'.Steady id n cached bounds where
  begun := (begun_congr stack cache).2 h.begun
  cached := by rw [trait?, cache]; exact h.cached
  bounds := same.trans h.bounds

theorem Fitting.of_eq (h : cx.Fitting id receiver) (stack : cx'.stack.keys = cx.stack.keys)
    (cache : cx'.cache = cx.cache)
    (same : cx'.bounds.get? receiver.node = cx.bounds.get? receiver.node) :
    cx'.Fitting id receiver := by
  cases h with
  | fresh notBegun bare =>
      exact .fresh (mt (begun_congr stack cache).1 notBegun) (same.trans bare)
  | built steady => exact .built (steady.of_eq stack cache same)

theorem Steady.report (h : cx.Steady id n cached bounds) (p : Problem) :
    (cx.report p).Steady id n cached bounds := by
  refine h.of_eq (by rw [cx.report_stack]) (cx.report_cache p) ?_
  obtain ⟨same, -⟩ | same := cx.report_cases p <;> rw [same]

theorem Fitting.report (h : cx.Fitting id receiver) (p : Problem) :
    (cx.report p).Fitting id receiver := by
  refine h.of_eq (by rw [cx.report_stack]) (cx.report_cache p) ?_
  obtain ⟨same, -⟩ | same := cx.report_cases p <;> rw [same]

/-- Bounds are attached to one node. -/
theorem get?_addBounds_of_ne (ps : List Predicate) (other : n ≠ m) :
    (cx.addBounds m ps).bounds.get? n = cx.bounds.get? n := by
  rw [addBounds, Table.get?_insert, if_neg other]

theorem begun_beginResolving :
    (cx.beginResolving other).Begun id ↔ id = other ∨ cx.Begun id := by
  show id ∈ (cx.stack.insert other .supers).keys ∨ id ∈ cx.cache.keys ↔ _
  rw [Table.mem_keys_insert, or_assoc]
  rfl

theorem begun_insertTrait_of_ne (t : TraitRef) (apart : id ≠ other) :
    (cx.insertTrait other t).Begun id ↔ cx.Begun id := by
  show id ∈ (cx.stack.erase other).keys ∨ id ∈ (cx.cache.insert other t).keys ↔ _
  rw [Table.keys_erase, Table.mem_keys_insert, List.mem_filter, Begun]
  simp [apart]

theorem trait?_insertTrait_of_ne (t : TraitRef) (apart : id ≠ other) :
    (cx.insertTrait other t).trait? id = cx.trait? id := by
  show (cx.cache.insert other t).get? id = cx.cache.get? id
  rw [Table.get?_insert, if_neg apart]

theorem Steady.enterItems (h : cx.Steady id n cached bounds) (other : DefId) :
    (cx.enterItems other).Steady id n cached bounds := by
  obtain ⟨stack, eq⟩ := cx.enterItems_eq other
  refine h.of_eq (cx.enterItems_keys other) ?_ ?_ <;> rw [eq]

/-! ## Traits other than the one -/

theorem Steady.beginResolving (h : cx.Steady id n cached bounds) :
    (cx.beginResolving other).Steady id n cached bounds where
  begun := begun_beginResolving.2 (Or.inr h.begun)
  cached := h.cached
  bounds := h.bounds

theorem Steady.insertTrait (h : cx.Steady id n cached bounds) (t : TraitRef)
    (apart : id ≠ other) : (cx.insertTrait other t).Steady id n cached bounds where
  begun := (begun_insertTrait_of_ne t apart).2 h.begun
  cached := (trait?_insertTrait_of_ne t apart).trans h.cached
  bounds := h.bounds

theorem Fitting.beginResolving (h : cx.Fitting id receiver) (apart : id ≠ other) :
    (cx.beginResolving other).Fitting id receiver := by
  cases h with
  | fresh notBegun bare =>
      refine .fresh (fun begun => ?_) bare
      exact (begun_beginResolving.1 begun).elim apart notBegun
  | built steady => exact .built steady.beginResolving

theorem Fitting.insertTrait (h : cx.Fitting id receiver) (t : TraitRef) (apart : id ≠ other) :
    (cx.insertTrait other t).Fitting id receiver := by
  cases h with
  | fresh notBegun bare => exact .fresh (mt (begun_insertTrait_of_ne t apart).1 notBegun) bare
  | built steady => exact .built (steady.insertTrait t apart)

/-! ## The trait itself -/

/-- A trait that is begun is on the stack, with a bare receiver. -/
theorem steady_beginResolving (notBegun : ¬cx.Begun id) (bare : cx.bounds.get? n = none) :
    (cx.beginResolving id).Steady id n none none where
  begun := begun_beginResolving.2 (Or.inl rfl)
  cached := cx.trait?_eq_none_iff.2 fun mem => notBegun (Or.inr mem)
  bounds := bare

theorem Steady.cache (h : cx.Steady id n none bounds) (t : TraitRef) :
    (cx.insertTrait id t).Steady id n (some t) bounds where
  begun := Or.inr (Table.mem_keys_insert.2 (Or.inl rfl))
  cached := by
    show (cx.cache.insert id t).get? id = some t
    rw [Table.get?_insert, if_pos rfl]
  bounds := h.bounds

/-- A bare node gets the bounds that are attached first. -/
theorem Steady.addBounds (h : cx.Steady id n none none) (ps : List Predicate) :
    (cx.addBounds n (Bounds.addAll {} ps).toList).Steady id n none (some (Bounds.addAll {} ps)) where
  begun := h.begun
  cached := h.cached
  bounds := by
    rw [Context.addBounds, Table.get?_insert, if_pos rfl, h.bounds, Option.getD_none,
      Bounds.addAll_toList]

end Context

open Context

section

variable {resolve : Resolver} {keeps : Context → Prop} {n : NodeId} (keeping : resolve.Keeps keeps)
  (depends : ∀ {cx cx' : Context}, keeps cx → cx'.stack.keys = cx.stack.keys →
    cx'.cache = cx.cache → cx'.bounds.get? n = cx.bounds.get? n → keeps cx')

include keeping depends

/-- What depends on the stack, the cache and the bounds of one node is kept by records for other
nodes. -/
theorem Resolver.Keeps.records_apart : resolve.Records keeps (n ≠ ·) where
  toKeeps := keeping
  insertType := fun _ _ kept => depends kept rfl rfl rfl
  addBounds := fun ps apart kept => depends kept rfl rfl (get?_addBounds_of_ne ps apart)

/-- So it is kept while a trait is resolved that goes on and off the stack unnoticed. -/
theorem Resolver.Keeps.builds_apart {other : DefId}
    (beginResolving : ∀ {cx : Context}, keeps cx → keeps (cx.beginResolving other))
    (insertTrait : ∀ {cx : Context} (t : TraitRef), keeps cx → keeps (cx.insertTrait other t)) :
    resolve.Builds keeps (n ≠ ·) other where
  toRecords := keeping.records_apart depends
  beginResolving := beginResolving
  setPending := fun _ _ kept => depends kept rfl rfl rfl
  enterItems := by
    intro cx id kept
    obtain ⟨stack, eq⟩ := cx.enterItems_eq id
    refine depends kept (cx.enterItems_keys id) ?_ ?_ <;> rw [eq]
  insertTrait := insertTrait
  takeDeferred := fun _ kept => depends kept rfl rfl rfl
  markBodiesResolved := fun _ kept => depends kept rfl rfl rfl

end

namespace Lowering

variable {tree : ItemTree} {resolve : Resolver} {cx : Context} {id : DefId} {receiver : Param}

/-! ## Building the trait -/

section

variable (keeping : ∀ cached bounds, resolve.Keeps (Steady id receiver.node cached bounds))
  {decl : TraitDecl} {self : TypeParam} {others : List TypeParam}

include keeping

/-- At its first stage a trait attaches itself and its super-traits to its receiver. -/
theorem buildSupers_receiver (steady : cx.Steady id receiver.node none none)
    (own : self.toParam = receiver) (scope : Scope) :
    Ends AnyFault (buildSupers tree resolve scope decl self (self :: others)) cx fun out cx' =>
      cx'.Steady id receiver.node none (some (Bounds.addAll {}
        ((Predicate.ofParams decl.id out.1 decl.span).bindReceiver (.param receiver) ::
          out.2))) := by
  subst own
  simp only [buildSupers, ends_bind, ends_modify, ends_pure]
  refine (ends_forIn _ _ steady fun p _ cx₁ steady => ?_).mono fun _ cx₁ steady => ?_
  · simp only [ends_bind, ends_modify, ends_pure]
    exact ⟨trivial, steady.of_eq rfl rfl rfl⟩
  · refine (lowerFallbacks_keeps (keeping none none) scope _ steady).mono
      fun params cx₂ steady => ?_
    have pending : (cx₂.setPending decl.id params).Steady id self.node none none :=
      steady.of_eq rfl rfl rfl
    refine (lowerBounds_keeps (keeping none none) scope true _ _ pending).mono
      fun supers cx₃ steady => ?_
    exact steady.addBounds _

/-- A trait that is built leaves its receiver with the bounds of its reference. -/
theorem buildTrait_receiver (steady : cx.Steady id receiver.node none none)
    (receives : tree.Receives id receiver) (declared : tree.trait? id = some decl) :
    Ends AnyFault (buildTrait tree resolve decl) cx fun t cx' =>
      cx'.Steady id receiver.node none (some (t.receiverBounds (.param receiver))) := by
  rw [buildTrait]
  cases split : decl.splitReceiver? with
  | none => exact trivial
  | some parts =>
      obtain ⟨self, others⟩ := parts
      have own : self.toParam = receiver := receives.split decl _ declared split
      have node : self.node = receiver.node := congrArg Param.node own
      simp only [ends_bind, ends_modify, ends_pure]
      refine (buildSupers_receiver keeping steady own _).mono fun out cx₁ steady => ?_
      have records (bounds : Bounds) : resolve.Records
          (Steady id receiver.node none (some bounds)) (receiver.node ≠ ·) :=
        (keeping none (some bounds)).records_apart Steady.of_eq
      refine buildItems_records (records _) _ (steady.enterItems decl.id) out.1
        (fun p _ other => node ▸ other.symm) fun item mem n there same => ?_
      exact receives.items decl declared item mem (same ▸ there)

end

/-! ## Every resolution -/

/-- Once the trait is begun, no request touches the bounds of its receiver. -/
theorem resolveWithin_steady (receives : tree.Receives id receiver) (cached : Option TraitRef)
    (bounds : Option Bounds) (depth : Nat) :
    (resolveWithin tree depth).Keeps (Steady id receiver.node cached bounds) := by
  refine resolveWithin_keeps ?_ (fun _ _ steady => steady.of_eq rfl rfl rfl) ?_ depth
  · exact fun _ steady => steady.report _
  · intro depth other decl cx keeping declared notOpen notCached steady
    have apart : id ≠ other := by
      rintro rfl
      exact steady.begun.elim notOpen notCached
    have builds : (resolveWithin tree depth).Builds (Steady id receiver.node cached bounds)
        (receiver.node ≠ ·) other :=
      keeping.builds_apart Steady.of_eq Steady.beginResolving
        fun t steady => steady.insertTrait t apart
    exact resolveNew_keeps builds
      (fun n mem same => apart (receives.alone other decl declared (same ▸ mem)).symm) steady

/-- Between requests a trait is fitting. -/
theorem resolveWithin_fitting (receives : tree.Receives id receiver) (depth : Nat) :
    (resolveWithin tree depth).Keeps (Fitting id receiver) := by
  refine resolveWithin_keeps ?_ (fun _ _ fitting => fitting.of_eq rfl rfl rfl) ?_ depth
  · exact fun _ fitting => fitting.report _
  · intro depth other decl cx keeping declared notOpen notCached fitting
    by_cases apart : id = other
    · subst apart
      cases fitting with
      | built steady => exact absurd steady.begun (not_or.2 ⟨notOpen, notCached⟩)
      | fresh notBegun bare =>
          have steady := resolveWithin_steady receives
          simp only [resolveNew, ends_bind, ends_modify, ends_get, ends_pure]
          refine (buildTrait_receiver (fun cached bounds => steady cached bounds depth)
            (steady_beginResolving notBegun bare) receives declared).mono fun t cx₁ built => ?_
          refine (finishTrait_keeps (steady _ _ depth) (fun kept => kept.of_eq rfl rfl rfl)
            (fun kept => kept.of_eq rfl rfl rfl) (built.cache t) t).mono fun _ _ done => ?_
          exact .built done
    · have builds : (resolveWithin tree depth).Builds (Fitting id receiver) (receiver.node ≠ ·)
          other :=
        keeping.builds_apart Fitting.of_eq (fun fitting => fitting.beginResolving apart)
          fun t fitting => fitting.insertTrait t apart
      exact resolveNew_keeps builds
        (fun n mem same => apart (receives.alone other decl declared (same ▸ mem)).symm) fitting

end Lowering

/-! ## Sessions -/

namespace ItemTree

variable {tree : ItemTree} {id : DefId} {receiver : Param} {cx : Context}

/-- A request leaves a receiver alone whose node it does not bring along. -/
theorem run_fitting (receives : tree.Receives id receiver) (request : Request)
    (unbrought : receiver.node ∉ request.brought) (fitting : cx.Fitting id receiver) :
    Ends AnyFault (request.run tree) cx fun _ cx' => cx'.Fitting id receiver := by
  have records : tree.resolveDef.Records (Fitting id receiver) (receiver.node ≠ ·) :=
    (Lowering.resolveWithin_fitting receives _).records_apart Fitting.of_eq
  refine run_records records (fun p fitting => fitting.report p) ?_
    (fun fitting => fitting.of_eq rfl rfl rfl) fitting request ?_
  · exact fun block mem n there same => receives.impls block mem (same ▸ there)
  · exact fun n there same => unbrought (same ▸ there)

/-- In a declared tree a node belongs to one trait and to one place of it, and not to an
implementation. -/
theorem receives_of_split (housed : tree.Housed) (parted : tree.Parted) {decl : TraitDecl}
    (declared : tree.trait? id = some decl) {self : TypeParam} {others : List TypeParam}
    (split : decl.splitReceiver? = some (self, others)) : tree.Receives id self.toParam := by
  have mine : self ∈ decl.typeParams :=
    TraitDecl.mem_typeParams_of_split split self List.mem_cons_self
  have owns : tree.Owns id self.node := ⟨decl, declared, decl.node_mem_nodes mine⟩
  constructor
  · intro other decl' declared' mem
    exact housed.apart other id self.node ⟨decl', declared', mem⟩ owns
  · intro decl' parts declared' split'
    cases declared.symm.trans declared'
    cases split.symm.trans split'
    rfl
  · intro decl' declared' item mem there
    cases declared.symm.trans declared'
    exact parted id decl declared self.node (GenericParam.node_mem_of_type mine)
      (List.mem_flatMap.2 ⟨item, mem, there⟩)
  · exact fun block mem there => (housed.impls block mem self.node there).2 id owns

/-- What holds of a receiver once everything is declared held before. -/
theorem Receives.treeAfter {step : Step} (h : (step.treeAfter tree).Receives id receiver) :
    tree.Receives id receiver := by
  have later {other : DefId} {decl : TraitDecl} (declared : tree.trait? other = some decl) :
      (step.treeAfter tree).trait? other = some decl :=
    trait?_of_extends (tree.treeAfter_extends step) declared
  refine ⟨fun other decl declared => h.alone other decl (later declared),
    fun decl parts declared => h.split decl parts (later declared),
    fun decl declared => h.items decl (later declared), fun block mem => h.impls block ?_⟩
  cases step with
  | request request => exact mem
  | declare declaration =>
      cases declaration with
      | impl self clauses => exact Array.mem_push_of_mem _ mem
      | _ => exact mem

theorem Receives.of_after {steps : List Step} (h : (tree.after steps).Receives id receiver) :
    tree.Receives id receiver := by
  induction steps generalizing tree with
  | nil => exact h
  | cons step rest ih => exact (ih h).treeAfter

end ItemTree

namespace Session

variable {id : DefId} {receiver : Param}

/-- Steps that do not bring the node of a receiver along leave its trait unbegun or cached, with the
bounds of its reference. -/
theorem performAll_fitting (steps : List Step) : ∀ {s s' : Session} {handed : List Problem},
    (s.tree.after steps).Receives id receiver → receiver.node ∉ steps.flatMap Step.brought →
    s.context.Fitting id receiver → s.performAll steps = .ok (handed, s') →
    s'.context.Fitting id receiver := by
  induction steps with
  | nil =>
      intro s s' handed _ _ fitting ran
      cases ran
      exact fitting
  | cons step rest ih =>
      intro s s' handed receives unbrought fitting ran
      obtain ⟨first, s₁, later, performed, rested, -⟩ := performAll_cons ran
      rw [List.flatMap_cons, List.mem_append, not_or] at unbrought
      have receives₁ : (s₁.tree.after rest).Receives id receiver := by
        rw [tree_of_perform performed]
        exact receives
      refine ih receives₁ unbrought.2 ?_ rested
      cases step with
      | declare declaration =>
          cases performed
          exact fitting
      | request request =>
          simp only [perform, run, bind, Except.bind] at performed
          split at performed
          · cases performed
          · rename_i out requested
            cases performed
            exact (ItemTree.run_fitting receives.of_after request unbrought.1
              fitting).of_eq_ok requested

end Session

end TraitEngine
