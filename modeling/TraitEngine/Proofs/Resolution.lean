import TraitEngine.Proofs.Lowering
import Mathlib.Data.List.Count
/-!
# Resolving a trait is a trip

A trait is put on the stack, built and cached, and the checks that waited for it
are made. Its building is two trips, one at each stage (`Built`); afterwards the
stack is as before. Each nested request that builds a trait finds one trait less
untouched, so requests never nest deeper than there are items: `resolveWithin`
at the depth of the number of items never runs out
(`resolveWithin_resolves`).
-/

namespace TraitEngine

set_option autoImplicit false

open Check Journal

namespace ItemTree

variable (tree : ItemTree)

/-- What building the reference of `id` above `base` does, and what is known of the
reference while the trait is still on the stack. -/
structure Built (cx cx' : Context) (base : List (DefId × ResolveStage)) (id : DefId)
    (t : TraitRef) : Prop where
  moves : tree.Moves cx cx'
  stack : cx'.stack.entries = base ++ [(id, .items)]
  deferred : ∀ e ∈ cx'.deferred, e ∈ cx.deferred ∨ e.1 ∈ cx.stack.keys
  unfinished : ∀ id, cx'.states.get? id = some .cached ↔ cx.states.get? id = some .cached
  own : t.id = some id
  params : t.params ≠ []
  kept : ∀ p ∈ t.supers, tree.KeptSuper cx' base id p
  all : ∀ path super, tree.SuperBound id path super → tree.Accounted cx'.problems t path super

/-- What the checks that waited for the cached trait `id` do. -/
structure Finished (cx cx' : Context) (id : DefId) : Prop where
  moves : tree.Moves cx cx'
  stack : cx'.stack = cx.stack
  deferred : ∀ e ∈ cx'.deferred, e ∈ cx.deferred ∧ e.1 ≠ id ∨ e.1 ∈ cx.stack.keys
  unfinished : ∀ id', cx'.states.get? id' = some .cached ↔
    id' ≠ id ∧ cx.states.get? id' = some .cached

variable {tree} {cx cx₁ : Context}

/-! ## The stack while a trait is built -/

/-- A super-trait bound that closes no cycle leads to a trait that is separated from
the top of the stack by one at its items. -/
theorem lateAbove_of_noCycle {base : List (DefId × ResolveStage)} {id super : DefId}
    (top : cx.stack.entries = base ++ [(id, .supers)]) (waits : super ∈ cx.stack.keys)
    (noCycle : cx.superTraitCycle? super = none) : LateAbove base super := by
  obtain ⟨below, stage, above, whole, checked⟩ := cx.superTraitCycle?_split waits
  have late : ∃ e ∈ (super, stage) :: above, e.2 = .items := by
    by_contra none
    have early : ((super, stage) :: above).all (fun e => e.2 = .supers) = true := by
      rw [List.all_eq_true]
      intro e mem
      cases at_ : e.2 with
      | supers => rfl
      | items => exact absurd ⟨e, mem, at_⟩ none
    rw [checked, if_pos early] at noCycle
    cases noCycle
  -- the trait at its items is not the top, which is at its super-traits
  rw [top] at whole
  rcases List.eq_nil_or_concat above with rfl | ⟨middle, last, rfl⟩
  · obtain ⟨e, mem, at_⟩ := late
    obtain ⟨-, same⟩ := List.append_inj' whole rfl
    rw [List.mem_singleton.1 mem, ← List.singleton_inj.1 same] at at_
    cases at_
  · rw [List.concat_eq_append, ← List.cons_append, ← List.append_assoc] at whole
    obtain ⟨rfl, same⟩ := List.append_inj' whole rfl
    obtain rfl := List.singleton_inj.1 same
    obtain ⟨e, mem, at_⟩ := late
    rw [List.concat_eq_append, ← List.cons_append, List.mem_append, List.mem_singleton] at mem
    refine ⟨below, stage, middle, rfl, e, mem.resolve_right ?_, at_⟩
    rintro rfl
    cases at_

/-- Beginning a trait leaves one trait less untouched. -/
theorem untouched_beginResolving_lt {id : DefId} {decl : TraitDecl}
    (declared : tree.trait? id = some decl) (notOpen : id ∉ cx.stack.keys)
    (notCached : id ∉ cx.cache.keys) :
    tree.untouched (cx.beginResolving id) < tree.untouched cx := by
  have left (other : DefId) : (other ∉ (cx.beginResolving id).stack.keys ∧
      other ∉ (cx.beginResolving id).cache.keys) ↔
      other ≠ id ∧ other ∉ cx.stack.keys ∧ other ∉ cx.cache.keys := by
    show (other ∉ (cx.stack.insert id .supers).keys ∧ other ∉ cx.cache.keys) ↔ _
    rw [Table.mem_keys_insert, not_or, and_assoc]
  have whole : tree.untouched (cx.beginResolving id) =
      (tree.ids.filter fun id => id ∉ cx.stack.keys ∧ id ∉ cx.cache.keys).countP
        fun other => other ≠ id := by
    rw [untouched, List.countP_filter]
    refine List.countP_congr fun other _ => ?_
    simp [left]
  have counted : tree.untouched cx =
      (tree.ids.filter fun id => id ∉ cx.stack.keys ∧ id ∉ cx.cache.keys).length :=
    List.countP_eq_length_filter
  rw [whole, counted, List.countP_lt_length_iff]
  refine ⟨id, List.mem_filter.2 ⟨mem_ids_of_trait? declared, ?_⟩, by simp⟩
  simp [notOpen, notCached]

/-- A trait may be begun if it is new and there is room. -/
theorem Ready.beginResolving {depth : Nat} (ready : tree.Ready (depth + 1) cx) {id : DefId}
    {decl : TraitDecl} (declared : tree.trait? id = some decl)
    (receiver : decl.splitReceiver?.isSome) (notOpen : id ∉ cx.stack.keys)
    (notCached : id ∉ cx.cache.keys) (room : cx.depth < cx.limit) (asked : tree.Admits cx id) :
    tree.Move cx (cx.beginResolving id) ∧ tree.Ready depth (cx.beginResolving id) := by
  have begun : tree.Move cx (cx.beginResolving id) :=
    .beginResolving declared receiver notOpen notCached room asked
  exact ⟨begun, {
    numbered := ready.numbered
    coherent := begun.coherent ready.coherent
    few := Nat.lt_of_lt_of_le (untouched_beginResolving_lt declared notOpen notCached)
      (Nat.le_of_lt_succ ready.few) }⟩

/-- The deferred checks of a trait leave the stack and the cache alone. -/
theorem Ready.checkDeferred {depth : Nat} (ready : tree.Ready depth cx) {id : DefId}
    {t : TraitRef} (check : tree.Move cx (cx.checkDeferred id t)) :
    tree.Ready depth (cx.checkDeferred id t) where
  numbered := ready.numbered
  coherent := check.coherent ready.coherent
  few := by
    obtain ⟨problems, eq, -⟩ := cx.checkDeferred_eq id t
    rw [eq]
    exact ready.few

/-- The traits that are on the stack and the cache stay when one goes on to its items. -/
theorem ready_enterItems {depth : Nat} (ready : tree.Ready depth cx)
    (id : DefId) :
    tree.Ready depth (cx.enterItems id) where
  numbered := ready.numbered
  coherent := ready.coherent.enterItems id
  few := by
    refine Nat.lt_of_le_of_lt (untouched_mono fun other touched => ?_) ready.few
    have keys := cx.enterItems_keys id
    obtain ⟨stack, eq⟩ := cx.enterItems_eq id
    rw [eq] at keys ⊢
    exact touched.imp_left fun waits => keys ▸ waits

/-! ## The trait that is built is cached -/

namespace Built

variable {cx₂ cx₃ : Context} {id : DefId} {t : TraitRef}
  (built : tree.Built (cx.beginResolving id) cx₂ cx.stack.entries id t)

include built

theorem notCached (coherent : tree.Coherent (cx.beginResolving id)) : id ∉ cx₂.cache.keys :=
  (built.moves.coherent coherent).notCached_of_open (by simp [Table.keys, built.stack])

theorem insertTrait (coherent : tree.Coherent (cx.beginResolving id))
    (notOpen : id ∉ cx.stack.keys) : tree.Move cx₂ (cx₂.insertTrait id t) :=
  .insertTrait built.stack notOpen (built.notCached coherent) built.own built.params built.kept
    built.all

theorem stack_insertTrait (notOpen : id ∉ cx.stack.keys) :
    (cx₂.insertTrait id t).stack = cx.stack :=
  Table.erase_last built.stack notOpen

theorem trait?_insertTrait (coherent : tree.Coherent (cx.beginResolving id)) :
    (cx₂.insertTrait id t).trait? id = some t := by
  show (cx₂.cache.insert id t).get? id = some t
  rw [Table.get?_insert_of_new (built.notCached coherent), if_pos rfl]

/-- The trait goes from the stack to the cache, so it stays touched. -/
theorem ready_insertTrait {depth : Nat} (ready : tree.Ready depth (cx.beginResolving id))
    (notOpen : id ∉ cx.stack.keys) : tree.Ready depth (cx₂.insertTrait id t) where
  numbered := ready.numbered
  coherent := (built.insertTrait ready.coherent notOpen).coherent
    (built.moves.coherent ready.coherent)
  few := by
    have moves := built.moves.tail (built.insertTrait ready.coherent notOpen)
    refine Nat.lt_of_le_of_lt (untouched_mono fun other touched => ?_) ready.few
    rw [built.stack_insertTrait notOpen]
    rcases touched with waits | cached
    · rcases Table.mem_keys_insert.1 waits with rfl | waits
      · exact Or.inr (Table.mem_keys_of_get? (built.trait?_insertTrait ready.coherent))
      · exact Or.inl waits
    · exact Or.inr (Moves.mem_cache moves cached)

/-- From the moment before the trait was begun to the one after its checks. -/
theorem trip (coherent : tree.Coherent cx) (begun : tree.Move cx (cx.beginResolving id))
    (notOpen : id ∉ cx.stack.keys) (notCached : id ∉ cx.cache.keys)
    (finished : tree.Finished (cx₂.insertTrait id t) cx₃ id) : tree.Trip cx cx₃ where
  moves := by
    have insert := built.insertTrait (begun.coherent coherent) notOpen
    exact ((Relation.ReflTransGen.head begun built.moves).tail insert).trans finished.moves
  stack := finished.stack.trans (built.stack_insertTrait notOpen)
  deferred := by
    intro e mem
    rcases finished.deferred e mem with ⟨mem, other⟩ | waits
    · refine (built.deferred e mem).imp_right fun waits => ?_
      exact (Table.mem_keys_insert.1 waits).resolve_left other
    · exact Or.inr (built.stack_insertTrait notOpen ▸ waits)
  unfinished := by
    intro other
    rw [finished.unfinished]
    show other ≠ id ∧ (cx₂.states.record id .cached).get? other = _ ↔ _
    by_cases same : id = other
    · subst same
      rw [coherent.nested.get?_eq_none notOpen notCached]
      simp
    · rw [get?_record_of_ne _ _ same, built.unfinished]
      show _ ∧ (cx.states.record id .resolving).get? other = _ ↔ _
      rw [get?_record_of_ne _ _ same]
      exact ⟨And.right, fun h => ⟨Ne.symm same, h⟩⟩

end Built

end ItemTree

namespace Lowering

open ItemTree

variable {tree : ItemTree} {resolve : Resolver} {cx cx₁ : Context} {depth : Nat}

/-! ## Building -/

section

variable {inv : Upkeep} (serves : tree.Serves inv depth resolve)

include serves

/-- The super-trait bounds are lowered when the parameters are known, and the trait may ask for
what they mention. -/
theorem ends_buildSupers (ready : tree.Ready depth cx) {decl : TraitDecl}
    (declared : tree.trait? decl.id = some decl) {receiver : TypeParam} {others : List TypeParam}
    (split : decl.splitReceiver? = some (receiver, others))
    (top : cx.stack.entries.getLast? = some (decl.id, .supers)) (scope : Scope)
    {post : List TraitParam × List Predicate → Context → Prop}
    (bounds : ∀ params cx₁, tree.Tour inv cx cx₁ → params ≠ [] →
      tree.AdmitsAll cx₁ (decl.superPaths.flatMap TypePath.mentions) →
      (∀ path ∈ decl.superPaths, tree.AtSuperBound cx₁ path) →
        Ends tree.Faults (lowerBounds tree resolve scope true (.param receiver.toParam)
          decl.superPaths) cx₁ fun supers cx₂ => post (params, supers)
            (cx₂.addBounds receiver.node (Bounds.addAll {} ((Predicate.ofParams decl.id params
              decl.span).bindReceiver (.param receiver.toParam) :: supers)).toList)) :
    Ends tree.Faults (buildSupers tree resolve scope decl receiver (receiver :: others)) cx
      post := by
  have early := admitsAll_of_top top declared
  have waits : decl.id ∈ cx.stack.keys :=
    Table.mem_keys_iff.2 ⟨_, List.mem_of_getLast? top⟩
  have paths : (decl.supers ++ receiver.bounds).filterMap Bound.trait? = decl.superPaths := by
    simp [TraitDecl.superPaths, split]
  have start : tree.Tour inv cx cx := .refl cx
  simp only [buildSupers, ends_bind]
  refine (ends_forIn _ _ start fun p _ cx₁ tour => ?_).mono fun _ cx₁ tour => ?_
  · simp only [ends_bind, ends_modify, ends_pure]
    exact ⟨trivial, tour.insertType p.node _⟩
  -- The receiver stands in front, but all of them are parameters of the declaration.
  have fallbacks : tree.AdmitsAll cx ((receiver :: others).flatMap TypeParam.fallbackMentions) := by
    refine early.left.mono fun path mem => ?_
    obtain ⟨p, declared, mentioned⟩ := List.mem_flatMap.1 mem
    exact List.mem_flatMap.2 ⟨p, TraitDecl.mem_typeParams_of_split split p declared, mentioned⟩
  refine (serves.passage.lowerFallbacks_goes _ (receiver :: others)
    (serves.asksAll ready fallbacks tour)).mono fun params cx₂ lowered => ?_
  obtain ⟨later, counted⟩ := lowered
  replace tour := tour.trans later
  have some : params ≠ [] := by
    rw [← List.length_pos_iff, counted]
    exact Nat.succ_pos _
  replace tour := tour.setPending (tour.trip.stack ▸ waits) some
  simp only [ends_modify, ends_pure, paths]
  refine bounds params _ tour some (tour.trip.admitsAll early.right) fun path written e last => ?_
  rw [tour.trip.stack, top] at last
  cases last
  exact ⟨rfl, decl, declared, written⟩

/-- At its first stage a trait learns its parameters, of which it has at least one, and
its super-traits. -/
theorem buildSupers_tours (ready : tree.Ready depth cx) {decl : TraitDecl}
    (declared : tree.trait? decl.id = some decl) {receiver : TypeParam} {others : List TypeParam}
    (split : decl.splitReceiver? = some (receiver, others))
    (top : cx.stack.entries.getLast? = some (decl.id, .supers)) (scope : Scope) :
    Ends tree.Faults (buildSupers tree resolve scope decl receiver (receiver :: others)) cx
      fun out cx' => tree.Tour inv cx cx' ∧ out.1 ≠ [] ∧
        tree.LoweredBounds cx' true decl.superPaths out.2 := by
  refine ends_buildSupers serves ready declared split top scope
    fun params cx₁ tour some asked super => ?_
  refine (lowerBounds_tours _ serves true _ decl.superPaths (tour.trip.ready ready) asked
    fun _ => super).mono fun supers cx₂ lowered => ?_
  obtain ⟨later, bounds⟩ := lowered
  exact ⟨(tour.trans later).addBounds _ _, some, bounds.trip ((Trip.refl cx₂).addBounds _ _)⟩

/-- The second stage asks for what the other parameters and the items mention. -/
theorem buildItems_tours (ready : tree.Ready depth cx) {decl : TraitDecl}
    (declared : tree.trait? decl.id = some decl) {receiver : TypeParam} {others : List TypeParam}
    (split : decl.splitReceiver? = some (receiver, others))
    (top : cx.stack.entries.getLast? = some (decl.id, .items)) (scope : Scope)
    (params : List TraitParam) :
    Ends tree.Faults (buildItems tree resolve scope decl receiver params) cx fun _ cx' =>
      tree.Tour inv cx cx' := by
  have late := admitsAll_of_top top declared
  refine serves.passage.buildItems_goes scope params (fun p mem other => ?_)
    (serves.asksAll ready late.right (.refl cx)) fun _ _ n _ => serves.records n
  have own : p ∈ decl.ownParams := by
    simp only [TraitDecl.ownParams, split]
    exact List.mem_filter.2 ⟨mem, by simpa using other⟩
  exact ⟨serves.asksAll ready (late.left.flatMap own) (.refl cx), serves.records p.node⟩

theorem buildTrait_tours (ready : tree.Ready depth cx) {decl : TraitDecl}
    (declared : tree.trait? decl.id = some decl) {receiver : TypeParam} {others : List TypeParam}
    (split : decl.splitReceiver? = some (receiver, others))
    {base : List (DefId × ResolveStage)} (top : cx.stack.entries = base ++ [(decl.id, .supers)]) :
    Ends tree.Faults (buildTrait tree resolve decl) cx fun t cx' =>
      tree.Built cx cx' base decl.id t ∧ (inv.Holds cx → inv.Holds cx') := by
  have notBelow := ready.coherent.notBelow top
  simp only [buildTrait, split, ends_bind]
  refine (buildSupers_tours serves ready declared split (by simp [top]) _).mono
    fun out cx₁ first => ?_
  obtain ⟨⟨early, kept₁⟩, some, bounds⟩ := first
  have top₁ : cx₁.stack.entries = base ++ [(decl.id, .supers)] := by rw [early.stack, top]
  have stack₂ := Context.enterItems_entries top₁ notBelow
  have enter : tree.Move cx₁ (cx₁.enterItems decl.id) := .enterItems top₁ notBelow
  obtain ⟨stack, only⟩ := cx₁.enterItems_eq decl.id
  simp only [ends_modify]
  refine (buildItems_tours serves (ready_enterItems (early.ready ready) decl.id) declared split
    (by simp [stack₂]) _ out.1).mono fun items cx₃ ended => ?_
  obtain ⟨late, kept₂⟩ := ended
  have keys : (cx₁.enterItems decl.id).stack.keys = cx.stack.keys := by
    rw [cx₁.enterItems_keys, early.stack]
  have since : tree.Moves cx₁ cx₃ := .head enter late.moves
  rw [ends_pure]
  refine ⟨?_, kept₂ ∘ inv.enterItems decl.id ∘ kept₁⟩
  exact {
    moves := early.moves.trans since
    stack := by rw [late.stack, stack₂]
    deferred := by
      intro e mem
      rcases late.deferred e mem with mem | waits
      · rw [only] at mem
        exact early.deferred e mem
      · exact Or.inr (keys ▸ waits)
    unfinished := by
      intro id
      rw [late.unfinished, only]
      exact early.unfinished id
    own := rfl
    params := some
    kept := by
      intro p mem
      obtain ⟨fine, path, written, lowered⟩ := bounds.kept p mem
      obtain ⟨super, named, own, span, place⟩ := lowered.lowered fine
      refine ⟨path, super, ⟨⟨decl, declared, written⟩, named⟩, own, span, ?_⟩
      -- Where a bound on a waiting trait closes no cycle, some trait from that one on is at its
      -- items.
      rcases place with cached | ⟨waits, noCycle⟩
      · exact Or.inl (since.mem_cache cached)
      · exact Or.inr (lateAbove_of_noCycle top₁ waits (noCycle rfl))
    all := by
      rintro path super ⟨⟨decl', declared', written⟩, named⟩
      obtain rfl := Option.some.inj (declared.symm.trans declared')
      exact (bounds.all path written super named).imp_right fun refused =>
        refused.mono since.problems }

/-! ## Default bodies -/

/-- An invariant that every report keeps is kept while the default bodies are checked. -/
theorem checkBodies_tours (ready : tree.Ready depth cx)
    (report : ∀ {cx : Context} (p : Problem), inv.Holds cx → inv.Holds (cx.report p))
    (scope : Scope) (decl : TraitDecl) (asked : tree.AdmitsAll cx decl.bodyMentions)
    (tour : tree.Tour inv cx cx₁) :
    Ends tree.Faults (checkBodies tree resolve scope decl) cx₁ fun _ cx₂ =>
      tree.Tour inv cx cx₂ :=
  (serves.passage.checkBodies_goes scope
    (fun _ body cx₂ => ⟨(Trip.refl cx₂).report (Problem.isCycle_of_isUnknownItem body), report _⟩)
    (serves.asksAll ready asked tour)).mono fun _ _ later => tour.trans later

end

section

variable (resolves : tree.Resolves depth resolve)

include resolves

/-! ## The checks that waited -/

omit resolves in
/-- First the deferred checks are made, then the default bodies are checked. -/
theorem ends_finishTrait {faults : Fault → Prop} {decl : TraitDecl} {t : TraitRef}
    {post : Unit → Context → Prop} :
    Ends faults (finishTrait tree resolve decl t) cx post ↔
      Ends faults (checkBodies tree resolve ⟨t.params.map TraitParam.param⟩ decl)
        (cx.checkDeferred decl.id t) fun _ cx' => post () (cx'.markBodiesResolved decl.id) := by
  simp only [finishTrait, ends_bind, ends_modifyGet]
  exact ends_forIn_foldl (fun cx span => (t.checkObjectSafety true span cx).2) _
    (fun _ _ => rfl) _

theorem checkBodies_ends (ready : tree.Ready depth cx) (scope : Scope) (decl : TraitDecl)
    (asked : tree.AdmitsAll cx decl.bodyMentions) (trip : tree.Trip cx cx₁) :
    Ends tree.Faults (checkBodies tree resolve scope decl) cx₁ fun _ cx₂ =>
      tree.Trip cx cx₂ :=
  (checkBodies_tours resolves.serves ready (fun _ _ => trivial) scope decl asked trip.tour).mono
    fun _ _ tour => tour.trip

/-- What waited for a cached trait is done, and nothing waits for it any more. -/
theorem finishTrait_ends (ready : tree.Ready depth cx) {decl : TraitDecl}
    (asked : tree.AdmitsAll cx decl.bodyMentions)
    (waited : cx.states.get? decl.id = some .cached) {t : TraitRef}
    (found : cx.trait? decl.id = some t) :
    Ends tree.Faults (finishTrait tree resolve decl t) cx fun _ cx' =>
      tree.Finished cx cx' decl.id := by
  have check : tree.Move cx (cx.checkDeferred decl.id t) := .checkDeferred waited found
  have ready₁ := ready.checkDeferred check
  obtain ⟨problems, eq, -⟩ := cx.checkDeferred_eq decl.id t
  rw [ends_finishTrait]
  rw [eq] at check ready₁ ⊢
  refine (checkBodies_ends resolves ready₁ _ decl asked (.refl _)).mono fun _ cx₂ trip => ?_
  have waited₂ : cx₂.states.get? decl.id = some .cached := (trip.unfinished decl.id).2 waited
  have remaining : ∀ e ∈ cx₂.deferred,
      e ∈ cx.deferred ∧ e.1 ≠ decl.id ∨ e.1 ∈ cx.stack.keys := by
    intro e mem
    refine (trip.deferred e mem).imp_left fun mem => ?_
    simpa using List.mem_filter.1 mem
  have done : ∀ e ∈ cx₂.deferred, e.1 ≠ decl.id := by
    intro e mem same
    rcases remaining e mem with ⟨-, other⟩ | waits
    · exact other same
    · rw [ready.coherent.nested.get?_of_open (same ▸ waits)] at waited
      cases waited
  have moves : tree.Moves cx cx₂ := .head check trip.moves
  refine ⟨moves.tail (.markBodiesResolved waited₂ done), trip.stack, remaining, fun id => ?_⟩
  show (cx₂.states.record decl.id .bodiesResolved).get? id = _ ↔ _
  by_cases same : decl.id = id
  · subst same
    simp
  · rw [get?_record_of_ne _ _ same, trip.unfinished]
    exact ⟨fun h => ⟨Ne.symm same, h⟩, And.right⟩

/-- A trait that is resolved anew is a trip to its own reference. -/
theorem resolveNew_ends {id : DefId} {decl : TraitDecl} (ready : tree.Ready (depth + 1) cx)
    (declared : tree.trait? id = some decl) (notOpen : id ∉ cx.stack.keys)
    (notCached : id ∉ cx.cache.keys) (room : cx.depth < cx.limit) (asked : tree.Admits cx id) :
    Ends tree.Faults (resolveNew tree resolve id decl) cx fun t cx' =>
      tree.Trip cx cx' ∧ t.isError = false ∧ cx'.trait? id = some t := by
  obtain rfl := ready.numbered id decl declared
  simp only [resolveNew, ends_bind, ends_modify]
  cases split : decl.splitReceiver? with
  | none =>
      simp only [buildTrait, split, ends_throw]
      exact ⟨decl.id, decl, declared, split, rfl⟩
  | some receiver =>
      obtain ⟨begun, ready₁⟩ :=
        ready.beginResolving declared (by simp [split]) notOpen notCached room asked
      refine (buildTrait_tours resolves.serves ready₁ declared split
        (Table.entries_insert_of_new notOpen)).mono fun t cx₂ ended => ?_
      have built := ended.1
      have found := built.trait?_insertTrait ready₁.coherent
      have asked₃ : tree.Admits (cx₂.insertTrait decl.id t) decl.id := by
        rw [Admits, built.stack_insertTrait notOpen]
        exact asked
      have waited : (cx₂.insertTrait decl.id t).states.get? decl.id = some .cached :=
        get?_record_self cx₂.states decl.id .cached
      simp only [ends_get, ends_pure]
      refine (finishTrait_ends resolves (built.ready_insertTrait ready₁ notOpen)
        (admitsAll_bodyMentions declared asked₃) waited found).mono fun _ cx₄ finished => ?_
      have kept := finished.moves.trait?_eq found
      rw [kept, Option.getD_some]
      exact ⟨built.trip ready.coherent begun notOpen notCached finished,
        by simp [TraitRef.isError, built.own], rfl⟩

end

/-! ## The recursion -/

/-- A request is answered from the cache, refused, or a trait is resolved that is neither on
the stack nor in the cache. -/
theorem ends_resolveWithin {faults : Fault → Prop} {id : DefId} (span : Span)
    {post : TraitRef → Context → Prop} (cached : ∀ t, cx.trait? id = some t → post t cx)
    (undeclared : tree.trait? id = none → post .error cx)
    (waits : id ∈ cx.stack.keys → post .error cx)
    (full : ∀ decl, post .error (cx.report (.recursionLimit span decl cx.limit)))
    (new : ∀ decl, tree.trait? id = some decl → id ∉ cx.stack.keys → id ∉ cx.cache.keys →
      cx.depth < cx.limit →
        Ends faults (resolveNew tree (resolveWithin tree depth) id decl) cx post) :
    Ends faults (resolveWithin tree (depth + 1) id span) cx post := by
  simp only [resolveWithin, ends_bind, ends_get]
  split
  · exact cached _ ‹_›
  · rename_i notCached
    have notCached : id ∉ cx.cache.keys :=
      cx.trait?_eq_none_iff.1 (Option.eq_none_iff_forall_ne_some.2 notCached)
    split
    · rename_i decl declared
      split
      · rename_i isOpen
        exact waits (cx.isResolving_iff.1 isOpen)
      · rename_i notOpen
        rw [cx.isResolving_iff] at notOpen
        split
        · simp only [ends_bind, ends_report, ends_pure]
          exact full decl.name
        · rename_i room
          exact new decl declared notOpen notCached (Nat.lt_of_not_le room)
    · rename_i none
      exact undeclared (Option.eq_none_iff_forall_ne_some.2 none)

theorem resolveWithin_resolves (depth : Nat) : tree.Resolves depth (resolveWithin tree depth) := by
  induction depth with
  | zero => exact fun _ _ _ ready => absurd ready.few (Nat.not_lt_zero _)
  | succ depth ih =>
      intro id span cx ready asked
      refine ends_resolveWithin span (fun t cached => ?_)
        (fun none => ⟨.refl cx, .error (Or.inl none)⟩)
        (fun waits => ⟨.refl cx, .error (Or.inr (Or.inl waits))⟩) (fun name => ?_)
        fun decl declared notOpen notCached room => ?_
      · obtain ⟨own, -⟩ := ready.coherent.cached_shape _ (Table.mem_entries_of_get? cached)
        refine ⟨.refl cx, fun _ => cached, fun isError => ?_⟩
        simp [TraitRef.isError, show t.id = some id from own] at isError
      · have reported := (cx.mem_problems_report (.recursionLimit span name cx.limit)).2
          (Or.inr rfl)
        exact ⟨(Trip.refl cx).report rfl, .error (Or.inr (Or.inr ⟨_, _, reported⟩))⟩
      · refine (resolveNew_ends ih ready declared notOpen notCached room asked).mono
          fun t cx' resolved => ?_
        obtain ⟨trip, fine, found⟩ := resolved
        refine ⟨trip, fun _ => found, fun isError => ?_⟩
        rw [fine] at isError
        cases isError

end Lowering

end TraitEngine
