import TraitEngine.Proofs.Journal
import TraitEngine.Proofs.Mentions
import TraitEngine.Proofs.Table
import TraitEngine.Trait.Hierarchy
import Mathlib.Data.List.TakeWhile
import Mathlib.Logic.Relation
/-!
# The moves of a context

Whatever an analysis does to a context, it does by the moves below, each of them
one operation of the context together with what is known when it is made: `Move`
is the transition relation, and its hypotheses are the guards.

The deferred checks of a trait are one move: they are taken from the context and
made at once, so that none is dropped.

`Coherent` is the invariant of every context on the way, also in the middle of
building a trait: stack, cache and journal agree (`Journal.Nested`), and what is
pending or deferred waits for a trait that is not done. Every move keeps it
(`Move.coherent`).
-/

namespace TraitEngine

set_option autoImplicit false

open Journal

/-! ## Kinds of problems -/

namespace Problem

/-- A cycle of super-traits. -/
def isCycle : Problem → Bool
  | .superTraitCycle .. => true
  | _ => false

/-- The recursion limit. -/
def isLimit : Problem → Bool
  | .recursionLimit .. => true
  | _ => false

/-- The problem is one of a default body. -/
def isUnknownItem : Problem → Bool
  | .unknownItem .. => true
  | _ => false

theorem isCycle_of_isUnknownItem {p : Problem} (body : p.isUnknownItem = true) :
    p.isCycle = false := by
  cases p <;> first | rfl | cases body

/-- The problem is one of the items of an implementation. -/
def isOfImpl : Problem → Bool
  | .missingItems .. | .notAMember .. => true
  | _ => false

/-- The problem is of none of these kinds. What is wrong with a type, a bound or a name is told
without a look at the stack, at a default body or at an implementation. -/
def isPlain (p : Problem) : Bool := !(p.isCycle || p.isLimit || p.isUnknownItem || p.isOfImpl)

theorem isPlain_iff {p : Problem} : p.isPlain = true ↔
    p.isCycle = false ∧ p.isLimit = false ∧ p.isUnknownItem = false ∧ p.isOfImpl = false := by
  simp [isPlain, and_assoc]

end Problem

/-- What is added after the problems that were handed out adds to all of them. -/
theorem Problem.append_subset_append (handed : List Problem) {ps qs : List Problem}
    (sub : ps ⊆ qs) : handed ++ ps ⊆ handed ++ qs :=
  List.append_subset.2 ⟨List.subset_append_left handed qs,
    List.subset_append_of_subset_right handed sub⟩

/-- The context after checks whether the trait may stand behind `dyn` at each span. -/
def TraitRef.checkAll (t : TraitRef) (spans : List Span) (cx : Context) : Context :=
  spans.foldl (fun cx span => (t.checkObjectSafety true span cx).2) cx

/-- The context after the deferred checks of the cached trait `id`. -/
def Context.checkDeferred (cx : Context) (id : DefId) (t : TraitRef) : Context :=
  t.checkAll (cx.takeDeferred id).1 (cx.takeDeferred id).2

namespace ItemTree

variable (tree : ItemTree)

/-- The trait that is being built, if any, may ask for `id` at its stage. -/
def Admits (cx : Context) (id : DefId) : Prop :=
  ∀ e, cx.stack.entries.getLast? = some e → tree.Uses e.2 e.1 id

/-- Why a bound on `id` gave no predicate is among the problems. -/
inductive Refused (problems : List Problem) (path : TypePath) (id : DefId) : Prop where
  | cycle {ids : List DefId} (closes : ids.head? = some id)
      (reported : .superTraitCycle path.span (ids.map tree.traitName) ∈ problems)
  | limit {name : String} {limit : Nat}
      (reported : .recursionLimit path.span name limit ∈ problems)
  | args {span : Span} {cause : ArgMismatch}
      (reported : .argMismatch span (tree.traitName id) cause ∈ problems)

/-- `id` is on the stack `base`, and it or a trait above it is past its super-traits. -/
def LateAbove (base : List (DefId × ResolveStage)) (id : DefId) : Prop :=
  ∃ below stage above, base = below ++ (id, stage) :: above ∧
    ∃ e ∈ (id, stage) :: above, e.2 = .items

/-- What is known of a predicate among the super-traits of `id`, built above `base`. -/
def KeptSuper (cx : Context) (base : List (DefId × ResolveStage)) (id : DefId)
    (p : Predicate) : Prop :=
  ∃ path super, tree.SuperBound id path super ∧ p.trait = some super ∧ p.span = path.span ∧
    (super ∈ cx.cache.keys ∨ LateAbove base super)

/-- The super-trait bound on `super` is kept in `t`, or its refusal is reported. -/
def Accounted (problems : List Problem) (t : TraitRef) (path : TypePath) (super : DefId) :
    Prop :=
  (∃ p ∈ t.supers, p.trait = some super ∧ p.span = path.span) ∨ tree.Refused problems path super

/-- The steps that an analysis of the tree takes, each with what holds when it is taken. -/
inductive Move : Context → Context → Prop where
  | report {cx : Context} {p : Problem} (plain : p.isCycle = false) : Move cx (cx.report p)
  | reportCycle {cx : Context} {e : DefId × ResolveStage} {path : TypePath} {id : DefId}
      {ids : List DefId} (top : cx.stack.entries.getLast? = some e)
      (bound : tree.SuperBound e.1 path id) (cycle : cx.superTraitCycle? id = some ids) :
      Move cx (cx.report (.superTraitCycle path.span (ids.map tree.traitName)))
  | insertType {cx : Context} (node : NodeId) (ty : Ty) : Move cx (cx.insertType node ty)
  | addBounds {cx : Context} (node : NodeId) (ps : List Predicate) :
      Move cx (cx.addBounds node ps)
  | deferObjectSafety {cx : Context} {id : DefId} (span : Span) (waits : id ∈ cx.stack.keys) :
      Move cx (cx.deferObjectSafety id span)
  | beginResolving {cx : Context} {id : DefId} {decl : TraitDecl}
      (declared : tree.trait? id = some decl) (receiver : decl.splitReceiver?.isSome)
      (notOpen : id ∉ cx.stack.keys) (notCached : id ∉ cx.cache.keys)
      (room : cx.depth < cx.limit) (asked : tree.Admits cx id) :
      Move cx (cx.beginResolving id)
  | setPending {cx : Context} {id : DefId} {params : List TraitParam}
      (waits : id ∈ cx.stack.keys) (some : params ≠ []) : Move cx (cx.setPending id params)
  | enterItems {cx : Context} {base : List (DefId × ResolveStage)} {id : DefId}
      (top : cx.stack.entries = base ++ [(id, .supers)]) (notBelow : id ∉ base.map Prod.fst) :
      Move cx (cx.enterItems id)
  | insertTrait {cx : Context} {base : List (DefId × ResolveStage)} {id : DefId} {t : TraitRef}
      (top : cx.stack.entries = base ++ [(id, .items)]) (notBelow : id ∉ base.map Prod.fst)
      (notCached : id ∉ cx.cache.keys) (own : t.id = some id) (params : t.params ≠ [])
      (kept : ∀ p ∈ t.supers, tree.KeptSuper cx base id p)
      (all : ∀ path super, tree.SuperBound id path super →
        tree.Accounted cx.problems t path super) :
      Move cx (cx.insertTrait id t)
  | checkDeferred {cx : Context} {id : DefId} {t : TraitRef}
      (waited : cx.states.get? id = some .cached) (found : cx.trait? id = some t) :
      Move cx (cx.checkDeferred id t)
  | markBodiesResolved {cx : Context} {id : DefId}
      (waited : cx.states.get? id = some .cached) (done : ∀ e ∈ cx.deferred, e.1 ≠ id) :
      Move cx (cx.markBodiesResolved id)

/-- A run of moves. -/
abbrev Moves : Context → Context → Prop := Relation.ReflTransGen tree.Move

/-- What the parts of a context tell of each other: the stack, the cache, the pending
parameters, the deferred checks and the states. -/
structure Coherent (cx : Context) : Prop where
  nested : Nested cx.limit cx.states.entries cx.stack.keys cx.cache.keys
  stack_declared : ∀ id ∈ cx.stack.keys, ∃ decl, tree.trait? id = some decl ∧
    decl.splitReceiver?.isSome
  cached_shape : ∀ e ∈ cx.cache.entries, e.2.id = some e.1 ∧ e.2.params ≠ []
  pending_shape : ∀ e ∈ cx.pending.entries, e.1 ∈ cx.stack.keys ∧ e.2 ≠ []
  deferred_waits : ∀ e ∈ cx.deferred,
    e.1 ∈ cx.stack.keys ∨ cx.states.get? e.1 = some .cached

end ItemTree

theorem TraitRef.objectSafetyProblem?_plain {t : TraitRef} {cx : Context} {span : Span}
    {problem : Problem} (h : t.objectSafetyProblem? cx span = some problem) :
    problem.isPlain = true := by
  simp only [objectSafetyProblem?] at h
  split at h <;> cases h
  rfl

/-! ## The operations of a context, field by field -/

namespace Context

variable (cx : Context) (p : Problem)

/-- A problem that was reported before is not reported again. -/
theorem report_cases : cx.report p = cx ∧ p ∈ cx.problems ∨
    cx.report p = { cx with problems := cx.problems ++ [p] } := by
  unfold report
  split
  · exact Or.inl ⟨rfl, ‹_›⟩
  · exact Or.inr rfl

@[simp] theorem report_limit : (cx.report p).limit = cx.limit := by
  rcases cx.report_cases p with ⟨h, -⟩ | h <;> rw [h]

@[simp] theorem report_cache : (cx.report p).cache = cx.cache := by
  rcases cx.report_cases p with ⟨h, -⟩ | h <;> rw [h]

@[simp] theorem report_states : (cx.report p).states = cx.states := by
  rcases cx.report_cases p with ⟨h, -⟩ | h <;> rw [h]

@[simp] theorem report_stack : (cx.report p).stack = cx.stack := by
  rcases cx.report_cases p with ⟨h, -⟩ | h <;> rw [h]

@[simp] theorem report_pending : (cx.report p).pending = cx.pending := by
  rcases cx.report_cases p with ⟨h, -⟩ | h <;> rw [h]

@[simp] theorem report_deferred : (cx.report p).deferred = cx.deferred := by
  rcases cx.report_cases p with ⟨h, -⟩ | h <;> rw [h]

theorem mem_problems_report {q : Problem} :
    q ∈ (cx.report p).problems ↔ q ∈ cx.problems ∨ q = p := by
  rcases cx.report_cases p with ⟨h, mem⟩ | h <;> rw [h]
  · constructor
    · exact Or.inl
    · rintro (h | rfl)
      · exact h
      · exact mem
  · rw [List.mem_append, List.mem_singleton]

/-- A check of object safety leaves the context as it is or reports its problem. -/
theorem checkObjectSafety_cases (t : TraitRef) (emit : Bool) (span : Span) :
    (t.checkObjectSafety emit span cx).2 = cx ∨ ∃ problem,
      t.objectSafetyProblem? cx span = some problem ∧
        (t.checkObjectSafety emit span cx).2 = cx.report problem := by
  unfold TraitRef.checkObjectSafety
  split
  · exact Or.inl rfl
  · rename_i problem found
    cases emit with
    | false => exact Or.inl rfl
    | true => exact Or.inr ⟨problem, found, rfl⟩

/-- Checks of object safety only add problems, none of which is a cycle. -/
theorem checkAll_eq (t : TraitRef) (spans : List Span) : ∃ problems,
    t.checkAll spans cx = { cx with problems } ∧ cx.problems ⊆ problems ∧
      ∀ p ∈ problems, p ∈ cx.problems ∨ p.isCycle = false := by
  induction spans generalizing cx with
  | nil => exact ⟨cx.problems, rfl, List.Subset.refl _, fun _ => Or.inl⟩
  | cons span rest ih =>
      show ∃ problems, t.checkAll rest (t.checkObjectSafety true span cx).2 = _ ∧ _
      obtain same | ⟨problem, found, reported⟩ := cx.checkObjectSafety_cases t true span
      · rw [same]
        exact ih cx
      · rw [reported]
        obtain ⟨problems, eq, sub, plain⟩ := ih (cx.report problem)
        refine ⟨problems, ?_, fun p mem => sub ((cx.mem_problems_report problem).2 (Or.inl mem)),
          fun p mem => ?_⟩
        · rw [eq]
          rcases cx.report_cases problem with ⟨h, -⟩ | h <;> rw [h]
        · rcases plain p mem with old | fine
          · rcases (cx.mem_problems_report problem).1 old with old | rfl
            · exact Or.inl old
            · exact Or.inr (Problem.isPlain_iff.1 (TraitRef.objectSafetyProblem?_plain found)).1
          · exact Or.inr fine

/-- Deferred checks change what is deferred and add problems, none of which is a cycle. -/
theorem checkDeferred_eq (id : DefId) (t : TraitRef) :
    ∃ problems, cx.checkDeferred id t =
        { cx with deferred := cx.deferred.filter (·.1 ≠ id), problems } ∧
      cx.problems ⊆ problems ∧ ∀ p ∈ problems, p ∈ cx.problems ∨ p.isCycle = false :=
  (cx.takeDeferred id).2.checkAll_eq t (cx.takeDeferred id).1

theorem isResolving_iff {id : DefId} : cx.isResolving id = true ↔ id ∈ cx.stack.keys :=
  Table.contains_iff

theorem isSome_trait?_iff {id : DefId} : (cx.trait? id).isSome ↔ id ∈ cx.cache.keys :=
  Table.isSome_get?_iff

theorem trait?_eq_none_iff {id : DefId} : cx.trait? id = none ↔ id ∉ cx.cache.keys :=
  Table.get?_eq_none_iff

theorem exists_trait? {id : DefId} (cached : id ∈ cx.cache.keys) : ∃ t, cx.trait? id = some t :=
  Option.isSome_iff_exists.1 (cx.isSome_trait?_iff.2 cached)

/-- What the cache answers once, it answers while it only grows. -/
theorem trait?_of_grown {cx cx' : Context} (grown : cx.cache.entries <+: cx'.cache.entries)
    {id : DefId} {t : TraitRef} (h : cx.trait? id = some t) : cx'.trait? id = some t := by
  obtain ⟨new, eq⟩ := grown
  simp only [trait?, Table.get?, Option.map_eq_some_iff] at h ⊢
  obtain ⟨e, found, rfl⟩ := h
  exact ⟨e, by rw [← eq, List.find?_append, found, Option.some_or], rfl⟩

/-- A trait stays on the stack when it enters its second stage. -/
theorem enterItems_keys (id : DefId) : (cx.enterItems id).stack.keys = cx.stack.keys := by
  unfold enterItems
  split
  · exact Table.keys_insert_of_mem ((isResolving_iff cx).1 ‹_›)
  · rfl

/-- Only the stack changes when a trait goes on to its items. -/
theorem enterItems_eq (id : DefId) : ∃ stack, cx.enterItems id = { cx with stack } := by
  unfold enterItems
  split
  · exact ⟨_, rfl⟩
  · exact ⟨cx.stack, rfl⟩

theorem enterItems_entries {cx : Context} {id : DefId} {base : List (DefId × ResolveStage)}
    (top : cx.stack.entries = base ++ [(id, .supers)]) (notBelow : id ∉ base.map Prod.fst) :
    (cx.enterItems id).stack.entries = base ++ [(id, .items)] := by
  have open_ : cx.isResolving id = true := by
    rw [isResolving_iff, Table.keys, top]
    simp
  simp only [enterItems, open_, if_pos]
  exact Table.entries_insert_last top notBelow

/-- The cycle check looks at the part of the stack from the trait upwards. -/
theorem superTraitCycle?_split {id : DefId} (waits : id ∈ cx.stack.keys) :
    ∃ below stage above, cx.stack.entries = below ++ (id, stage) :: above ∧
      cx.superTraitCycle? id = if ((id, stage) :: above).all (fun e => e.2 = .supers) then
        some (id :: above.map Prod.fst ++ [id]) else none := by
  obtain ⟨stage, here⟩ := Table.mem_keys_iff.1 waits
  let away : DefId × ResolveStage → Bool := fun e => e.1 ≠ id
  have whole := List.takeWhile_append_dropWhile (p := away) (l := cx.stack.entries)
  cases found : cx.stack.entries.dropWhile away with
  | nil =>
      have skipped := List.dropWhile_eq_nil_iff.1 found _ here
      simp [away] at skipped
  | cons e above =>
      have own : ¬ away e := by
        have first := List.head_dropWhile_not away (l := cx.stack.entries) (by simp [found])
        simpa [found] using first
      obtain rfl : e.1 = id := by simpa [away] using own
      refine ⟨_, e.2, above, by rw [found] at whole; exact whole.symm, ?_⟩
      rw [superTraitCycle?, show cx.stack.entries.dropWhile (fun e' => e'.1 ≠ e.1) = e :: above
        from found]
      rfl

/-- A cycle is closed at a trait on the stack. -/
theorem mem_of_superTraitCycle? {id : DefId} {ids : List DefId}
    (cycle : cx.superTraitCycle? id = some ids) : id ∈ cx.stack.keys := by
  by_contra away
  have skipped : cx.stack.entries.dropWhile (fun e => e.1 ≠ id) = [] := by
    rw [List.dropWhile_eq_nil_iff]
    intro e mem
    have other : e.1 ≠ id := fun same => away (same ▸ List.mem_map_of_mem mem)
    simpa using other
  rw [superTraitCycle?, skipped] at cycle
  cases cycle

/-- A cycle begins with the trait at which it is closed. -/
theorem head?_of_superTraitCycle? {id : DefId} {ids : List DefId}
    (cycle : cx.superTraitCycle? id = some ids) : ids.head? = some id := by
  obtain ⟨below, stage, above, -, checked⟩ :=
    cx.superTraitCycle?_split (cx.mem_of_superTraitCycle? cycle)
  rw [checked] at cycle
  split at cycle <;> cases cycle
  rfl

theorem exists_top {id : DefId} (waits : id ∈ cx.stack.keys) :
    ∃ e, cx.stack.entries.getLast? = some e := by
  cases last : cx.stack.entries.getLast? with
  | none => simp [Table.keys, List.getLast?_eq_none_iff.1 last] at waits
  | some e => exact ⟨e, rfl⟩

end Context

/-! ## What every move keeps -/

namespace ItemTree

variable {tree : ItemTree} {cx cx' : Context}

namespace Coherent

/-- What is on the stack is not yet cached. -/
theorem notCached_of_open (h : tree.Coherent cx) {id : DefId} (open_ : id ∈ cx.stack.keys) :
    id ∉ cx.cache.keys :=
  h.nested.not_closed_of_open open_

theorem notBelow {base : List (DefId × ResolveStage)} {e : DefId × ResolveStage}
    (h : tree.Coherent cx) (top : cx.stack.entries = base ++ [e]) : e.1 ∉ base.map Prod.fst := by
  have distinct := h.nested.nodup_opened
  rw [Table.keys, top, List.map_append, List.nodup_append] at distinct
  exact fun mem => distinct.2.2 e.1 mem e.1 (by simp) rfl

/-- Coherence is about the stack, the cache, the journal and what waits. -/
theorem of_eq (h : tree.Coherent cx) (limit : cx'.limit = cx.limit) (cache : cx'.cache = cx.cache)
    (states : cx'.states = cx.states) (stack : cx'.stack = cx.stack)
    (pending : cx'.pending = cx.pending) (deferred : cx'.deferred = cx.deferred) :
    tree.Coherent cx' where
  nested := by rw [limit, cache, states, stack]; exact h.nested
  stack_declared := by rw [stack]; exact h.stack_declared
  cached_shape := by rw [cache]; exact h.cached_shape
  pending_shape := by rw [pending, stack]; exact h.pending_shape
  deferred_waits := by rw [deferred, stack, states]; exact h.deferred_waits

theorem beginResolving (h : tree.Coherent cx) {id : DefId} {decl : TraitDecl}
    (declared : tree.trait? id = some decl) (receiver : decl.splitReceiver?.isSome)
    (notOpen : id ∉ cx.stack.keys) (notCached : id ∉ cx.cache.keys)
    (room : cx.depth < cx.limit) : tree.Coherent (cx.beginResolving id) where
  nested := by
    show Nested cx.limit (cx.states.entries ++ [(id, .resolving)])
      (cx.stack.insert id .supers).keys cx.cache.keys
    rw [Table.keys_insert_of_new notOpen]
    refine .resolving h.nested notOpen notCached ?_
    rw [Table.keys, List.length_map]
    exact room
  stack_declared := by
    intro other mem
    rcases Table.mem_keys_insert.1 mem with rfl | mem
    · exact ⟨decl, declared, receiver⟩
    · exact h.stack_declared other mem
  cached_shape := h.cached_shape
  pending_shape := fun e mem =>
    ⟨Table.mem_keys_insert.2 (Or.inr (h.pending_shape e mem).1), (h.pending_shape e mem).2⟩
  deferred_waits := by
    intro e mem
    by_cases same : id = e.1
    · exact Or.inl (Table.mem_keys_insert.2 (Or.inl same.symm))
    · refine (h.deferred_waits e mem).imp (fun w => Table.mem_keys_insert.2 (Or.inr w)) fun w => ?_
      exact (get?_record_of_ne cx.states _ same).trans w

theorem setPending (h : tree.Coherent cx) {id : DefId} {params : List TraitParam}
    (waits : id ∈ cx.stack.keys) (some : params ≠ []) :
    tree.Coherent (cx.setPending id params) where
  nested := h.nested
  stack_declared := h.stack_declared
  cached_shape := h.cached_shape
  pending_shape := by
    intro e mem
    rcases Table.mem_entries_insert mem with rfl | mem
    · exact ⟨waits, some⟩
    · exact h.pending_shape e mem
  deferred_waits := h.deferred_waits

theorem enterItems (h : tree.Coherent cx) (id : DefId) : tree.Coherent (cx.enterItems id) := by
  have keys := cx.enterItems_keys id
  obtain ⟨stack, eq⟩ := cx.enterItems_eq id
  rw [eq] at keys ⊢
  replace keys : stack.keys = cx.stack.keys := keys
  exact {
    nested := by show Nested _ _ stack.keys _; rw [keys]; exact h.nested
    stack_declared := by show ∀ id ∈ stack.keys, _; rw [keys]; exact h.stack_declared
    cached_shape := h.cached_shape
    pending_shape := by
      show ∀ e ∈ cx.pending.entries, e.1 ∈ stack.keys ∧ e.2 ≠ []
      rw [keys]
      exact h.pending_shape
    deferred_waits := by
      show ∀ e ∈ cx.deferred, e.1 ∈ stack.keys ∨ cx.states.get? e.1 = some .cached
      rw [keys]
      exact h.deferred_waits }

theorem insertTrait (h : tree.Coherent cx) {base : List (DefId × ResolveStage)} {id : DefId}
    {stage : ResolveStage} {t : TraitRef} (top : cx.stack.entries = base ++ [(id, stage)])
    (own : t.id = some id) (params : t.params ≠ []) : tree.Coherent (cx.insertTrait id t) := by
  have notBelow := h.notBelow top
  have below : (cx.stack.erase id).keys = base.map Prod.fst := by
    rw [Table.keys, Table.entries_erase_last top notBelow]
  have whole : cx.stack.keys = base.map Prod.fst ++ [id] := by simp [Table.keys, top]
  have notCached : id ∉ cx.cache.keys := h.notCached_of_open (by simp [whole])
  -- The trait is the top of the stack; without it the traits below are left as they were.
  exact {
    nested := by
      show Nested cx.limit (cx.states.entries ++ [(id, .cached)]) (cx.stack.erase id).keys
        (cx.cache.insert id t).keys
      rw [below, Table.keys_insert_of_new notCached]
      exact .cached (whole ▸ h.nested)
    stack_declared := by
      show ∀ id' ∈ (cx.stack.erase id).keys, _
      rw [below]
      exact fun other mem => h.stack_declared other (by simp [whole, mem])
    cached_shape := by
      intro e mem
      rcases Table.mem_entries_insert mem with rfl | mem
      · exact ⟨own, params⟩
      · exact h.cached_shape e mem
    pending_shape := by
      intro e mem
      show e.1 ∈ (cx.stack.erase id).keys ∧ _
      obtain ⟨old, ne⟩ := Table.mem_entries_erase.1 mem
      obtain ⟨waits, some⟩ := h.pending_shape e old
      rw [whole, List.mem_append, List.mem_singleton] at waits
      exact ⟨below ▸ waits.resolve_right ne, some⟩
    deferred_waits := by
      intro e mem
      show e.1 ∈ (cx.stack.erase id).keys ∨ (cx.states.record id .cached).get? e.1 = some .cached
      by_cases same : id = e.1
      · exact Or.inr (same ▸ get?_record_self cx.states id .cached)
      · rw [get?_record_of_ne _ _ same, below]
        refine (h.deferred_waits e mem).imp_left fun waits => ?_
        rw [whole, List.mem_append, List.mem_singleton] at waits
        exact waits.resolve_right fun eq => same eq.symm }

theorem markBodiesResolved (h : tree.Coherent cx) {id : DefId}
    (waited : cx.states.get? id = some .cached) (done : ∀ e ∈ cx.deferred, e.1 ≠ id) :
    tree.Coherent (cx.markBodiesResolved id) where
  nested := by
    have closed : id ∈ cx.cache.keys := by
      by_contra notClosed
      by_cases open_ : id ∈ cx.stack.keys
      · rw [h.nested.get?_of_open open_] at waited
        exact absurd waited (by decide)
      · rw [h.nested.get?_eq_none open_ notClosed] at waited
        exact absurd waited (by decide)
    refine .bodiesResolved h.nested closed ?_
    obtain ⟨-, first⟩ | finished := h.nested.get?_of_closed closed
    · exact first
    · rw [finished] at waited
      exact absurd waited (by decide)
  stack_declared := h.stack_declared
  cached_shape := h.cached_shape
  pending_shape := h.pending_shape
  deferred_waits := fun e mem => (h.deferred_waits e mem).imp_right fun waits =>
    (get?_record_of_ne cx.states _ (Ne.symm (done e mem))).trans waits

end Coherent

/-- Every step keeps a context coherent: one case per step, from the lemmas above. -/
theorem Move.coherent (move : tree.Move cx cx') (h : tree.Coherent cx) : tree.Coherent cx' := by
  cases move with
  | report plain => exact h.of_eq (by simp) (by simp) (by simp) (by simp) (by simp) (by simp)
  | reportCycle top bound cycle =>
      exact h.of_eq (by simp) (by simp) (by simp) (by simp) (by simp) (by simp)
  | insertType node ty => exact h.of_eq rfl rfl rfl rfl rfl rfl
  | addBounds node ps => exact h.of_eq rfl rfl rfl rfl rfl rfl
  | deferObjectSafety span waits =>
      refine { h with deferred_waits := fun e mem => ?_ }
      rcases List.mem_append.1 mem with mem | mem
      · exact h.deferred_waits e mem
      · rw [List.mem_singleton.1 mem]
        exact Or.inl waits
  | beginResolving declared receiver notOpen notCached room asked =>
      exact h.beginResolving declared receiver notOpen notCached room
  | setPending waits some => exact h.setPending waits some
  | enterItems top notBelow => exact h.enterItems _
  | insertTrait top notBelow notCached own params kept all => exact h.insertTrait top own params
  | @checkDeferred id t waited found =>
      obtain ⟨problems, eq, -⟩ := cx.checkDeferred_eq id t
      rw [eq]
      exact { h with deferred_waits := fun e mem => h.deferred_waits e (List.mem_filter.1 mem).1 }
  | markBodiesResolved waited done => exact h.markBodiesResolved waited done

theorem Moves.coherent (moves : tree.Moves cx cx') (h : tree.Coherent cx) : tree.Coherent cx' := by
  induction moves with
  | refl => exact h
  | tail _ move ih => exact move.coherent ih

/-- No step changes the limit. -/
theorem Move.limit (move : tree.Move cx cx') : cx'.limit = cx.limit := by
  cases move with
  | report => exact Context.report_limit _ _
  | reportCycle => exact Context.report_limit _ _
  | @enterItems _ id top notBelow =>
      obtain ⟨stack, eq⟩ := cx.enterItems_eq id
      rw [eq]
  | @checkDeferred id t waited found =>
      obtain ⟨problems, eq, -⟩ := cx.checkDeferred_eq id t
      rw [eq]
  | _ => rfl

/-- No move drops a problem. -/
theorem Move.problems (move : tree.Move cx cx') : cx.problems ⊆ cx'.problems := by
  cases move with
  | report => exact fun p mem => (cx.mem_problems_report _).2 (Or.inl mem)
  | reportCycle => exact fun p mem => (cx.mem_problems_report _).2 (Or.inl mem)
  | @enterItems _ id top notBelow =>
      obtain ⟨stack, eq⟩ := cx.enterItems_eq id
      rw [eq]
      exact List.Subset.refl _
  | @checkDeferred id t waited found =>
      obtain ⟨problems, eq, sub, -⟩ := cx.checkDeferred_eq id t
      rw [eq]
      exact sub
  | _ => exact List.Subset.refl _

/-- Problems are kept. -/
theorem Moves.problems (moves : tree.Moves cx cx') : cx.problems ⊆ cx'.problems := by
  induction moves with
  | refl => exact List.Subset.refl _
  | tail _ move ih => exact List.Subset.trans ih move.problems

/-- The cache grows at its end and forgets nothing. -/
theorem Move.cache (move : tree.Move cx cx') : cx.cache.entries <+: cx'.cache.entries := by
  cases move with
  | report => simp only [Context.report_cache, List.prefix_rfl]
  | reportCycle => simp only [Context.report_cache, List.prefix_rfl]
  | @enterItems _ id top notBelow =>
      obtain ⟨stack, eq⟩ := cx.enterItems_eq id
      simp only [eq, List.prefix_rfl]
  | insertTrait top notBelow notCached own params kept all =>
      exact ⟨_, (Table.entries_insert_of_new notCached).symm⟩
  | @checkDeferred id t waited found =>
      obtain ⟨problems, eq, -⟩ := cx.checkDeferred_eq id t
      simp only [eq, List.prefix_rfl]
  | _ => exact List.prefix_rfl

/-- The cache only grows, at its end. -/
theorem Moves.cache (moves : tree.Moves cx cx') : cx.cache.entries <+: cx'.cache.entries := by
  induction moves with
  | refl => exact List.prefix_rfl
  | tail _ move ih => exact ih.trans move.cache

theorem Moves.mem_cache (moves : tree.Moves cx cx') {id : DefId} (h : id ∈ cx.cache.keys) :
    id ∈ cx'.cache.keys :=
  (moves.cache.map Prod.fst).subset h

/-- A cached reference stays the same. -/
theorem Moves.trait?_eq (moves : tree.Moves cx cx') {id : DefId} {t : TraitRef}
    (h : cx.trait? id = some t) : cx'.trait? id = some t :=
  Context.trait?_of_grown moves.cache h

end ItemTree

end TraitEngine
