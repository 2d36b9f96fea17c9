import TraitEngine.Proofs.Moves
import TraitEngine.Proofs.Predicate
import TraitEngine.Proofs.Sound.Predicate
/-!
# Contexts whose types pass

`Standard` is what the types of an analysis are held to. It fixes which nodes they may
have (`Standard.testAt`), the error type only where errors are excused or a problem has
been reported. A regular standard allows every node that conforms to the tree.

`Context.Sound` says that all types and predicates in a context pass. The operations of
a context keep it as long as what is put in passes (`Standard.Onward`). Since problems
stay reported while an operation works, what passed once passes until it ends.
-/

namespace TraitEngine

set_option autoImplicit false

/-- What the types of an analysis of `tree` are held to. -/
structure Standard where
  tree : ItemTree
  /-- What nodes may be, apart from the error type. -/
  nodes : NodeTest
  /-- The error type may occur although nothing is reported. -/
  excused : Prop
  /-- The types that callers have handed in pass. -/
  trusted : Prop

namespace Standard

def test (std : Standard) (err : Prop) : NodeTest := { std.nodes with error := err }

/-- What types have to pass in a context. -/
def testAt (std : Standard) (cx : Context) : NodeTest :=
  std.test (std.excused ∨ cx.problems ≠ [])

/-- The tree is a declared one and its own nodes pass. Unless errors are excused, its
traits have receivers and their items names. -/
structure Regular (std : Standard) : Prop where
  numbered : std.tree.Numbered
  adts : std.tree.AdtsNumbered
  conforming : std.tree.conformance.Le (std.test True)
  tidy : std.excused ∨ (std.tree.HasReceivers ∧ std.tree.NamesItems)

variable {std : Standard} {cx cx' : Context}

theorem test_le {err err' : Prop} (more : err → err') : (std.test err).Le (std.test err') where
  adt := fun _ _ _ h => h
  bound := fun _ _ _ h => h
  projection := fun _ _ _ h => h
  error := more

theorem testAt_le (more : cx.problems ≠ [] → cx'.problems ≠ []) :
    (std.testAt cx).Le (std.testAt cx') :=
  test_le fun err => err.imp_right more

theorem testAt_report (std : Standard) (cx : Context) (p : Problem) :
    (std.testAt (cx.report p)).error :=
  Or.inr (List.ne_nil_of_mem ((cx.mem_problems_report p).2 (Or.inr rfl)))

/-- Unless errors are excused, a declared trait has type parameters. -/
theorem Regular.typeParams (regular : std.Regular) {id : DefId} {decl : TraitDecl}
    (declared : std.tree.trait? id = some decl) (none : decl.typeParams = []) (cx : Context) :
    (std.testAt cx).error := by
  refine Or.inl (regular.tidy.resolve_right fun tidy => ?_)
  obtain ⟨p, mem, -⟩ := tidy.1.receiver declared
  rw [none] at mem
  exact List.not_mem_nil mem

end Standard

/-! ## What a context holds -/

variable {tree : ItemTree} {test test' : NodeTest}

namespace ItemRef

structure Sound (test : NodeTest) (item : ItemRef) : Prop where
  ty : item.ty.Every test
  self : item.self.Every test
  defaults : DefaultsPass test item.params

theorem Sound.mono {item : ItemRef} (h : item.Sound test) (le : test.Le test') :
    item.Sound test' where
  ty := h.ty.mono le
  self := h.self.mono le
  defaults := h.defaults.mono le

theorem error_sound (name : String) (span : Span) (err : test.error) :
    (error name span).Sound test where
  ty := err
  self := err
  defaults := nofun

end ItemRef

/-- The parameters are those of the declared trait `id`, and their defaults pass. -/
structure ParamsSound (tree : ItemTree) (test : NodeTest) (id : DefId) (params : List TraitParam) :
    Prop where
  counted : ∃ decl, tree.trait? id = some decl ∧ params.length = decl.typeParams.length
  defaults : DefaultsPass test params

namespace TraitRef

structure Sound (tree : ItemTree) (test : NodeTest) (id : DefId) (t : TraitRef) : Prop where
  own : t.id = some id
  params : ParamsSound tree test id t.params
  items : ∀ item ∈ t.items, item.Sound test
  supers : ∀ p ∈ t.supers, p.failed = false ∧ p.Sound tree test

theorem Sound.mono {id : DefId} {t : TraitRef} (h : t.Sound tree test id) (le : test.Le test') :
    t.Sound tree test' id where
  own := h.own
  params := ⟨h.params.counted, h.params.defaults.mono le⟩
  items := fun item mem => (h.items item mem).mono le
  supers := fun p mem => (h.supers p mem).imp_right fun sound => sound.mono le

end TraitRef

namespace Context

/-- All types in the context pass, those in the table of types only if the types that
callers have handed in do. -/
structure Sound (tree : ItemTree) (trusted : Prop) (test : NodeTest) (cx : Context) : Prop where
  types : trusted → ∀ e ∈ cx.types.entries, e.2.Every test
  bounds : ∀ e ∈ cx.bounds.entries, ∀ p ∈ e.2.toList, p.Sound tree test
  cache : ∀ e ∈ cx.cache.entries, e.2.Sound tree test e.1
  pending : ∀ e ∈ cx.pending.entries, ParamsSound tree test e.1 e.2
  stack : ∀ id ∈ cx.stack.keys, ∃ decl, tree.trait? id = some decl

variable {trusted : Prop} {cx cx' : Context}

theorem Sound.mono (h : cx.Sound tree trusted test) (le : test.Le test') :
    cx.Sound tree trusted test' where
  types := fun trust e mem => (h.types trust e mem).mono le
  bounds := fun e mem p there => (h.bounds e mem p there).mono le
  cache := fun e mem => (h.cache e mem).mono le
  pending := fun e mem => ⟨(h.pending e mem).counted, (h.pending e mem).defaults.mono le⟩
  stack := h.stack

theorem Sound.of_eq (h : cx.Sound tree trusted test) (types : cx'.types = cx.types)
    (bounds : cx'.bounds = cx.bounds) (cache : cx'.cache = cx.cache)
    (pending : cx'.pending = cx.pending) (stack : cx'.stack.keys = cx.stack.keys) :
    cx'.Sound tree trusted test where
  types := by rw [types]; exact h.types
  bounds := by rw [bounds]; exact h.bounds
  cache := by rw [cache]; exact h.cache
  pending := by rw [pending]; exact h.pending
  stack := by rw [stack]; exact h.stack

theorem Sound.trait? (h : cx.Sound tree trusted test) {id : DefId} {t : TraitRef}
    (found : cx.trait? id = some t) : t.Sound tree test id :=
  h.cache _ (Table.mem_entries_of_get? found)

end Context

/-! ## Operations -/

namespace Standard

/-- The types in the context pass. -/
abbrev Holds (std : Standard) (cx : Context) : Prop :=
  cx.Sound std.tree std.trusted (std.testAt cx)

/-- From one context to a later one of the same operation, which is sound. -/
structure Onward (std : Standard) (cx cx' : Context) : Prop where
  sound : std.Holds cx'
  problems : cx.problems ≠ [] → cx'.problems ≠ []
  cache : cx.cache.keys ⊆ cx'.cache.keys

namespace Onward

variable {std : Standard} {cx cx₁ cx₂ : Context}

theorem refl (holds : std.Holds cx) : std.Onward cx cx where
  sound := holds
  problems := id
  cache := List.Subset.refl _

theorem trans (first : std.Onward cx cx₁) (second : std.Onward cx₁ cx₂) : std.Onward cx cx₂ where
  sound := second.sound
  problems := fun some => second.problems (first.problems some)
  cache := List.Subset.trans first.cache second.cache

/-- What passed before passes still. -/
theorem le (h : std.Onward cx cx₁) : (std.testAt cx).Le (std.testAt cx₁) := testAt_le h.problems

theorem report (h : std.Onward cx cx₁) (p : Problem) : std.Onward cx (cx₁.report p) := by
  have kept : cx₁.problems ≠ [] → (cx₁.report p).problems ≠ [] := fun _ =>
    List.ne_nil_of_mem ((cx₁.mem_problems_report p).2 (Or.inr rfl))
  refine h.trans ⟨?_, kept, by rw [cx₁.report_cache]; exact List.Subset.refl _⟩
  refine (h.sound.mono (testAt_le kept)).of_eq ?_ ?_ (by simp) (by simp) (by simp)
  · rcases cx₁.report_cases p with ⟨eq, -⟩ | eq <;> rw [eq]
  · rcases cx₁.report_cases p with ⟨eq, -⟩ | eq <;> rw [eq]

theorem insertType (h : std.Onward cx cx₁) (node : NodeId) {t : Ty}
    (fine : std.trusted → t.Every (std.testAt cx₁)) : std.Onward cx (cx₁.insertType node t) := by
  refine h.trans ⟨{ h.sound with types := fun trust e mem => ?_ }, id, List.Subset.refl _⟩
  rcases Table.mem_entries_insert mem with rfl | mem
  · exact fine trust
  · exact h.sound.types trust e mem

theorem addBounds (h : std.Onward cx cx₁) (node : NodeId) {ps : List Predicate}
    (fine : ∀ p ∈ ps, p.Sound std.tree (std.testAt cx₁)) :
    std.Onward cx (cx₁.addBounds node ps) := by
  refine h.trans ⟨{ h.sound with bounds := fun e mem p there => ?_ }, id, List.Subset.refl _⟩
  rcases Table.mem_entries_insert mem with rfl | mem
  · rcases Bounds.mem_addAll_iff.1 there with old | new
    · cases found : cx₁.bounds.get? node with
      | none =>
          rw [found] at old
          exact absurd old List.not_mem_nil
      | some b =>
          rw [found] at old
          exact h.sound.bounds _ (Table.mem_entries_of_get? found) p old
    · exact fine p new
  · exact h.sound.bounds e mem p there

theorem setPending (h : std.Onward cx cx₁) {id : DefId} {params : List TraitParam}
    (fine : ParamsSound std.tree (std.testAt cx₁) id params) :
    std.Onward cx (cx₁.setPending id params) := by
  refine h.trans ⟨{ h.sound with pending := fun e mem => ?_ }, fun h => h, List.Subset.refl _⟩
  rcases Table.mem_entries_insert mem with rfl | mem
  · exact fine
  · exact h.sound.pending e mem

theorem beginResolving (h : std.Onward cx cx₁) {id : DefId} {decl : TraitDecl}
    (declared : std.tree.trait? id = some decl) : std.Onward cx (cx₁.beginResolving id) := by
  refine h.trans ⟨{ h.sound with stack := fun other mem => ?_ }, fun h => h, List.Subset.refl _⟩
  rcases Table.mem_keys_insert.1 mem with rfl | mem
  · exact ⟨decl, declared⟩
  · exact h.sound.stack other mem

theorem enterItems (h : std.Onward cx cx₁) (id : DefId) : std.Onward cx (cx₁.enterItems id) := by
  have keys := cx₁.enterItems_keys id
  obtain ⟨stack, eq⟩ := cx₁.enterItems_eq id
  rw [eq] at keys ⊢
  exact h.trans ⟨h.sound.of_eq rfl rfl rfl rfl keys, fun h => h, List.Subset.refl _⟩

theorem insertTrait (h : std.Onward cx cx₁) {id : DefId} {t : TraitRef}
    (fine : t.Sound std.tree (std.testAt cx₁) id) : std.Onward cx (cx₁.insertTrait id t) := by
  refine h.trans ⟨{ h.sound with cache := ?_, pending := ?_, stack := ?_ }, fun h => h, ?_⟩
  · intro e mem
    rcases Table.mem_entries_insert mem with rfl | mem
    · exact fine
    · exact h.sound.cache e mem
  · exact fun e mem => h.sound.pending e (Table.mem_entries_erase.1 mem).1
  · intro other mem
    obtain ⟨stage, mem⟩ := Table.mem_keys_iff.1 mem
    exact h.sound.stack other (Table.mem_keys_iff.2 ⟨stage, (Table.mem_entries_erase.1 mem).1⟩)
  · exact fun other mem => Table.mem_keys_insert.2 (Or.inr mem)

/-- Neither the journal nor what is deferred says anything about types. -/
theorem of_eq (h : std.Onward cx cx₁) (types : cx₂.types = cx₁.types)
    (bounds : cx₂.bounds = cx₁.bounds) (cache : cx₂.cache = cx₁.cache)
    (pending : cx₂.pending = cx₁.pending) (stack : cx₂.stack = cx₁.stack)
    (problems : cx₂.problems = cx₁.problems) : std.Onward cx cx₂ := by
  refine h.trans ⟨?_, by rw [problems]; exact id, by rw [cache]; exact List.Subset.refl _⟩
  have same : std.testAt cx₂ = std.testAt cx₁ := by rw [testAt, testAt, problems]
  rw [Holds, same]
  exact h.sound.of_eq types bounds cache pending (by rw [stack])

theorem checkObjectSafety (h : std.Onward cx cx₁) (t : TraitRef) (emit : Bool) (span : Span) :
    std.Onward cx (t.checkObjectSafety emit span cx₁).2 := by
  obtain same | ⟨problem, -, reported⟩ := cx₁.checkObjectSafety_cases t emit span
  · rwa [same]
  · rw [reported]
    exact h.report problem

end Onward

end Standard

end TraitEngine
