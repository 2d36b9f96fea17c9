import TraitEngine.Proofs.Mentions
import TraitEngine.Trait.Param
import TraitEngine.Workload
/-!
# Declared trees

A declaration adds at most one item, at the end, and a trait is added with the id
that it is found under. So every declared tree is numbered, and a trait stays what
it is under further declarations.
-/

namespace TraitEngine

set_option autoImplicit false

namespace TraitDecl

/-- The trait has a type parameter with the name of the receiver. -/
def HasReceiver (t : TraitDecl) : Prop := ∃ p ∈ t.typeParams, p.name = receiverName

instance (t : TraitDecl) : Decidable t.HasReceiver :=
  inferInstanceAs (Decidable (∃ p ∈ t.typeParams, p.name = receiverName))

/-- A receiver can be split off. -/
theorem HasReceiver.split {t : TraitDecl} (h : t.HasReceiver) : t.splitReceiver?.isSome := by
  obtain ⟨p, mem, name⟩ := h
  rw [splitReceiver?, Option.isSome_map, List.find?_isSome]
  exact ⟨p, mem, by simpa [TypeParam.toParam, Param.isReceiver] using name⟩

end TraitDecl

namespace TraitDraft

theorem apply_id (d : TraitDraft) (clause : TraitClause) :
    (d.apply clause).decl.id = d.decl.id := by
  cases clause with
  | method name clauses =>
      simp only [apply]
      split <;> rfl
  | _ => rfl

/-- Clauses do not change which trait is declared. -/
theorem foldl_apply_id (clauses : List TraitClause) (d : TraitDraft) :
    (clauses.foldl apply d).decl.id = d.decl.id := by
  induction clauses generalizing d with
  | nil => rfl
  | cons clause rest ih => rw [List.foldl_cons, ih, apply_id]

end TraitDraft

namespace Step

/-- The tree after a step: only declarations change it. -/
def treeAfter (tree : ItemTree) : Step → ItemTree
  | .declare declaration => tree.declare declaration
  | .request _ => tree

end Step

namespace ItemTree

/-- The tree after some steps. -/
def after (tree : ItemTree) (steps : List Step) : ItemTree := steps.foldl Step.treeAfter tree

/-- Every trait has a type parameter with the name of the receiver. -/
def HasReceivers (tree : ItemTree) : Prop :=
  ∀ item ∈ tree.items.toList, ∀ t ∈ item.decl.trait?, t.HasReceiver

instance (tree : ItemTree) : Decidable tree.HasReceivers :=
  inferInstanceAs (Decidable (∀ item ∈ tree.items.toList, ∀ t ∈ item.decl.trait?, t.HasReceiver))

/-- Every item of a trait has a name. -/
def NamesItems (tree : ItemTree) : Prop :=
  ∀ item ∈ tree.items.toList, ∀ t ∈ item.decl.trait?, ∀ member ∈ t.items, member.name ≠ ""

instance (tree : ItemTree) : Decidable tree.NamesItems :=
  inferInstanceAs (Decidable (∀ item ∈ tree.items.toList, ∀ t ∈ item.decl.trait?,
    ∀ member ∈ t.items, member.name ≠ ""))

/-- Every trait knows its own id. -/
def Numbered (tree : ItemTree) : Prop := ∀ id decl, tree.trait? id = some decl → decl.id = id

/-- Every struct and enum knows its own id. -/
def AdtsNumbered (tree : ItemTree) : Prop := ∀ id a, tree.adt? id = some a → a.id = id

variable {tree tree' : ItemTree}

/-- Looking a trait up by its index. -/
theorem trait?_eq_some {id : DefId} {t : TraitDecl} :
    tree.trait? id = some t ↔
      ∃ item, tree.items[id.index]? = some item ∧ item.decl.trait? = some t :=
  Option.bind_eq_some_iff

theorem adt?_eq_some {id : DefId} {a : AdtDecl} :
    tree.adt? id = some a ↔
      ∃ item, tree.items[id.index]? = some item ∧ item.decl.adt? = some a :=
  Option.bind_eq_some_iff

theorem mem_ids_of_trait? {id : DefId} {decl : TraitDecl}
    (declared : tree.trait? id = some decl) : id ∈ tree.ids := by
  obtain ⟨item, found, -⟩ := trait?_eq_some.1 declared
  obtain ⟨bound, -⟩ := Array.getElem?_eq_some_iff.1 found
  exact List.mem_map.2 ⟨id.index, List.mem_range.2 bound, rfl⟩

theorem HasReceivers.receiver (h : tree.HasReceivers) {id : DefId} {t : TraitDecl}
    (declared : tree.trait? id = some t) : t.HasReceiver := by
  obtain ⟨item, found, own⟩ := trait?_eq_some.1 declared
  exact h item (Array.mem_toList_iff.2 (Array.mem_of_getElem? found)) t own

theorem HasReceivers.split (h : tree.HasReceivers) {id : DefId} {t : TraitDecl}
    (declared : tree.trait? id = some t) : t.splitReceiver?.isSome :=
  (h.receiver declared).split

theorem NamesItems.named (h : tree.NamesItems) {id : DefId} {t : TraitDecl}
    (declared : tree.trait? id = some t) : ∀ member ∈ t.items, member.name ≠ "" := by
  obtain ⟨item, found, own⟩ := trait?_eq_some.1 declared
  exact h item (Array.mem_toList_iff.2 (Array.mem_of_getElem? found)) t own

/-! ## One declaration -/

/-- What a declaration does to the items. -/
theorem declare_items (tree : ItemTree) (declaration : Declaration) :
    (tree.declare declaration).items = tree.items ∨
      ∃ item, (tree.declare declaration).items = tree.items.push item ∧
        (∀ t, item.decl.trait? = some t → t.id = tree.nextId) ∧
        ∀ a, item.decl.adt? = some a → a.id = tree.nextId := by
  cases declaration with
  | trait path clauses =>
      refine Or.inr ⟨_, rfl, fun t own => ?_, nofun⟩
      cases own
      exact TraitDraft.foldl_apply_id clauses _
  | wholeTrait path decl =>
      refine Or.inr ⟨_, rfl, fun t own => ?_, nofun⟩
      cases own
      rfl
  | adt kind path params =>
      refine Or.inr ⟨_, rfl, nofun, fun a own => ?_⟩
      cases own
      rfl
  | impl self clauses => exact Or.inl rfl

/-- A declaration goes to the end. -/
theorem declare_extends (tree : ItemTree) (declaration : Declaration) :
    tree.items.toList <+: (tree.declare declaration).items.toList := by
  rcases tree.declare_items declaration with same | ⟨item, pushed, -, -⟩
  · simp only [same, List.prefix_rfl]
  · rw [pushed, Array.toList_push]
    exact List.prefix_append _ _

/-- Every trait stays at the index that is its id. -/
theorem Numbered.declare (h : tree.Numbered) (declaration : Declaration) :
    (tree.declare declaration).Numbered := by
  intro id t declared
  obtain ⟨item, found, own⟩ := trait?_eq_some.1 declared
  rcases tree.declare_items declaration with same | ⟨new, pushed, numbered, -⟩
  · rw [same] at found
    exact h id t (trait?_eq_some.2 ⟨item, found, own⟩)
  · rw [pushed, Array.getElem?_push] at found
    split at found
    · rename_i last
      cases found
      rw [numbered t own, nextId, ← last]
    · exact h id t (trait?_eq_some.2 ⟨item, found, own⟩)

theorem AdtsNumbered.declare (h : tree.AdtsNumbered) (declaration : Declaration) :
    (tree.declare declaration).AdtsNumbered := by
  intro id a declared
  obtain ⟨item, found, own⟩ := adt?_eq_some.1 declared
  rcases tree.declare_items declaration with same | ⟨new, pushed, -, numbered⟩
  · rw [same] at found
    exact h id a (adt?_eq_some.2 ⟨item, found, own⟩)
  · rw [pushed, Array.getElem?_push] at found
    split at found
    · rename_i last
      cases found
      rw [numbered a own, nextId, ← last]
    · exact h id a (adt?_eq_some.2 ⟨item, found, own⟩)

/-- What is found in a tree is found in one with more items. -/
theorem item?_of_extends (more : tree.items.toList <+: tree'.items.toList) {id : DefId}
    {item : Item} (found : tree.item? id = some item) : tree'.item? id = some item := by
  simp only [item?, ← Array.getElem?_toList] at found ⊢
  obtain ⟨new, eq⟩ := more
  obtain ⟨bound, -⟩ := List.getElem?_eq_some_iff.1 found
  rw [← eq, List.getElem?_append_left bound, found]

theorem trait?_of_extends (more : tree.items.toList <+: tree'.items.toList) {id : DefId}
    {t : TraitDecl} (declared : tree.trait? id = some t) : tree'.trait? id = some t := by
  obtain ⟨item, found, own⟩ := trait?_eq_some.1 declared
  exact trait?_eq_some.2 ⟨item, item?_of_extends more found, own⟩

theorem adt?_of_extends (more : tree.items.toList <+: tree'.items.toList) {id : DefId}
    {a : AdtDecl} (declared : tree.adt? id = some a) : tree'.adt? id = some a := by
  obtain ⟨item, found, own⟩ := adt?_eq_some.1 declared
  exact adt?_eq_some.2 ⟨item, item?_of_extends more found, own⟩

/-! ## Many declarations -/

theorem adtsNumbered_empty (crate : String) : (empty crate).AdtsNumbered := by
  intro id a declared
  obtain ⟨item, found, -⟩ := adt?_eq_some.1 declared
  exact absurd found (by simp [empty])

theorem numbered_empty (crate : String) : (empty crate).Numbered := by
  intro id t declared
  obtain ⟨item, found, -⟩ := trait?_eq_some.1 declared
  exact absurd found (by simp [empty])

theorem Numbered.declareAll (declarations : List Declaration) (h : tree.Numbered) :
    (tree.declareAll declarations).Numbered :=
  List.foldlRecOn declarations ItemTree.declare h fun _ numbered declaration _ =>
    numbered.declare declaration

theorem Numbered.treeAfter (h : tree.Numbered) (step : Step) : (step.treeAfter tree).Numbered := by
  cases step with
  | declare declaration => exact h.declare declaration
  | request request => exact h

theorem AdtsNumbered.treeAfter (h : tree.AdtsNumbered) (step : Step) :
    (step.treeAfter tree).AdtsNumbered := by
  cases step with
  | declare declaration => exact h.declare declaration
  | request request => exact h

/-- Steps declare more and take nothing back. -/
theorem treeAfter_extends (tree : ItemTree) (step : Step) :
    tree.items.toList <+: (step.treeAfter tree).items.toList := by
  cases step with
  | declare declaration => exact tree.declare_extends declaration
  | request request => exact List.prefix_rfl

theorem after_extends (tree : ItemTree) (steps : List Step) :
    tree.items.toList <+: (tree.after steps).items.toList := by
  induction steps generalizing tree with
  | nil => exact List.prefix_rfl
  | cons step rest ih => exact (tree.treeAfter_extends step).trans (ih (step.treeAfter tree))

/-- Traits are numbered, whatever is declared later. -/
theorem Numbered.after (h : tree.Numbered) (steps : List Step) : (tree.after steps).Numbered :=
  List.foldlRecOn steps Step.treeAfter h fun _ numbered step _ => numbered.treeAfter step

theorem AdtsNumbered.after (h : tree.AdtsNumbered) (steps : List Step) :
    (tree.after steps).AdtsNumbered :=
  List.foldlRecOn steps Step.treeAfter h fun _ numbered step _ => numbered.treeAfter step

/-- Where all traits of the later tree have receivers, those of the earlier one have. -/
theorem HasReceivers.of_after {steps : List Step} (h : (tree.after steps).HasReceivers) :
    tree.HasReceivers :=
  fun item mem => h item ((tree.after_extends steps).subset mem)

/-- Declarations may be made in two goes. -/
theorem after_append (tree : ItemTree) (steps later : List Step) :
    tree.after (steps ++ later) = (tree.after steps).after later :=
  List.foldl_append

end ItemTree

end TraitEngine
