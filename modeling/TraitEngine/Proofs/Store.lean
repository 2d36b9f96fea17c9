import TraitEngine.Proofs.Owners
import TraitEngine.Proofs.Table
/-!
# The store of declarations

What holds of every tree that is put together clause by clause (`declareAll_inOrder`),
whatever the clauses are and in whichever order they come:

* the nodes of its parameters, items and self types are taken from the supply one by one, so
  none has a second owner;
* items and implementations have the ids that they are found under;
* the receiver is the first parameter of each trait;
* the two indexes, which are kept beside the items, answer as a search of the items would. For
  a path the index has the id alone, so this is where a later item hides an earlier one.

Only the place of the receiver needs the clauses; a trait that comes as a whole keeps its own.
-/

namespace TraitEngine

set_option autoImplicit false

namespace Decl

def id : Decl → DefId
  | .trait t => t.id
  | .adt a => a.id

def nodes : Decl → List NodeId
  | .trait t => t.nodes
  | .adt a => a.params.map GenericParam.node

end Decl

namespace Declaration

/-- The declaration is made clause by clause. -/
def IsBuilt : Declaration → Prop
  | .wholeTrait .. => False
  | _ => True

instance : DecidablePred IsBuilt
  | .wholeTrait .. => .isFalse id
  | .trait .. | .adt .. | .impl .. => .isTrue trivial

end Declaration

/-- The first parameter of the trait is its receiver. -/
def TraitDecl.OpensWithReceiver (t : TraitDecl) : Prop :=
  ∃ p, t.params.head? = some (.type p) ∧ p.name = receiverName

namespace ItemTree

/-- The nodes of all declarations, each as often as it has an owner. -/
def nodes (tree : ItemTree) : List NodeId :=
  tree.items.toList.flatMap (·.decl.nodes) ++ tree.impls.toList.flatMap ImplBlock.nodes

/-- The item has the path, and none that is declared after it has. -/
def LatestAt (tree : ItemTree) (path : String) (id : DefId) : Prop :=
  (∃ item, tree.item? id = some item ∧ item.path = path) ∧
    ∀ later item, id.index < later.index → tree.item? later = some item → item.path ≠ path

/-- The indexes tell what is declared: by name all items, in order, by path the latest. -/
structure Indexed (tree : ItemTree) : Prop where
  sorted : ∀ name, (tree.lookupName name).Pairwise (·.index < ·.index)
  names : ∀ name id, id ∈ tree.lookupName name ↔
    ∃ item, tree.item? id = some item ∧ item.name = name
  paths : ∀ path id, tree.lookupPath? path = some id ↔ tree.LatestAt path id

/-- The store is in order. -/
structure InOrder (tree : ItemTree) : Prop extends tree.Indexed where
  nodes_nodup : tree.nodes.Nodup
  itemIds : ∀ id item, tree.item? id = some item → item.decl.id = id
  implIds : ∀ id block, tree.impl? id = some block → block.id = id
  receivers : ∀ id t, tree.trait? id = some t → t.OpensWithReceiver

variable {tree : ItemTree}

/-! ## Adding an item -/

theorem index_lt_of_item? {id : DefId} {item : Item} (found : tree.item? id = some item) :
    id.index < tree.nextId.index :=
  (Array.getElem?_eq_some_iff.1 found).1

theorem item?_push (item : Item) (id : DefId) :
    (tree.push item).item? id = if id = tree.nextId then some item else tree.item? id := by
  have last : id = tree.nextId ↔ id.index = tree.items.size :=
    ⟨fun same => by rw [same, nextId], fun same => by rw [nextId, ← same]⟩
  simp only [item?, push, Array.getElem?_push, last]

theorem lookupName_push (item : Item) (name : String) :
    (tree.push item).lookupName name =
      if name = item.name then tree.lookupName name ++ [tree.nextId]
      else tree.lookupName name := by
  rw [lookupName, push, Table.get?_insert]
  split
  · rename_i own
    rw [own, Option.getD_some]
  · rfl

theorem lookupPath?_push (item : Item) (path : String) :
    (tree.push item).lookupPath? path =
      if path = item.path then some tree.nextId else tree.lookupPath? path :=
  Table.get?_insert

theorem latestAt_push_self (item : Item) : (tree.push item).LatestAt item.path tree.nextId := by
  refine ⟨⟨item, by rw [item?_push, if_pos rfl], rfl⟩, fun later other behind found => ?_⟩
  rw [item?_push, if_neg] at found
  · exact absurd (index_lt_of_item? found) (Nat.lt_asymm behind)
  · rintro rfl
    exact Nat.lt_irrefl _ behind

/-- An item does not hide those with another path. -/
theorem latestAt_push_of_ne {item : Item} {path : String} (other : path ≠ item.path) {id : DefId} :
    (tree.push item).LatestAt path id ↔ tree.LatestAt path id := by
  have same (id : DefId) (found : Item) (own : found.path = path) :
      (tree.push item).item? id = some found ↔ tree.item? id = some found := by
    rw [item?_push]
    split
    · rename_i last
      constructor
      · rintro ⟨⟩
        exact absurd own.symm other
      · intro old
        exact absurd (index_lt_of_item? old) (last ▸ Nat.lt_irrefl _)
    · rfl
  constructor
  · rintro ⟨⟨found, there, own⟩, last⟩
    exact ⟨⟨found, (same id found own).1 there, own⟩, fun later next behind there own =>
      last later next behind ((same later next own).2 there) own⟩
  · rintro ⟨⟨found, there, own⟩, last⟩
    exact ⟨⟨found, (same id found own).2 there, own⟩, fun later next behind there own =>
      last later next behind ((same later next own).1 there) own⟩

/-- At most one item is the latest with its path. -/
theorem LatestAt.unique {path : String} {id id' : DefId} (h : tree.LatestAt path id)
    (h' : tree.LatestAt path id') : id = id' := by
  obtain ⟨⟨item, found, own⟩, last⟩ := h
  obtain ⟨⟨item', found', own'⟩, last'⟩ := h'
  rcases Nat.lt_trichotomy id.index id'.index with behind | same | behind
  · exact absurd own' (last id' item' behind found')
  · cases id
    cases id'
    exact congrArg DefId.mk same
  · exact absurd own (last' id item behind found)

theorem indexed_empty (crate : String) : (empty crate).Indexed where
  sorted _ := .nil
  names name id := by simp [empty, lookupName, Table.get?, item?]
  paths path id := by simp [empty, lookupPath?, Table.get?, item?, LatestAt]

theorem Indexed.push (h : tree.Indexed) (item : Item) : (tree.push item).Indexed where
  sorted name := by
    rw [lookupName_push]
    split
    · refine List.pairwise_append.2 ⟨h.sorted name, List.pairwise_singleton _ _, ?_⟩
      intro id mem last new
      obtain ⟨old, found, -⟩ := (h.names name id).1 mem
      rw [List.mem_singleton.1 new]
      exact index_lt_of_item? found
    · exact h.sorted name
  names name id := by
    rw [lookupName_push, item?_push]
    by_cases last : id = tree.nextId
    · have absent : id ∉ tree.lookupName name := by
        intro mem
        obtain ⟨old, found, -⟩ := (h.names name id).1 mem
        exact absurd (index_lt_of_item? found) (last ▸ Nat.lt_irrefl _)
      rw [if_pos last]
      split
      · rename_i own
        exact ⟨fun _ => ⟨item, rfl, own.symm⟩, fun _ => by simp [last]⟩
      · rename_i other
        refine ⟨fun mem => absurd mem absent, ?_⟩
        rintro ⟨_, ⟨⟩, own⟩
        exact absurd own.symm other
    · rw [if_neg last, ← h.names name id]
      split
      · simp [last]
      · rfl
  paths path id := by
    rw [lookupPath?_push]
    split
    · rename_i own
      subst own
      have latest := tree.latestAt_push_self item
      refine ⟨fun same => Option.some.inj same ▸ latest, fun also => ?_⟩
      rw [also.unique latest]
    · rename_i other
      rw [h.paths, latestAt_push_of_ne other]

end ItemTree

/-! ## Clauses -/

namespace TraitDraft

theorem apply_name (d : TraitDraft) (clause : TraitClause) :
    (d.apply clause).decl.name = d.decl.name := by
  cases clause with
  | method name clauses =>
      simp only [apply]
      split <;> rfl
  | _ => rfl

theorem foldl_apply_name (clauses : List TraitClause) (d : TraitDraft) :
    (clauses.foldl apply d).decl.name = d.decl.name :=
  List.foldlRecOn (motive := fun d' : TraitDraft => d'.decl.name = d.decl.name) clauses apply rfl
    fun d' own clause _ => (apply_name d' clause).trans own

theorem opensWithReceiver_apply {d : TraitDraft} (opens : d.decl.OpensWithReceiver)
    (clause : TraitClause) : (d.apply clause).decl.OpensWithReceiver := by
  obtain ⟨p, first, named⟩ := opens
  obtain ⟨rest, params⟩ := List.head?_eq_some_iff.1 first
  have pushed {d : TraitDraft} (params : d.decl.params = .type p :: rest)
      (param : NodeId → GenericParam) : (d.pushParam param).decl.OpensWithReceiver :=
    ⟨p, by rw [pushParam, params]; rfl, named⟩
  cases clause with
  | span span => exact ⟨{ p with span }, by simp only [apply, setSpan, params]; rfl, named⟩
  | lifetime name => exact pushed params _
  | typeParam name bounds fallback => exact pushed params _
  | method name clauses =>
      refine ⟨p, ?_, named⟩
      simp only [apply]
      split <;> exact first
  | _ => exact ⟨p, first, named⟩

end TraitDraft

theorem ImplDraft.apply_id (d : ImplDraft) (clause : ImplClause) :
    (d.apply clause).block.id = d.block.id := by
  cases clause <;> rfl

namespace ItemTree

variable {tree : ItemTree}

/-! ## One declaration -/

theorem Indexed.declare (h : tree.Indexed) (declaration : Declaration) :
    (tree.declare declaration).Indexed := by
  have numbered (next : Nat) : { tree with nextNode := next }.Indexed := ⟨h.sorted, h.names, h.paths⟩
  cases declaration with
  | trait path clauses => exact (numbered _).push _
  | wholeTrait path decl => exact (numbered _).push _
  | adt kind path params => exact (numbered _).push _
  | impl self clauses => exact ⟨h.sorted, h.names, h.paths⟩

/-- What a declaration adds to the nodes comes from the supply. -/
theorem declare_nodes (tree : ItemTree) (declaration : Declaration) :
    ∃ new, TakenFrom tree.nextNode (tree.declare declaration).nextNode new ∧
      (tree.nodes ++ new).Perm (tree.declare declaration).nodes := by
  have pushed {next : Nat} {item : Item}
      (taken : TakenFrom tree.nextNode next item.decl.nodes) :
      ∃ new, TakenFrom tree.nextNode next new ∧
        (tree.nodes ++ new).Perm ({ tree with nextNode := next }.push item).nodes := by
    refine ⟨item.decl.nodes, taken, ?_⟩
    rw [nodes, nodes, push, Array.toList_push, List.flatMap_append, List.flatMap_singleton,
      List.append_assoc, List.append_assoc]
    exact List.perm_append_comm.append_left _
  cases declaration with
  | trait path clauses =>
      exact pushed ((TraitDraft.start_taken tree.nextNode tree.nextId (splitName path).2).foldl
        clauses)
  | wholeTrait path decl =>
      exact pushed ((TraitDecl.numberParams_taken decl.params tree.nextNode).trans
        (TraitDecl.numberItems_taken decl.items _))
  | adt kind path params =>
      exact pushed (TraitDecl.numberParams_taken
        (params.map fun param => typeParam ⟨0⟩ param [] none default) tree.nextNode)
  | impl self clauses =>
      refine ⟨_, (ImplDraft.start_taken tree.nextNode tree.nextImplId self).foldl clauses, ?_⟩
      rw [nodes, nodes, declare, addImpl, Array.toList_push, List.flatMap_append,
        List.flatMap_singleton, ← List.append_assoc]

/-- All nodes of the declarations are taken from the supply. -/
def Supplied (tree : ItemTree) : Prop := TakenFrom 0 tree.nextNode tree.nodes

theorem Supplied.declare (h : tree.Supplied) (declaration : Declaration) :
    (tree.declare declaration).Supplied := by
  obtain ⟨new, taken, perm⟩ := tree.declare_nodes declaration
  exact (h.trans taken).of_perm perm

/-- Every implementation knows its own id. -/
def ImplsNumbered (tree : ItemTree) : Prop :=
  ∀ id block, tree.impl? id = some block → block.id = id

theorem ImplsNumbered.declare (h : tree.ImplsNumbered) (declaration : Declaration) :
    (tree.declare declaration).ImplsNumbered := by
  cases declaration with
  | impl self clauses =>
      intro id block found
      rw [impl?, ItemTree.declare, addImpl, Array.getElem?_push] at found
      split at found
      · rename_i last
        cases found
        refine (List.foldlRecOn (motive := fun d : ImplDraft => d.block.id = tree.nextImplId)
          clauses ImplDraft.apply rfl fun d own clause _ => ?_).trans ?_
        · rw [ImplDraft.apply_id, own]
        · rw [nextImplId, ← last]
      · exact h id block found
  | _ => exact h

/-- Every trait starts with its receiver. -/
def OpenWithReceivers (tree : ItemTree) : Prop :=
  ∀ id t, tree.trait? id = some t → t.OpensWithReceiver

theorem OpenWithReceivers.declare (h : tree.OpenWithReceivers) {declaration : Declaration}
    (built : declaration.IsBuilt) : (tree.declare declaration).OpenWithReceivers := by
  have pushed {next : Nat} {item : Item}
      (opens : ∀ t, item.decl.trait? = some t → t.OpensWithReceiver) :
      ({ tree with nextNode := next }.push item).OpenWithReceivers := by
    intro id t declared
    obtain ⟨found, there, own⟩ := Option.bind_eq_some_iff.1 declared
    rw [item?_push] at there
    split at there
    · cases there
      exact opens t own
    · exact h id t (Option.bind_eq_some_iff.2 ⟨found, there, own⟩)
  cases declaration with
  | trait path clauses =>
      refine pushed fun t own => ?_
      cases own
      exact List.foldlRecOn (motive := fun d : TraitDraft => d.decl.OpensWithReceiver) clauses
        TraitDraft.apply ⟨_, rfl, rfl⟩ fun d opens clause _ =>
          TraitDraft.opensWithReceiver_apply opens clause
  | wholeTrait path decl => exact built.elim
  | adt kind path params => exact pushed fun _ own => nomatch own
  | impl self clauses => exact h

/-! ## Many declarations -/

/-- What each declaration keeps holds of a tree that is declared from nothing. -/
theorem declareAll_induction {motive : ItemTree → Prop} {crate : String}
    {declarations : List Declaration} (start : motive (empty crate))
    (step : ∀ tree, motive tree → ∀ declaration ∈ declarations,
      motive (tree.declare declaration)) :
    motive ((empty crate).declareAll declarations) :=
  List.foldlRecOn declarations declare start step

theorem indexed_declareAll (crate : String) (declarations : List Declaration) :
    ((empty crate).declareAll declarations).Indexed :=
  declareAll_induction (indexed_empty crate) fun _ h declaration _ => h.declare declaration

theorem supplied_declareAll (crate : String) (declarations : List Declaration) :
    ((empty crate).declareAll declarations).Supplied :=
  declareAll_induction (TakenFrom.nil 0) fun _ h declaration _ => h.declare declaration

/-- A tree that is put together clause by clause is in order: nodes have one owner, ids are
indexes, receivers come first, and the two indexes tell what is declared. -/
theorem declareAll_inOrder (crate : String) {declarations : List Declaration}
    (built : ∀ declaration ∈ declarations, declaration.IsBuilt) :
    ((empty crate).declareAll declarations).InOrder where
  toIndexed := indexed_declareAll crate declarations
  nodes_nodup := (supplied_declareAll crate declarations).nodup
  itemIds := by
    have traits := (numbered_empty crate).declareAll declarations
    have adts : ((empty crate).declareAll declarations).AdtsNumbered :=
      declareAll_induction (adtsNumbered_empty crate) fun _ h declaration _ =>
        h.declare declaration
    intro id item found
    cases own : item.decl with
    | trait t => exact traits id t (trait?_eq_some.2 ⟨item, found, by rw [own]; rfl⟩)
    | adt a => exact adts id a (adt?_eq_some.2 ⟨item, found, by rw [own]; rfl⟩)
  implIds := by
    have start : (empty crate).ImplsNumbered := fun id block found => by
      simp [impl?, empty] at found
    exact declareAll_induction start fun _ h declaration _ => h.declare declaration
  receivers := by
    have start : (empty crate).OpenWithReceivers := fun id t declared => by
      simp [trait?, item?, empty] at declared
    exact declareAll_induction start fun _ h declaration mem => h.declare (built declaration mem)

/-- Two items at one path and a third of their name, with parameters of all kinds. -/
theorem declareAll_inOrder_overlaid :
    let declarations : List Declaration := [
      .trait "shapes::Shape" [.lifetime "a", .method "scale" [.self .ref, .typeParam "U" []],
        .typeParam "T" [] none, .assocConst "SIDES" (.ofText "u8") none],
      .impl (.ofText "u8") [.typeParam "V" [], .span default],
      .adt .enum "shapes::Shape" ["W"],
      .trait "Shape" [.span default]]
    let tree := (empty "main").declareAll declarations
    (∀ declaration ∈ declarations, declaration.IsBuilt) ∧ tree.InOrder ∧
      tree.nodes.map NodeId.index = [0, 1, 4, 3, 2, 5, 8, 9, 6, 7] ∧
      tree.lookupName "Shape" = [⟨0⟩, ⟨1⟩, ⟨2⟩] ∧ tree.lookupPath? "shapes::Shape" = some ⟨1⟩ := by
  intro declarations tree
  have built : ∀ declaration ∈ declarations, declaration.IsBuilt := by decide
  exact ⟨built, declareAll_inOrder "main" built, by decide +kernel⟩

end ItemTree

end TraitEngine
