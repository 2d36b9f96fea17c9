import TraitEngine.Proofs.Declarations
import Mathlib.Data.List.Nodup
/-!
# Whose node is it

Every type parameter and every item of a trait has a node of its own, and so have the
parameters of its methods. Declarations take nodes from the supply of the tree, so in a
declared tree no node belongs to two traits (`apart_declareAll`), and those of implementations
belong to none (`Housed.after`).
-/

namespace TraitEngine

set_option autoImplicit false

namespace GenericParam

def node : GenericParam → NodeId
  | .lifetime node _ _ => node
  | .type param => param.node

@[simp] theorem node_withNode (node : NodeId) (p : GenericParam) : (p.withNode node).node = node := by
  cases p <;> rfl

/-- The node of a type parameter is among those of all parameters. -/
theorem node_mem_of_type {params : List GenericParam} {p : TypeParam}
    (mem : p ∈ params.filterMap type?) : p.node ∈ params.map node := by
  obtain ⟨param, there, own⟩ := List.mem_filterMap.1 mem
  cases param with
  | lifetime node name span => cases own
  | type q =>
      cases own
      exact List.mem_map.2 ⟨_, there, rfl⟩

end GenericParam

/-- The node of the item and those of its parameters. -/
def TraitItem.nodes (item : TraitItem) : List NodeId :=
  item.node :: item.kind.generics.map GenericParam.node

namespace TraitDecl

def nodes (t : TraitDecl) : List NodeId :=
  t.params.map GenericParam.node ++ t.items.flatMap TraitItem.nodes

theorem node_mem_nodes {t : TraitDecl} {p : TypeParam} (mem : p ∈ t.typeParams) :
    p.node ∈ t.nodes :=
  List.mem_append_left _ (GenericParam.node_mem_of_type mem)

theorem item_nodes_subset {t : TraitDecl} {item : TraitItem} (mem : item ∈ t.items) :
    item.nodes ⊆ t.nodes :=
  fun _ there => List.mem_append_right _ (List.mem_flatMap.2 ⟨item, mem, there⟩)

end TraitDecl

/-- No node belongs to a parameter of the trait and to an item. -/
def TraitDecl.Parted (t : TraitDecl) : Prop :=
  ∀ n ∈ t.params.map GenericParam.node, n ∉ t.items.flatMap TraitItem.nodes

/-- Nodes that are taken one by one are not shared. -/
theorem TraitDecl.parted_of_nodup {t : TraitDecl} (nodup : t.nodes.Nodup) : t.Parted :=
  fun _ mem also => (List.nodup_append.1 nodup).2.2 _ mem _ also rfl

/-- The node of the self type and those of the parameters. -/
def ImplBlock.nodes (b : ImplBlock) : List NodeId := b.selfNode :: b.params.map GenericParam.node

theorem TraitItem.generic_mem_nodes {item : TraitItem} {p : TypeParam}
    (mem : p ∈ item.kind.generics.filterMap GenericParam.type?) : p.node ∈ item.nodes :=
  List.mem_cons_of_mem _ (GenericParam.node_mem_of_type mem)

theorem ImplBlock.generic_mem_nodes {block : ImplBlock} {p : TypeParam}
    (mem : p ∈ block.params.filterMap GenericParam.type?) : p.node ∈ block.nodes :=
  List.mem_cons_of_mem _ (GenericParam.node_mem_of_type mem)

/-- The nodes were taken one by one from a supply that went from `first` to `next`. -/
structure TakenFrom (first next : Nat) (nodes : List NodeId) : Prop where
  grows : first ≤ next
  bounded : ∀ n ∈ nodes, first ≤ n.index ∧ n.index < next
  nodup : nodes.Nodup

namespace TakenFrom

variable {first next later : Nat} {nodes more : List NodeId}

theorem nil (first : Nat) : TakenFrom first first [] := ⟨Nat.le_refl first, nofun, .nil⟩

/-- What is taken later is something else. -/
theorem not_mem (h : TakenFrom first next nodes) (h' : TakenFrom next later more) {n : NodeId}
    (mem : n ∈ nodes) : n ∉ more := by
  intro also
  have below := (h.bounded n mem).2
  have above := (h'.bounded n also).1
  omega

theorem trans (h : TakenFrom first next nodes) (h' : TakenFrom next later more) :
    TakenFrom first later (nodes ++ more) where
  grows := Nat.le_trans h.grows h'.grows
  bounded := by
    have grows := h.grows
    have grows' := h'.grows
    intro n mem
    rcases List.mem_append.1 mem with mem | mem
    · have := h.bounded n mem
      omega
    · have := h'.bounded n mem
      omega
  nodup := h.nodup.append h'.nodup fun _ mem => h.not_mem h' mem

theorem of_perm (h : TakenFrom first next nodes) (perm : nodes.Perm more) :
    TakenFrom first next more where
  grows := h.grows
  bounded n mem := h.bounded n (perm.mem_iff.2 mem)
  nodup := perm.nodup_iff.1 h.nodup

/-- Another node is taken. -/
theorem cons (h : TakenFrom first next nodes) : TakenFrom first (next + 1) (⟨next⟩ :: nodes) := by
  have single : TakenFrom next (next + 1) [⟨next⟩] :=
    ⟨Nat.le_succ next, by simp, List.nodup_singleton _⟩
  exact (h.trans single).of_perm List.perm_append_comm

end TakenFrom

/-! ## Builders -/

namespace FnDraft

variable {first : Nat} {d : FnDraft}

/-- The nodes of the draft were taken from the supply. -/
def Taken (first : Nat) (d : FnDraft) : Prop :=
  TakenFrom first d.nextNode (d.decl.generics.map GenericParam.node)

theorem Taken.apply (h : Taken first d) (clause : FnClause) : Taken first (d.apply clause) := by
  cases clause with
  | typeParam name bounds =>
      refine h.cons.of_perm ?_
      simp only [FnDraft.apply, List.map_append]
      exact (List.perm_append_singleton _ _).symm
  | _ => exact h

theorem Taken.foldl (clauses : List FnClause) (h : Taken first d) :
    Taken first (clauses.foldl FnDraft.apply d) :=
  List.foldlRecOn clauses FnDraft.apply h fun _ taken clause _ => taken.apply clause

end FnDraft

namespace TraitDraft

variable {first : Nat} {d : TraitDraft}

/-- The nodes of the draft were taken from the supply. -/
def Taken (first : Nat) (d : TraitDraft) : Prop := TakenFrom first d.nextNode d.decl.nodes

theorem start_taken (first : Nat) (id : DefId) (name : String) : Taken first (start first id name) :=
  (TakenFrom.nil first).cons

theorem Taken.pushParam (h : Taken first d) {param : NodeId → GenericParam}
    (own : ∀ n, (param n).node = n) : Taken first (d.pushParam param) := by
  refine h.cons.of_perm ?_
  simp only [TraitDraft.pushParam, TraitDecl.nodes, List.map_append, List.map_cons, List.map_nil,
    own, List.append_assoc, List.singleton_append]
  exact List.perm_middle.symm

/-- An item takes its own node after those of its parameters. -/
theorem Taken.pushItem (h : Taken first d) {next : Nat} (name : String) (kind : TraitItemKind)
    (own : TakenFrom d.nextNode next (kind.generics.map GenericParam.node)) :
    Taken first ({ d with nextNode := next }.pushItem name kind) := by
  refine (h.trans own).cons.of_perm ?_
  simp only [TraitDraft.pushItem, TraitDecl.nodes, List.flatMap_append, List.flatMap_cons,
    List.flatMap_nil, List.append_nil, TraitItem.nodes, ← List.append_assoc]
  exact List.perm_middle.symm

/-- Moving the trait keeps the nodes of its parameters. -/
theorem paramNodes_setSpan (d : TraitDraft) (span : Span) :
    (d.setSpan span).decl.params.map GenericParam.node =
      d.decl.params.map GenericParam.node := by
  rcases d with ⟨next, decl⟩
  unfold setSpan
  cases params : decl.params with
  | nil => simp
  | cons p rest => cases p <;> simp [GenericParam.node]

theorem nodes_setSpan (d : TraitDraft) (span : Span) :
    (d.setSpan span).decl.nodes = d.decl.nodes := by
  rw [TraitDecl.nodes, paramNodes_setSpan]
  rfl

/-- Moving an item keeps the nodes of all items. -/
theorem itemNodes_setItemSpan (d : TraitDraft) (span : Span) :
    (d.setItemSpan span).decl.items.flatMap TraitItem.nodes =
      d.decl.items.flatMap TraitItem.nodes := by
  have kept (items : List TraitItem) : ∀ i : Nat,
      (items.modify i fun item => { item with span }).flatMap TraitItem.nodes =
        items.flatMap TraitItem.nodes := by
    induction items with
    | nil => simp
    | cons item rest ih =>
        intro i
        cases i with
        | zero => rfl
        | succ i => simp only [List.modify_succ_cons, List.flatMap_cons, ih i]
  exact kept d.decl.items _

theorem nodes_setItemSpan (d : TraitDraft) (span : Span) :
    (d.setItemSpan span).decl.nodes = d.decl.nodes := by
  rw [TraitDecl.nodes, itemNodes_setItemSpan]
  rfl

theorem Taken.apply (h : Taken first d) (clause : TraitClause) : Taken first (d.apply clause) := by
  cases clause with
  | span span =>
      show TakenFrom first (d.setSpan span).nextNode (d.setSpan span).decl.nodes
      rw [nodes_setSpan]
      exact h
  | lifetime name => exact h.pushParam fun _ => rfl
  | typeParam name bounds fallback => exact h.pushParam fun _ => rfl
  | super path => exact h
  | assocType name bounds fallback => exact h.pushItem name _ (.nil _)
  | assocConst name ty body => exact h.pushItem name _ (.nil _)
  | method name clauses =>
      let f : FnDraft := clauses.foldl FnDraft.apply { nextNode := d.nextNode }
      have own : FnDraft.Taken d.nextNode f := FnDraft.Taken.foldl clauses (.nil _)
      have pushed := h.pushItem name (.fn f.decl) own
      simp only [TraitDraft.apply]
      split
      · rw [Taken, nodes_setItemSpan]
        exact pushed
      · exact pushed
  | itemSpan span =>
      show TakenFrom first (d.setItemSpan span).nextNode (d.setItemSpan span).decl.nodes
      rw [nodes_setItemSpan]
      exact h

theorem Taken.foldl (clauses : List TraitClause) (h : Taken first d) :
    Taken first (clauses.foldl TraitDraft.apply d) :=
  List.foldlRecOn clauses TraitDraft.apply h fun _ taken clause _ => taken.apply clause

end TraitDraft

namespace ImplDraft

variable {first : Nat} {d : ImplDraft}

/-- The nodes of the draft were taken from the supply. -/
def Taken (first : Nat) (d : ImplDraft) : Prop := TakenFrom first d.nextNode d.block.nodes

theorem start_taken (first : Nat) (id : ImplId) (self : TypeExpr) :
    Taken first (start first id self) :=
  (TakenFrom.nil first).cons

theorem Taken.apply (h : Taken first d) (clause : ImplClause) : Taken first (d.apply clause) := by
  cases clause with
  | typeParam name bounds =>
      refine h.cons.of_perm ?_
      simp only [ImplDraft.apply, ImplBlock.nodes, List.map_append, ← List.cons_append]
      exact (List.perm_append_singleton _ _).symm
  | _ => exact h

theorem Taken.foldl (clauses : List ImplClause) (h : Taken first d) :
    Taken first (clauses.foldl ImplDraft.apply d) :=
  List.foldlRecOn clauses ImplDraft.apply h fun _ taken clause _ => taken.apply clause

end ImplDraft

namespace TraitDecl

theorem numberParams_taken (params : List GenericParam) : ∀ first : Nat,
    TakenFrom first (numberParams first params).2
      ((numberParams first params).1.map GenericParam.node) := by
  induction params with
  | nil => exact fun first => .nil first
  | cons p rest ih =>
      intro first
      simpa [numberParams] using (TakenFrom.nil first).cons.trans (ih (first + 1))

theorem numberItems_taken (items : List TraitItem) : ∀ first : Nat,
    TakenFrom first (numberItems first items).2
      ((numberItems first items).1.flatMap TraitItem.nodes) := by
  induction items with
  | nil => exact fun first => .nil first
  | cons item rest ih =>
      intro first
      have tail {own : Nat} (kind : TraitItemKind)
          (h : TakenFrom first own (kind.generics.map GenericParam.node)) :
          TakenFrom first (numberItems (own + 1) rest).2
            (TraitItem.nodes { item with kind, node := ⟨own⟩ } ++
              (numberItems (own + 1) rest).1.flatMap TraitItem.nodes) :=
        h.cons.trans (ih (own + 1))
      cases kind : item.kind with
      | fn decl =>
          simpa only [numberItems, kind, List.flatMap_cons] using
            tail (.fn { decl with generics := (numberParams first decl.generics).1 })
              (numberParams_taken decl.generics first)
      | type bounds fallback =>
          simpa only [numberItems, kind, List.flatMap_cons] using
            tail (.type bounds fallback) (.nil first)
      | const ty body =>
          simpa only [numberItems, kind, List.flatMap_cons] using
            tail (.const ty body) (.nil first)

end TraitDecl

/-! ## Trees -/

namespace ItemTree

/-- The node belongs to the declaration of the trait. -/
def Owns (tree : ItemTree) (id : DefId) (n : NodeId) : Prop :=
  ∃ decl, tree.trait? id = some decl ∧ n ∈ decl.nodes

/-- No node belongs to two traits. -/
def Apart (tree : ItemTree) : Prop := ∀ a b n, tree.Owns a n → tree.Owns b n → a = b

variable {tree : ItemTree}

/-- The nodes of a newly declared trait were taken from the supply. -/
theorem declare_taken (tree : ItemTree) (declaration : Declaration) :
    tree.nextNode ≤ (tree.declare declaration).nextNode ∧
      ∀ id decl, (tree.declare declaration).trait? id = some decl → tree.trait? id = some decl ∨
        id = tree.nextId ∧ TakenFrom tree.nextNode (tree.declare declaration).nextNode decl.nodes := by
  have pushed {tree' : ItemTree} (item : Item) (items : tree'.items = tree.items.push item)
      (taken : ∀ decl, item.decl.trait? = some decl →
        TakenFrom tree.nextNode tree'.nextNode decl.nodes) :
      ∀ id decl, tree'.trait? id = some decl → tree.trait? id = some decl ∨
        id = tree.nextId ∧ TakenFrom tree.nextNode tree'.nextNode decl.nodes := by
    intro id decl declared
    obtain ⟨found, there, own⟩ := trait?_eq_some.1 declared
    rw [items, Array.getElem?_push] at there
    split at there
    · rename_i last
      cases there
      exact Or.inr ⟨by rw [nextId, ← last], taken decl own⟩
    · exact Or.inl (trait?_eq_some.2 ⟨found, there, own⟩)
  cases declaration with
  | trait path clauses =>
      have taken := (TraitDraft.start_taken tree.nextNode tree.nextId (splitName path).2).foldl
        clauses
      exact ⟨taken.grows, pushed _ rfl fun decl own => by cases own; exact taken⟩
  | wholeTrait path decl =>
      have taken := (TraitDecl.numberParams_taken decl.params tree.nextNode).trans
        (TraitDecl.numberItems_taken decl.items _)
      exact ⟨taken.grows, pushed _ rfl fun decl' own => by cases own; exact taken⟩
  | adt kind path params =>
      have taken := TraitDecl.numberParams_taken
        (params.map fun param => typeParam ⟨0⟩ param [] none default) tree.nextNode
      exact ⟨taken.grows, pushed _ rfl fun _ own => by cases own⟩
  | impl self clauses =>
      have taken := (ImplDraft.start_taken tree.nextNode tree.nextImplId self).foldl clauses
      exact ⟨taken.grows, fun id decl declared => Or.inl declared⟩

/-- Every node of a trait comes from the supply, and no two traits share one. -/
structure Distributed (tree : ItemTree) : Prop where
  bounded : ∀ id n, tree.Owns id n → n.index < tree.nextNode
  apart : tree.Apart

theorem distributed_empty (crate : String) : (empty crate).Distributed where
  bounded := by
    rintro id n ⟨decl, declared, -⟩
    obtain ⟨item, found, -⟩ := trait?_eq_some.1 declared
    exact absurd found (by simp [empty])
  apart := by
    rintro a b n ⟨decl, declared, -⟩
    obtain ⟨item, found, -⟩ := trait?_eq_some.1 declared
    exact absurd found (by simp [empty])

theorem Distributed.declare (h : tree.Distributed) (declaration : Declaration) :
    (tree.declare declaration).Distributed := by
  obtain ⟨grows, new⟩ := tree.declare_taken declaration
  have cases {id : DefId} {n : NodeId} (owns : (tree.declare declaration).Owns id n) :
      tree.Owns id n ∨ id = tree.nextId ∧ tree.nextNode ≤ n.index ∧
        n.index < (tree.declare declaration).nextNode := by
    obtain ⟨decl, declared, mem⟩ := owns
    rcases new id decl declared with old | ⟨own, taken⟩
    · exact Or.inl ⟨decl, old, mem⟩
    · exact Or.inr ⟨own, taken.bounded n mem⟩
  constructor
  · intro id n owns
    rcases cases owns with old | ⟨-, -, small⟩
    · exact Nat.lt_of_lt_of_le (h.bounded id n old) grows
    · exact small
  · intro a b n left right
    rcases cases left with left | ⟨rfl, above, -⟩ <;> rcases cases right with right | ⟨rfl, above', -⟩
    · exact h.apart a b n left right
    · have := h.bounded a n left
      omega
    · have := h.bounded b n right
      omega
    · rfl

theorem apart_declareAll (crate : String) (declarations : List Declaration) :
    ((empty crate).declareAll declarations).Apart := by
  have all : ((empty crate).declareAll declarations).Distributed :=
    List.foldlRecOn declarations declare (distributed_empty crate)
      fun _ distributed declaration _ => distributed.declare declaration
  exact all.apart

/-- A declared trait is parted: its items take their nodes after its parameters, or at other
times. -/
def Parted (tree : ItemTree) : Prop := ∀ id decl, tree.trait? id = some decl → decl.Parted

theorem parted_empty (crate : String) : (empty crate).Parted := by
  intro id decl declared
  obtain ⟨item, found, -⟩ := trait?_eq_some.1 declared
  exact absurd found (by simp [empty])

theorem Parted.declare (h : tree.Parted) (declaration : Declaration) :
    (tree.declare declaration).Parted := by
  have pushed {tree' : ItemTree} (item : Item) (items : tree'.items = tree.items.push item)
      (parted : ∀ decl, item.decl.trait? = some decl → decl.Parted) : tree'.Parted := by
    intro id decl declared
    obtain ⟨found, there, own⟩ := trait?_eq_some.1 declared
    rw [items, Array.getElem?_push] at there
    split at there
    · cases there
      exact parted decl own
    · exact h id decl (trait?_eq_some.2 ⟨found, there, own⟩)
  cases declaration with
  | trait path clauses =>
      refine pushed _ rfl fun decl own => ?_
      cases own
      exact TraitDecl.parted_of_nodup ((TraitDraft.start_taken tree.nextNode tree.nextId
        (splitName path).2).foldl clauses).nodup
  | wholeTrait path decl =>
      refine pushed _ rfl fun decl' own => ?_
      cases own
      exact TraitDecl.parted_of_nodup ((TraitDecl.numberParams_taken decl.params
        tree.nextNode).trans (TraitDecl.numberItems_taken decl.items _)).nodup
  | adt kind path params => exact pushed _ rfl fun _ own => by cases own
  | impl self clauses => exact fun id decl declared => h id decl declared

theorem Parted.after (h : tree.Parted) (steps : List Step) : (tree.after steps).Parted := by
  refine List.foldlRecOn steps Step.treeAfter h fun _ parted step _ => ?_
  cases step with
  | declare declaration => exact parted.declare declaration
  | request request => exact parted

/-! ## Implementations -/

/-- The node belongs to no trait. -/
def Foreign (tree : ItemTree) (n : NodeId) : Prop := ∀ id, ¬tree.Owns id n

/-- The implementations are those of before, or there is one more, with nodes from the
supply. -/
theorem declare_impls (tree : ItemTree) (declaration : Declaration) :
    ∀ block ∈ (tree.declare declaration).impls, block ∈ tree.impls ∨
      (tree.declare declaration).items = tree.items ∧
        TakenFrom tree.nextNode (tree.declare declaration).nextNode block.nodes := by
  intro block mem
  cases declaration with
  | impl self clauses =>
      refine (Array.mem_push.1 mem).imp_right ?_
      rintro rfl
      exact ⟨rfl, (ImplDraft.start_taken tree.nextNode tree.nextImplId self).foldl clauses⟩
  | _ => exact Or.inl mem

/-- Besides, every node of an implementation comes from the supply and belongs to no trait. -/
structure Housed (tree : ItemTree) : Prop extends tree.Distributed where
  impls : ∀ block ∈ tree.impls, ∀ n ∈ block.nodes, n.index < tree.nextNode ∧ tree.Foreign n

theorem housed_empty (crate : String) : (empty crate).Housed where
  toDistributed := distributed_empty crate
  impls := by simp [empty]

namespace Housed

theorem declare (h : tree.Housed) (declaration : Declaration) :
    (tree.declare declaration).Housed where
  toDistributed := h.toDistributed.declare declaration
  impls := by
    obtain ⟨grows, new⟩ := tree.declare_taken declaration
    intro block mem n own
    rcases tree.declare_impls declaration block mem with old | ⟨items, taken⟩
    · obtain ⟨small, foreign⟩ := h.impls block old n own
      refine ⟨Nat.lt_of_lt_of_le small grows, ?_⟩
      rintro id ⟨decl, declared, there⟩
      rcases new id decl declared with old | ⟨-, above⟩
      · exact foreign id ⟨decl, old, there⟩
      · exact absurd small (Nat.not_lt.2 (above.bounded n there).1)
    · obtain ⟨above, small⟩ := taken.bounded n own
      refine ⟨small, ?_⟩
      rintro id ⟨decl, declared, there⟩
      rw [trait?, item?, items] at declared
      exact absurd (h.bounded id n ⟨decl, declared, there⟩) (Nat.not_lt.2 above)

theorem treeAfter (h : tree.Housed) (step : Step) : (step.treeAfter tree).Housed := by
  cases step with
  | declare declaration => exact h.declare declaration
  | request request => exact h

theorem after (h : tree.Housed) (steps : List Step) : (tree.after steps).Housed :=
  List.foldlRecOn steps Step.treeAfter h fun _ housed step _ => housed.treeAfter step

/-- The node of a self type belongs to no trait. -/
theorem foreign_selfNode (h : tree.Housed) {block : ImplBlock} (mem : block ∈ tree.impls) :
    tree.Foreign block.selfNode :=
  (h.impls block mem _ List.mem_cons_self).2

end Housed

end ItemTree

end TraitEngine
