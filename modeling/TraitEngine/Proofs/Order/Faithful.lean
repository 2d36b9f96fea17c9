import TraitEngine.Proofs.Owners
import TraitEngine.Proofs.Order.Search
import Mathlib.Data.List.Nodup
/-!
# Faithful contexts

`ItemTree.outcome` is what a context holds after a single trait is resolved in an empty
one. A context is faithful to the outcomes if all that it holds of a cached trait is what
the outcome of the trait says: its reference, the types and bounds of its nodes, and
what was cached and reported on the way. Excepted are traits that are busy, which are
being built or have their bodies checked; other nodes than those of busy or cached
traits have neither a type nor bounds.

Every operation keeps a context faithful as long as it writes to nodes of busy traits.
-/

namespace TraitEngine

set_option autoImplicit false

open Relation

namespace Context

/-- The node has the same type and the same bounds in both. -/
def SameAt (n : NodeId) (a b : Context) : Prop :=
  a.types.get? n = b.types.get? n ∧ a.bounds.get? n = b.bounds.get? n

/-- The node has neither a type nor bounds. -/
def Blank (n : NodeId) (cx : Context) : Prop :=
  cx.types.get? n = none ∧ cx.bounds.get? n = none

theorem SameAt.trans {n : NodeId} {a b c : Context} (first : SameAt n a b)
    (second : SameAt n b c) : SameAt n a c :=
  ⟨first.1.trans second.1, first.2.trans second.2⟩

theorem SameAt.symm {n : NodeId} {a b : Context} (h : SameAt n a b) : SameAt n b a :=
  ⟨h.1.symm, h.2.symm⟩

theorem Blank.sameAt {n : NodeId} {a b : Context} (left : Blank n a) (right : Blank n b) :
    SameAt n a b :=
  ⟨left.1.trans right.1.symm, left.2.trans right.2.symm⟩

end Context

open Context

namespace ItemTree

variable (tree : ItemTree) (limit : Nat)

def traitCount : Nat := tree.ids.countP fun id => (tree.trait? id).isSome

/-- What a context is like after the trait is resolved, on its own. -/
def outcome (id : DefId) : Context :=
  match tree.resolveDef id default { limit } with
  | .ok (_, cx) => cx
  | .error _ => { limit }

/-- No trait mentions itself, not even by way of others, and there is room on the stack
for all of them. -/
structure Layered : Prop where
  numbered : tree.Numbered
  receivers : tree.HasReceivers
  apart : tree.Apart
  acyclic : ∀ id, ¬ TransGen tree.Mentions id id
  room : tree.traitCount < limit

structure Faithful (busy : List DefId) (cx : Context) : Prop where
  bounded : cx.limit = limit
  deferred : cx.deferred = []
  nodup : cx.stack.keys.Nodup
  stack : cx.stack.keys ⊆ busy
  labelled : cx.Labelled
  supers : ∀ a b, cx.SuperEdge a b → b ∈ cx.cache.keys
  found : ∀ id ∈ cx.cache.keys, id ∉ busy → cx.trait? id = (tree.outcome limit id).trait? id
  closed : ∀ id ∈ cx.cache.keys, id ∉ busy →
    (tree.outcome limit id).cache.keys ⊆ cx.cache.keys
  problems : ∀ id ∈ cx.cache.keys, id ∉ busy → (tree.outcome limit id).problems ⊆ cx.problems
  nodes : ∀ id ∈ cx.cache.keys, id ∉ busy → ∀ n, tree.Owns id n →
    SameAt n cx (tree.outcome limit id)
  rest : ∀ n, (∀ id, tree.Owns id n → id ∉ cx.cache.keys ∧ id ∉ busy) → cx.Blank n

variable {tree limit} {busy : List DefId} {cx cx' : Context}

theorem length_le_traitCount {ids : List DefId} (nodup : ids.Nodup)
    (declared : ∀ id ∈ ids, ∃ decl, tree.trait? id = some decl) : ids.length ≤ tree.traitCount := by
  rw [traitCount, List.countP_eq_length_filter]
  refine (List.subperm_of_subset nodup fun id mem => ?_).length_le
  obtain ⟨decl, found⟩ := declared id mem
  exact List.mem_filter.2 ⟨mem_ids_of_trait? found, by rw [found]; rfl⟩

theorem declared_of_mentions {a b : DefId} (h : TransGen tree.Mentions a b) :
    ∃ decl, tree.trait? a = some decl := by
  obtain ⟨c, ⟨decl, declared, -⟩, -⟩ := TransGen.head'_iff.1 h
  exact ⟨decl, declared⟩

/-- A trait is none of those that mention it. -/
theorem Layered.not_above (layered : tree.Layered limit) {id : DefId}
    (above : ∀ x ∈ busy, TransGen tree.Mentions x id) : id ∉ busy :=
  fun mem => layered.acyclic id (above id mem)

namespace Faithful

theorem start (limit : Nat) : tree.Faithful limit [] { limit } where
  bounded := rfl
  deferred := rfl
  nodup := List.nodup_nil
  stack := List.Subset.refl _
  labelled := nofun
  supers := nofun
  found := nofun
  closed := nofun
  problems := nofun
  nodes := nofun
  rest := fun _ _ => ⟨rfl, rfl⟩

/-- The traits on the stack leave room for another one. -/
theorem depth_lt (h : tree.Faithful limit busy cx) (layered : tree.Layered limit)
    (declared : ∀ id ∈ busy, ∃ decl, tree.trait? id = some decl) : cx.depth < cx.limit := by
  have small := length_le_traitCount h.nodup fun id mem => declared id (h.stack mem)
  have room := layered.room
  rw [h.bounded]
  simp only [Context.depth, Table.size, Table.keys, List.length_map] at small ⊢
  omega

/-- Neither the journal nor what is pending says anything of outcomes, and more may be
reported. -/
theorem of_eq (h : tree.Faithful limit busy cx) (bounded : cx'.limit = cx.limit)
    (deferred : cx'.deferred = cx.deferred) (stack : cx'.stack.keys = cx.stack.keys)
    (cache : cx'.cache = cx.cache) (types : cx'.types = cx.types) (bounds : cx'.bounds = cx.bounds)
    (problems : cx.problems ⊆ cx'.problems) : tree.Faithful limit busy cx' where
  bounded := bounded.trans h.bounded
  deferred := deferred.trans h.deferred
  nodup := by rw [stack]; exact h.nodup
  stack := by rw [stack]; exact h.stack
  labelled := by simp only [Labelled, Context.trait?, cache]; exact h.labelled
  supers := by simp only [SuperEdge, superIds, Context.trait?, cache]; exact h.supers
  found := by simp only [Context.trait?, cache]; exact h.found
  closed := by rw [cache]; exact h.closed
  problems := by
    rw [cache]
    exact fun id cached free => List.Subset.trans (h.problems id cached free) problems
  nodes := by simp only [SameAt, cache, types, bounds]; exact h.nodes
  rest := by simp only [Blank, cache, types, bounds]; exact h.rest

theorem report (h : tree.Faithful limit busy cx) (p : Problem) :
    tree.Faithful limit busy (cx.report p) := by
  rcases cx.report_cases p with ⟨same, -⟩ | same <;> rw [same]
  · exact h
  · exact h.of_eq rfl rfl rfl rfl rfl rfl (List.subset_append_left _ _)

theorem enterItems (h : tree.Faithful limit busy cx) (id : DefId) :
    tree.Faithful limit busy (cx.enterItems id) := by
  have keys := cx.enterItems_keys id
  obtain ⟨stack, same⟩ := cx.enterItems_eq id
  rw [same] at keys ⊢
  exact h.of_eq rfl rfl keys rfl rfl rfl (List.Subset.refl _)

/-- Only a node of a busy trait is written to. -/
theorem write (h : tree.Faithful limit busy cx) (apart : tree.Apart) {id : DefId} {n : NodeId}
    (here : id ∈ busy) (owns : tree.Owns id n) {types : Table NodeId Ty}
    {bounds : Table NodeId Bounds} (type : ∀ m, m ≠ n → types.get? m = cx.types.get? m)
    (bound : ∀ m, m ≠ n → bounds.get? m = cx.bounds.get? m) :
    tree.Faithful limit busy { cx with types, bounds } where
  bounded := h.bounded
  deferred := h.deferred
  nodup := h.nodup
  stack := h.stack
  labelled := h.labelled
  supers := h.supers
  found := h.found
  closed := h.closed
  problems := h.problems
  nodes := by
    intro other cached free m owns'
    have different : m ≠ n := by
      rintro rfl
      exact free (apart id other m owns owns' ▸ here)
    exact SameAt.trans ⟨type m different, bound m different⟩ (h.nodes other cached free m owns')
  rest := by
    intro m nobody
    have different : m ≠ n := by
      rintro rfl
      exact (nobody id owns).2 here
    have blank := h.rest m nobody
    exact ⟨(type m different).trans blank.1, (bound m different).trans blank.2⟩

theorem beginResolving (h : tree.Faithful limit busy cx) {id : DefId} (new : id ∉ busy) :
    tree.Faithful limit (id :: busy) (cx.beginResolving id) where
  bounded := h.bounded
  deferred := h.deferred
  nodup := by
    have notOpen : id ∉ cx.stack.keys := fun waits => new (h.stack waits)
    show (cx.stack.insert id .supers).keys.Nodup
    rw [Table.keys_insert_of_new notOpen]
    exact h.nodup.append (List.nodup_singleton id) (by simpa using notOpen)
  stack := by
    intro other waits
    rcases Table.mem_keys_insert.1 waits with rfl | waits
    · exact List.mem_cons_self
    · exact List.mem_cons_of_mem id (h.stack waits)
  labelled := h.labelled
  supers := h.supers
  found := fun other cached free => h.found other cached fun mem => free (List.mem_cons_of_mem id mem)
  closed := fun other cached free =>
    h.closed other cached fun mem => free (List.mem_cons_of_mem id mem)
  problems := fun other cached free =>
    h.problems other cached fun mem => free (List.mem_cons_of_mem id mem)
  nodes := fun other cached free => h.nodes other cached fun mem => free (List.mem_cons_of_mem id mem)
  rest := fun n nobody => h.rest n fun other owns =>
    (nobody other owns).imp_right fun free mem => free (List.mem_cons_of_mem id mem)

/-- A busy trait is cached with its own id; its super-traits are cached already. -/
theorem insertTrait (h : tree.Faithful limit busy cx) {id : DefId} (here : id ∈ busy) {t : TraitRef}
    (own : t.id = some id)
    (known : ∀ p ∈ t.supers, ∀ super, p.trait = some super → super ∈ cx.cache.keys) :
    tree.Faithful limit busy (cx.insertTrait id t) := by
  have look (other : DefId) : (cx.insertTrait id t).trait? other =
      if other = id then some t else cx.trait? other := Table.get?_insert
  have grows : cx.cache.keys ⊆ (cx.insertTrait id t).cache.keys :=
    fun _ mem => Table.mem_keys_insert.2 (Or.inr mem)
  -- Of busy traits nothing is said, so only those that were cached before are left.
  have before {other : DefId} (cached : other ∈ (cx.insertTrait id t).cache.keys)
      (free : other ∉ busy) : other ≠ id ∧ other ∈ cx.cache.keys := by
    have different : other ≠ id := fun same => free (same ▸ here)
    exact ⟨different, (Table.mem_keys_insert.1 cached).resolve_left different⟩
  have erased : (cx.insertTrait id t).stack.keys = cx.stack.keys.filter (· ≠ id) :=
    Table.keys_erase
  exact {
    bounded := h.bounded
    deferred := h.deferred
    nodup := by
      rw [erased]
      exact h.nodup.filter _
    stack := by
      rw [erased]
      exact fun other mem => h.stack (List.mem_filter.1 mem).1
    labelled := by
      intro other s found
      rw [look] at found
      split at found
      · rename_i same
        cases found
        rw [same, own]
      · exact h.labelled other s found
    supers := by
      intro x y edge
      obtain ⟨s, found, p, mem, super⟩ := superEdge_iff.1 edge
      rw [look] at found
      split at found
      · cases found
        exact grows (known p mem y super)
      · exact grows (h.supers x y (superEdge_iff.2 ⟨s, found, p, mem, super⟩))
    found := by
      intro other cached free
      obtain ⟨different, cached⟩ := before cached free
      rw [look, if_neg different]
      exact h.found other cached free
    closed := fun other cached free =>
      List.Subset.trans (h.closed other (before cached free).2 free) grows
    problems := fun other cached free => h.problems other (before cached free).2 free
    nodes := fun other cached free => h.nodes other (before cached free).2 free
    rest := fun n nobody => h.rest n fun other owns =>
      (nobody other owns).imp_left fun notCached cached => notCached (grows cached) }

end Faithful

end ItemTree

end TraitEngine
