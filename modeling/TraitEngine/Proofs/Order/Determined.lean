import TraitEngine.Proofs.Order.Resolution
import TraitEngine.Proofs.Sessions
import Mathlib.Order.WellFoundedSet
/-!
# Every trait is determined

A trait that is resolved anew is compared with the run that gives its outcome: both start
by putting it on the stack, and what the first run adds to its context is that outcome.
The traits that it mentions are determined before it, by induction on what traits
mention, which is well-founded since a tree is finite and no trait mentions itself.
-/

namespace TraitEngine

set_option autoImplicit false

open Relation Check Context

namespace ItemTree

variable {tree : ItemTree} {limit : Nat} {busy : List DefId} {id : DefId} {cx a : Context}

/-! ## The start and the end of a comparison -/

/-- Before a trait is built there is nothing of it in the context, nor in an empty one. -/
theorem Faithful.twin (h : tree.Faithful limit busy cx) (layered : tree.Layered limit)
    (free : id ∉ busy) (new : id ∉ cx.cache.keys) :
    tree.Twin limit busy id cx (cx.beginResolving id) (Context.beginResolving { limit } id) where
  left := h.beginResolving free
  right := (Faithful.start limit).beginResolving List.not_mem_nil
  fresh := fun waits => free (h.stack waits)
  stack := Table.keys_insert_of_new fun waits => free (h.stack waits)
  below := nofun
  cache := fun x => ⟨Or.inr, fun cached => cached.resolve_left List.not_mem_nil⟩
  problems := fun p => ⟨Or.inr, fun reported => reported.resolve_left List.not_mem_nil⟩
  own := cx.trait?_eq_none_iff.2 new
  nodes := by
    intro n owns
    have blank : cx.Blank n := h.rest n fun other owns' => by
      rw [layered.apart other id n owns' owns]
      exact ⟨new, free⟩
    exact blank.sameAt ⟨rfl, rfl⟩
  known := nofun
  kept := fun _ _ => ⟨rfl, fun _ _ => ⟨rfl, rfl⟩⟩

/-- When the second run ends with the outcome, the first has added it to its context. -/
theorem Twin.resolved (twin : tree.Twin limit busy id cx a (tree.outcome limit id))
    (below : cx.stack.keys ⊆ busy) (ended : (tree.outcome limit id).stack.keys = [])
    {t : TraitRef} (found : (tree.outcome limit id).trait? id = some t) :
    tree.Resolved limit busy cx id t a := by
  have stack : a.stack.keys = cx.stack.keys := by
    rw [twin.stack, ended, List.append_nil]
  have done : id ∈ a.cache.keys := twin.cached (Table.mem_keys_of_get? found)
  -- the trait itself is no longer busy, for the others nothing has changed
  have other {x : DefId} (free : x ∉ busy) (different : x ≠ id) : x ∉ id :: busy :=
    fun mem => (List.mem_cons.1 mem).elim different free
  exact {
    faithful := {
      bounded := twin.left.bounded
      deferred := twin.left.deferred
      nodup := twin.left.nodup
      stack := by rw [stack]; exact below
      labelled := twin.left.labelled
      supers := twin.left.supers
      found := by
        intro x cached free
        by_cases same : x = id
        · rw [same]
          exact twin.own
        · exact twin.left.found x cached (other free same)
      closed := by
        intro x cached free
        by_cases same : x = id
        · rw [same]
          exact fun y mem => twin.cached mem
        · exact twin.left.closed x cached (other free same)
      problems := by
        intro x cached free
        by_cases same : x = id
        · rw [same]
          exact fun p mem => (twin.problems p).2 (Or.inl mem)
        · exact twin.left.problems x cached (other free same)
      nodes := by
        intro x cached free
        by_cases same : x = id
        · rw [same]
          exact twin.nodes
        · exact twin.left.nodes x cached (other free same)
      rest := by
        intro n nobody
        refine twin.left.rest n fun x owns => ?_
        obtain ⟨notCached, free⟩ := nobody x owns
        exact ⟨notCached, other free fun same => notCached (same ▸ done)⟩ }
    answer := found
    stack
    cache := fun x => (twin.cache x).trans or_comm
    problems := fun p => (twin.problems p).trans or_comm
    kept := twin.kept }

/-! ## The two runs -/

/-- Nothing stands in the way of resolving a trait that is neither busy nor cached. -/
theorem Faithful.resolveWithin_eq (h : tree.Faithful limit busy cx) (layered : tree.Layered limit)
    (declared : ∀ x ∈ busy, ∃ decl, tree.trait? x = some decl) (free : id ∉ busy)
    (new : id ∉ cx.cache.keys) {decl : TraitDecl} (own : tree.trait? id = some decl) (depth : Nat)
    (span : Span) :
    Lowering.resolveWithin tree (depth + 1) id span cx =
      Lowering.resolveNew tree (Lowering.resolveWithin tree depth) id decl cx := by
  have none := cx.trait?_eq_none_iff.2 new
  have notOpen : cx.isResolving id = false := by
    rw [← Bool.not_eq_true, cx.isResolving_iff]
    exact fun waits => free (h.stack waits)
  have room := h.depth_lt layered declared
  rw [Lowering.resolveWithin, get_bind]
  simp only [none, own, notOpen, Bool.false_eq_true, if_false, Nat.not_le.2 room]

/-- A cached trait is answered from the cache, and its outcome is in the context already. -/
theorem Faithful.resolved_of_cached (h : tree.Faithful limit busy cx) (free : id ∉ busy)
    (cached : id ∈ cx.cache.keys) {depth : Nat} {span : Span} {t : TraitRef}
    (ran : Lowering.resolveWithin tree depth id span cx = .ok (t, a)) :
    tree.Resolved limit busy cx id t a := by
  obtain ⟨s, found⟩ := cx.exists_trait? cached
  cases depth with
  | zero => exact nomatch ran
  | succ depth =>
      rw [Lowering.resolveWithin, get_bind] at ran
      simp only [found] at ran
      cases ran
      exact {
        faithful := h
        answer := by rw [← h.found id cached free, found]
        stack := rfl
        cache := fun x => ⟨Or.inl, fun mem => mem.elim (fun old => old) fun new =>
          h.closed id cached free new⟩
        problems := fun p => ⟨Or.inl, fun mem => mem.elim (fun old => old) fun new =>
          h.problems id cached free new⟩
        kept := fun _ _ => ⟨rfl, fun _ _ => ⟨rfl, rfl⟩⟩ }

namespace Layered

variable (layered : tree.Layered limit)

include layered

/-- In an empty context every trait is resolved, and then none is on the stack. -/
theorem resolveDef_eq (id : DefId) :
    ∃ t, tree.resolveDef id default { limit } = .ok (t, tree.outcome limit id) ∧
      (tree.outcome limit id).stack.keys = [] := by
  have ends := resolveDef_ends layered.numbered (Idle.start limit) (.refl _) id default
  obtain ⟨t, cx, ran, trip⟩ :=
    (ends.mono_faults fun _ fault => layered.receivers.no_fault fault).exists_ok
  have same : tree.outcome limit id = cx := by rw [outcome, ran]
  refine ⟨t, by rw [ran, same], ?_⟩
  rw [same, trip.stack]
  rfl

/-- A trait is resolved anew in any context as it is in an empty one. -/
theorem twin_of_resolved (determined : ∀ x, tree.Mentions id x → tree.Determined limit x)
    {decl : TraitDecl} (own : tree.trait? id = some decl) (h : tree.Faithful limit busy cx)
    (above : ∀ x ∈ busy, TransGen tree.Mentions x id) (new : id ∉ cx.cache.keys) {depth : Nat}
    {span : Span} {t : TraitRef}
    (ran : Lowering.resolveWithin tree depth id span cx = .ok (t, a)) :
    tree.Twin limit busy id cx a (tree.outcome limit id) ∧
      (tree.outcome limit id).trait? id = some t := by
  cases depth with
  | zero => exact nomatch ran
  | succ depth =>
      let cmp : Comparison := {
        tree, limit, busy, id, base := cx, depth, depth' := tree.items.size
        layered, above, determined }
      obtain ⟨s, alone, -⟩ := layered.resolveDef_eq id
      rw [h.resolveWithin_eq layered (fun x waits => declared_of_mentions (above x waits))
        cmp.not_busy new own] at ran
      rw [resolveDef, (Faithful.start limit).resolveWithin_eq layered nofun List.not_mem_nil
        List.not_mem_nil own] at alone
      have alike : cmp.Alike (Lowering.resolveNew tree · id decl) cx { limit } fun t b' =>
          b'.trait? id = some t :=
        Lowering.resolveNew_alike own (h.twin layered cmp.not_busy new)
      obtain ⟨rfl, twin, -, found⟩ := alike t a s _ ran alone
      exact ⟨twin, found⟩

theorem determined_of_below (determined : ∀ x, tree.Mentions id x → tree.Determined limit x)
    {decl : TraitDecl} (own : tree.trait? id = some decl) : tree.Determined limit id where
  below := by
    obtain ⟨t, alone, -⟩ := layered.resolveDef_eq id
    exact (layered.twin_of_resolved determined own (.start limit) nofun List.not_mem_nil alone).1.below
  resolved := by
    intro depth span busy cx t a h above ran
    have free := layered.not_above above
    by_cases cached : id ∈ cx.cache.keys
    · exact h.resolved_of_cached free cached ran
    · obtain ⟨twin, found⟩ := layered.twin_of_resolved determined own h above cached ran
      obtain ⟨-, -, ended⟩ := layered.resolveDef_eq id
      exact twin.resolved h.stack ended found

/-- By induction on what traits mention. -/
theorem determined {decl : TraitDecl} (own : tree.trait? id = some decl) :
    tree.Determined limit id := by
  have finite : {x | x ∈ tree.ids}.Finite := tree.ids.finite_toSet
  have order : IsStrictOrder DefId fun x y => TransGen tree.Mentions y x := {
    irrefl := layered.acyclic
    trans := fun _ _ _ first second => second.trans first }
  have below : {x | x ∈ tree.ids}.WellFoundedOn fun x y => TransGen tree.Mentions y x :=
    finite.wellFoundedOn
  refine below.induction (P := fun x => ∀ decl, tree.trait? x = some decl →
    tree.Determined limit x) (mem_ids_of_trait? own) (fun x _ ih decl own => ?_) decl own
  refine layered.determined_of_below (fun y asked => ?_) own
  have ⟨_, _, path, _, named⟩ := asked
  obtain ⟨decl, declared⟩ := trait?_of_resolveTraitPath named
  exact ih y (mem_ids_of_trait? declared) (.single asked) decl declared

/-- The outcome of a trait has its reference. -/
theorem exists_outcome {decl : TraitDecl} (own : tree.trait? id = some decl) :
    ∃ t, (tree.outcome limit id).trait? id = some t := by
  obtain ⟨t, alone, -⟩ := layered.resolveDef_eq id
  exact ⟨t, ((layered.determined own).resolved _ default [] _ t _ (.start limit)
    (fun _ mem => absurd mem List.not_mem_nil) alone).answer⟩

end Layered

end ItemTree

end TraitEngine
