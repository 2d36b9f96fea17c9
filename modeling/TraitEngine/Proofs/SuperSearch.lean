import TraitEngine.Proofs.SuperGraph
/-!
# Searches along super-traits

A search goes from a trait to its cached super-traits, depth first, and stops when it hits what
it looks for. Whatever cycles and shared ancestors there are, it misses nothing above the traits
it starts from: `Searched` says that it has either found a path to a hit, or visited the roots
and explored what it visited.

The search remembers what it has visited, and so do the lemmas: `Explored seen seen'`
speaks of the traits between the two lists only, so that what one branch has done
composes with the next. Each nested call visits a cached trait that is new, so there are at most
as many of them as cached traits.
-/

namespace TraitEngine

set_option autoImplicit false

open Relation

namespace Context

/-- Every cached trait knows the id that it is cached under. -/
def Labelled (cx : Context) : Prop := ∀ id t, cx.trait? id = some t → t.id = some id

/-- How many cached traits a search has still to visit. -/
def unseen (cx : Context) (seen : List DefId) : Nat :=
  cx.cache.keys.countP fun id => id ∉ seen

/-- A search went on from `seen` to `seen'`: what it visited on the way is no hit, and the
cached traits right above it are visited. -/
structure Explored (cx : Context) (hit : DefId → Prop) (seen seen' : List DefId) : Prop where
  grows : seen ⊆ seen'
  misses : ∀ x ∈ seen', x ∉ seen → ¬ hit x
  closed : ∀ x ∈ seen', x ∉ seen → ∀ y, cx.SuperEdge x y → y ∈ cx.cache.keys → y ∈ seen'

/-- How a search from some roots ends; it is clear if there was no hit. -/
inductive Searched (cx : Context) (hit roots : DefId → Prop) (seen : List DefId) :
    Bool × List DefId → Prop where
  | clear {seen' : List DefId} (reached : ∀ id ∈ cx.cache.keys, roots id → id ∈ seen')
      (explored : cx.Explored hit seen seen') : Searched cx hit roots seen (true, seen')
  | found {seen' : List DefId} {id x : DefId} (root : roots id)
      (path : ReflTransGen cx.SuperEdge id x) (here : hit x) :
      Searched cx hit roots seen (false, seen')

variable {cx : Context} {hit : DefId → Prop} {seen seen' seen'' : List DefId}

theorem mem_cache_of_superEdge {a b : DefId} (edge : cx.SuperEdge a b) : a ∈ cx.cache.keys := by
  obtain ⟨t, found, -⟩ := superEdge_iff.1 edge
  exact Table.mem_keys_of_get? found

/-! ## Visited traits -/

theorem unseen_anti (cx : Context) (grows : seen ⊆ seen') : cx.unseen seen' ≤ cx.unseen seen := by
  refine List.countP_mono_left fun id _ h => ?_
  simp only [decide_eq_true_eq] at h ⊢
  exact fun mem => h (grows mem)

/-- Visiting a cached trait leaves one less to visit. -/
theorem unseen_cons_lt {id : DefId} (cached : id ∈ cx.cache.keys) (new : id ∉ seen) :
    cx.unseen (id :: seen) < cx.unseen seen := by
  have whole : cx.unseen (id :: seen) =
      (cx.cache.keys.filter fun other => other ∉ seen).countP fun other => other ≠ id := by
    rw [unseen, List.countP_filter]
    refine List.countP_congr fun other _ => ?_
    simp [not_or]
  have counted : cx.unseen seen = (cx.cache.keys.filter fun other => other ∉ seen).length :=
    List.countP_eq_length_filter
  rw [whole, counted, List.countP_lt_length_iff]
  exact ⟨id, List.mem_filter.2 ⟨cached, by simpa using new⟩, by simp⟩

theorem unseen_nil : cx.unseen [] = cx.cache.size := by
  simp [unseen, Table.size, Table.keys]

namespace Explored

theorem refl (seen : List DefId) : cx.Explored hit seen seen where
  grows := List.Subset.refl seen
  misses := fun _ mem new => absurd mem new
  closed := fun _ mem new => absurd mem new

theorem trans (first : cx.Explored hit seen seen') (second : cx.Explored hit seen' seen'') :
    cx.Explored hit seen seen'' where
  grows := List.Subset.trans first.grows second.grows
  misses := by
    intro x mem new
    by_cases early : x ∈ seen'
    · exact first.misses x early new
    · exact second.misses x mem early
  closed := by
    intro x mem new y edge cached
    by_cases early : x ∈ seen'
    · exact second.grows (first.closed x early new y edge cached)
    · exact second.closed x mem early y edge cached

/-- A trait that is no hit is explored once the traits right above it are visited. -/
theorem visit {id : DefId} (h : cx.Explored hit (id :: seen) seen') (fine : ¬ hit id)
    (supers : ∀ y, cx.SuperEdge id y → y ∈ cx.cache.keys → y ∈ seen') :
    cx.Explored hit seen seen' where
  grows := fun x mem => h.grows (List.mem_cons_of_mem id mem)
  misses := by
    intro x mem new
    by_cases same : x = id
    · exact same ▸ fine
    · exact h.misses x mem (by simp [same, new])
  closed := by
    intro x mem new y edge cached
    by_cases same : x = id
    · subst same
      exact supers y edge cached
    · exact h.closed x mem (by simp [same, new]) y edge cached

/-- A search that started with nothing visited has reached everything above a trait that
it reached, and there was no hit. -/
theorem not_hit (h : cx.Explored hit [] seen) {a x : DefId}
    (path : ReflTransGen cx.SuperEdge a x) (cached : x ∈ cx.cache.keys) (mem : a ∈ seen) :
    ¬ hit x := by
  have reached : x ∈ seen := by
    induction path using ReflTransGen.head_induction_on with
    | refl => exact mem
    | @head b c edge path ih =>
        have above : c ∈ cx.cache.keys := by
          cases path using ReflTransGen.head_induction_on with
          | refl => exact cached
          | head edge _ => exact mem_cache_of_superEdge edge
        exact ih (h.closed b mem List.not_mem_nil c edge above)
  exact h.misses x reached List.not_mem_nil

end Explored

/-- The traits that some of the predicates are over. -/
abbrev TraitsOf (ps : List Predicate) (id : DefId) : Prop := ∃ p ∈ ps, p.trait = some id

theorem traitsOf_cons {p : Predicate} {ps : List Predicate} {id : DefId} :
    p.trait = some id ∨ TraitsOf ps id ↔ TraitsOf (p :: ps) id := by
  simp [TraitsOf]

namespace Searched

variable {roots roots' : DefId → Prop} {out : Bool × List DefId}

/-- Another search goes on from where one ended without a find. -/
theorem append (first : cx.Searched hit roots seen (true, seen'))
    (second : cx.Searched hit roots' seen' out) :
    cx.Searched hit (fun id => roots id ∨ roots' id) seen out := by
  cases first with
  | clear reached explored =>
      cases second with
      | clear reached' explored' =>
          refine .clear (fun id cached root => ?_) (explored.trans explored')
          rcases root with root | root
          · exact explored'.grows (reached id cached root)
          · exact reached' id cached root
      | found root path here => exact .found (Or.inr root) path here

theorem congr (h : cx.Searched hit roots seen out) (same : ∀ id, roots id ↔ roots' id) :
    cx.Searched hit roots' seen out := by
  obtain rfl : roots = roots' := funext fun id => propext (same id)
  exact h

theorem nil (seen : List DefId) : cx.Searched hit (TraitsOf []) seen (true, seen) :=
  .clear (fun _ _ root => by simp [TraitsOf] at root) (.refl seen)

/-- What is not cached is passed over. -/
theorem skip {p : Predicate} (missing : p.get? cx = none) (seen : List DefId) :
    cx.Searched hit (fun id => p.trait = some id) seen (true, seen) := by
  refine .clear (fun id cached own => ?_) (.refl seen)
  have uncached : cx.trait? id = none := by simpa [Predicate.get?, own] using missing
  exact absurd cached (Table.get?_eq_none_iff.1 uncached)

theorem cons {p : Predicate} {ps : List Predicate}
    (first : cx.Searched hit (fun id => p.trait = some id) seen (true, seen'))
    (rest : cx.Searched hit (TraitsOf ps) seen' out) :
    cx.Searched hit (TraitsOf (p :: ps)) seen out :=
  (first.append rest).congr fun _ => traitsOf_cons

/-- A trait that is no hit itself is searched by searching its super-traits. -/
theorem visit {id : DefId} {t : TraitRef} (found : cx.trait? id = some t) (fine : ¬ hit id)
    (supers : cx.Searched hit (TraitsOf t.supers) (id :: seen) out) :
    cx.Searched hit (· = id) seen out := by
  cases supers with
  | found root path here =>
      exact .found rfl (.head (superEdge_iff.2 ⟨t, found, root⟩) path) here
  | @clear seen' reached explored =>
      have here : id ∈ seen' := explored.grows List.mem_cons_self
      refine .clear (fun other _ same => same ▸ here) (explored.visit fine ?_)
      intro super edge cached
      obtain ⟨t', found', root⟩ := superEdge_iff.1 edge
      cases found.symm.trans found'
      exact reached super cached root

end Searched

end Context

end TraitEngine
