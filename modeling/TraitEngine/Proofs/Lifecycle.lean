import TraitEngine.Proofs.Sessions
import Mathlib.Data.List.Chain
/-!
# The life of a trait

What a context knows of a trait goes one way: nothing, being resolved, cached, its
bodies resolved. A context gets from one moment to the next by a `Turn`: it begins a
trait on top of the stack, caches the trait on top, finishes the bodies of a cached
trait, or leaves all of this alone, and it writes each of the first three into the
journal. So every prefix of the journal belongs to a moment, and what holds at all
moments holds in the middle of building a trait as well.

`Lifecycle` is what is left of this between the steps of a session.
-/

namespace TraitEngine

set_option autoImplicit false

open Journal

namespace Context

inductive Turn (cx cx' : Context) : Prop where
  | still (states : cx'.states = cx.states) (stack : cx'.stack.keys = cx.stack.keys)
      (cache : cx'.cache = cx.cache)
  | begun (id : DefId) (states : cx'.states = cx.states.record id .resolving)
      (stack : cx'.stack.keys = cx.stack.keys ++ [id]) (cache : cx'.cache = cx.cache)
  | cached (id : DefId) (t : TraitRef) (states : cx'.states = cx.states.record id .cached)
      (stack : cx.stack.keys = cx'.stack.keys ++ [id])
      (cache : cx'.cache.entries = cx.cache.entries ++ [(id, t)])
  | finished (id : DefId) (states : cx'.states = cx.states.record id .bodiesResolved)
      (stack : cx'.stack.keys = cx.stack.keys) (cache : cx'.cache = cx.cache)

/-- The traits being resolved are distinct, none of them is cached, and there are no more
of them than the recursion limit. -/
structure Orderly (limit : Nat) (cx : Context) : Prop where
  nodup : cx.stack.keys.Nodup
  disjoint : ∀ id ∈ cx.stack.keys, id ∉ cx.cache.keys
  bounded : cx.stack.keys.length ≤ limit

/-- The moments between two contexts, one turn apart from each other. -/
def Moments (limit : Nat) (start finish : Context) (moments : List Context) : Prop :=
  moments.head? = some start ∧ moments.getLast? = some finish ∧ moments.IsChain Turn ∧
    ∀ cx ∈ moments, cx.Orderly limit

/-- What is known of a context between the steps of a session. Up to any point the
journal tells of a stack of open traits, apart from the closed ones. -/
structure Lifecycle (limit : Nat) (cx : Context) : Prop where
  begun_once : ∀ id, cx.states.entries.count (id, .resolving) ≤ 1
  forward : ∀ id, statesOf cx.states.entries id <+: [.resolving, .cached, .bodiesResolved]
  nested : ∀ earlier later, cx.states.entries = earlier ++ later → ∃ opened closed,
    Nested limit earlier opened closed ∧ (∀ id ∈ opened, id ∉ closed) ∧ opened.length ≤ limit
  stack : cx.stack.entries = []
  pending : cx.pending.entries = []
  deferred : cx.deferred = []
  done_iff : ∀ id, (cx.trait? id).isSome ↔ cx.states.get? id = some .bodiesResolved

end Context

open Context

namespace ItemTree

variable {tree : ItemTree} {cx cx' : Context}

theorem Move.turn (move : tree.Move cx cx') : Turn cx cx' := by
  cases move with
  | report plain => exact .still (by simp) (by simp) (by simp)
  | reportCycle top bound cycle => exact .still (by simp) (by simp) (by simp)
  | beginResolving declared receiver notOpen notCached room asked =>
      exact .begun _ rfl (Table.keys_insert_of_new notOpen) rfl
  | @enterItems _ id top notBelow =>
      have keys := cx.enterItems_keys id
      obtain ⟨stack, eq⟩ := cx.enterItems_eq id
      rw [eq] at keys ⊢
      exact .still rfl keys rfl
  | @insertTrait base id t top notBelow notCached own params kept all =>
      refine .cached id t rfl ?_ (Table.entries_insert_of_new notCached)
      show cx.stack.keys = (cx.stack.erase id).keys ++ [id]
      rw [Table.keys, Table.keys, Table.entries_erase_last top notBelow, top, List.map_append]
      rfl
  | @checkDeferred id t waited found =>
      obtain ⟨problems, eq, -⟩ := cx.checkDeferred_eq id t
      rw [eq]
      exact .still rfl rfl rfl
  | markBodiesResolved waited done => exact .finished _ rfl rfl rfl
  | _ => exact .still rfl rfl rfl

theorem Coherent.orderly (h : tree.Coherent cx) : cx.Orderly cx.limit where
  nodup := h.nested.nodup_opened
  disjoint := fun _ waits => h.nested.not_closed_of_open waits
  bounded := h.nested.length_opened_le

/-- Between the steps of a session a context is as described. -/
theorem Idle.lifecycle (idle : tree.Idle cx) : cx.Lifecycle cx.limit where
  begun_once := idle.coherent.nested.count_resolving_le_one
  forward := idle.coherent.nested.statesOf_prefix
  nested := by
    intro earlier later whole
    have nested := idle.coherent.nested
    rw [whole] at nested
    obtain ⟨opened, closed, before⟩ := nested.of_append
    exact ⟨opened, closed, before, fun _ => before.not_closed_of_open, before.length_opened_le⟩
  stack := idle.stack
  pending := idle.pending
  deferred := idle.deferred
  done_iff := fun id => cx.isSome_trait?_iff.trans (idle.mem_cache_iff id)

end ItemTree

/-! ## Turn by turn -/

namespace Context

variable {cx cx' : Context}

/-- A turn to an orderly context with the same limit. -/
def Advance (cx cx' : Context) : Prop :=
  Turn cx cx' ∧ cx'.limit = cx.limit ∧ cx'.Orderly cx'.limit

abbrev Advances : Context → Context → Prop := Relation.ReflTransGen Advance

theorem Turn.cache_grows (turn : Turn cx cx') : cx.cache.entries <+: cx'.cache.entries := by
  cases turn with
  | still states stack cache => exact cache ▸ List.prefix_rfl
  | begun id states stack cache => exact cache ▸ List.prefix_rfl
  | cached id t states stack cache => exact ⟨_, cache.symm⟩
  | finished id states stack cache => exact cache ▸ List.prefix_rfl

theorem Advances.cache_grows (h : Advances cx cx') : cx.cache.entries <+: cx'.cache.entries := by
  induction h with
  | refl => exact List.prefix_rfl
  | tail _ step ih => exact ih.trans step.1.cache_grows

theorem Advances.limit (h : Advances cx cx') : cx'.limit = cx.limit := by
  induction h with
  | refl => rfl
  | tail _ step ih => exact step.2.1.trans ih

/-- The moments of an advance that starts orderly. -/
theorem Advances.moments (h : Advances cx cx') (orderly : cx.Orderly cx.limit) :
    ∃ moments, Moments cx.limit cx cx' moments := by
  obtain ⟨later, chain, last⟩ := List.exists_isChain_cons_of_relationReflTransGen h
  refine ⟨cx :: later, rfl, ?_, chain.imp fun _ _ step => step.1, ?_⟩
  · rw [List.getLast?_eq_some_getLast (List.cons_ne_nil cx later), last]
  · have kept : ∀ moment ∈ cx :: later, moment.limit = cx.limit ∧ moment.Orderly cx.limit := by
      refine chain.induction _ _ ?_ fun _ => ⟨rfl, orderly⟩
      rintro before after ⟨-, same, orderly⟩ ⟨limit, -⟩
      exact ⟨same.trans limit, same.trans limit ▸ orderly⟩
    exact fun moment mem => (kept moment mem).2

end Context

namespace ItemTree

variable {tree : ItemTree} {cx cx' : Context}

theorem Run.advances {handed : List Problem} (coherent : tree.Coherent cx)
    (run : tree.Run cx handed cx') : Advances cx cx' := by
  induction run with
  | refl => exact .refl
  | move before move ih =>
      have after := move.coherent (before.coherent coherent)
      exact ih.tail ⟨move.turn, move.limit, after.orderly⟩
  | handOut before idle ih =>
      have after := (before.coherent coherent).handOut
      exact ih.tail ⟨.still rfl rfl rfl, rfl, after.orderly⟩

end ItemTree

namespace Session

/-- From the empty context on, under any steps: each trait is begun at most once and
goes through its states in order; at every moment the traits being resolved are a
stack; between steps nothing is left on it or waiting, and the cached traits are those
that are done; and what the cache answers, it answers after all later steps. -/
theorem performAll_lifecycle (config : Config) (steps later : List Step)
    (receivers : ((ItemTree.empty config.crate).after (steps ++ later)).HasReceivers) :
    ∃ handed s handed' s', (ofConfig config).performAll steps = .ok (handed, s) ∧
      s.performAll later = .ok (handed', s') ∧ s.context.Lifecycle config.limit ∧
      s'.context.Lifecycle config.limit ∧
      (∃ moments, Moments config.limit (ofConfig config).context s.context moments) ∧
      (∃ moments, Moments config.limit s.context s'.context moments) ∧
      ∀ id t, s.context.trait? id = some t → s'.context.trait? id = some t := by
  rw [ItemTree.after_append] at receivers
  have settled := settled_ofConfig config
  have run {tree : ItemTree} {cx : Context} {handed : List Problem} {cx' : Context}
      (coherent : tree.Coherent cx) (run : tree.Run cx handed cx') : Advances cx cx' :=
    run.advances coherent
  obtain ⟨handed, s, performed, tree, settled₁, first⟩ :=
    settled.performAll Advances (fun _ => .refl) .trans run steps receivers.of_after
  obtain ⟨handed', s', performed', -, settled₂, second⟩ :=
    settled₁.performAll Advances (fun _ => .refl) .trans run later (by rw [tree]; exact receivers)
  have limit : s.context.limit = config.limit := first.limit
  have limit' : s'.context.limit = config.limit := second.limit.trans limit
  refine ⟨handed, s, handed', s', performed, performed', limit ▸ settled₁.idle.lifecycle,
    limit' ▸ settled₂.idle.lifecycle, first.moments settled.idle.coherent.orderly,
    limit ▸ second.moments settled₁.idle.coherent.orderly, ?_⟩
  exact fun id t found => trait?_of_grown second.cache_grows found

/-- The two traits are resolved, and then a third one that extends both is declared. -/
theorem performAll_lifecycle_extended :
    ((ItemTree.empty "main").after (entangled ++ extended)).HasReceivers ∧
      ∃ handed s handed' s', (ofConfig {}).performAll entangled = .ok (handed, s) ∧
        s.performAll extended = .ok (handed', s') ∧
        ∀ id t, s.context.trait? id = some t → s'.context.trait? id = some t := by
  have receivers : ((ItemTree.empty "main").after (entangled ++ extended)).HasReceivers := by
    decide +kernel
  obtain ⟨handed, s, handed', s', first, second, -, -, -, -, kept⟩ :=
    performAll_lifecycle {} entangled extended receivers
  exact ⟨receivers, handed, s, handed', s', first, second, kept⟩

end Session

end TraitEngine
