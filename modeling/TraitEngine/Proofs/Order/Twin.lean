import TraitEngine.Proofs.Order.Faithful
import TraitEngine.Proofs.Order.Lockstep
import TraitEngine.Proofs.Predicate
import TraitEngine.Resolve.Trait
/-!
# A trait resolved twice

A trait is resolved in some context `base` and, on its own, in an empty one. `Twin` relates
the two runs on the way: the first context is the second one on top of `base`. The
second context is what the trait has contributed so far, with all the traits below it.

So whatever the first run reads is in the second context as well (`Twin.agree`), and what
it asks for is answered alike if the outcome of the trait asked for is determined
(`Determined`), which is what the comparison of the two runs is to show.
-/

namespace TraitEngine

set_option autoImplicit false

open Relation Context Check

namespace ItemTree

variable (tree : ItemTree) (limit : Nat)

/-- Resolving the trait adds its outcome to the context, and leaves busy traits alone. -/
structure Resolved (busy : List DefId) (cx : Context) (id : DefId) (t : TraitRef)
    (cx' : Context) : Prop where
  faithful : tree.Faithful limit busy cx'
  answer : (tree.outcome limit id).trait? id = some t
  stack : cx'.stack.keys = cx.stack.keys
  cache : ∀ x, x ∈ cx'.cache.keys ↔ x ∈ cx.cache.keys ∨ x ∈ (tree.outcome limit id).cache.keys
  problems : ∀ p, p ∈ cx'.problems ↔ p ∈ cx.problems ∨ p ∈ (tree.outcome limit id).problems
  kept : ∀ x ∈ busy, cx'.trait? x = cx.trait? x ∧ ∀ n, tree.Owns x n → SameAt n cx' cx

/-- Wherever the trait is resolved, below traits that it is mentioned by, the result is its
outcome; and that has nothing but traits that it mentions. -/
structure Determined (id : DefId) : Prop where
  below : ∀ x ∈ (tree.outcome limit id).cache.keys, ReflTransGen tree.Mentions id x
  resolved : ∀ depth span busy cx t cx', tree.Faithful limit busy cx →
    (∀ x ∈ busy, TransGen tree.Mentions x id) →
    Lowering.resolveWithin tree depth id span cx = .ok (t, cx') →
    tree.Resolved limit busy cx id t cx'

structure Twin (busy : List DefId) (id : DefId) (base a b : Context) : Prop where
  left : tree.Faithful limit (id :: busy) a
  right : tree.Faithful limit [id] b
  fresh : id ∉ base.stack.keys
  stack : a.stack.keys = base.stack.keys ++ b.stack.keys
  below : ∀ x ∈ b.cache.keys, ReflTransGen tree.Mentions id x
  cache : ∀ x, x ∈ a.cache.keys ↔ x ∈ b.cache.keys ∨ x ∈ base.cache.keys
  problems : ∀ p, p ∈ a.problems ↔ p ∈ b.problems ∨ p ∈ base.problems
  own : a.trait? id = b.trait? id
  nodes : ∀ n, tree.Owns id n → SameAt n a b
  known : ∀ n bounds, tree.Owns id n → b.bounds.get? n = some bounds → ∀ p ∈ bounds.toList,
    ∀ x, p.trait = some x → x = id ∨ x ∈ b.cache.keys
  kept : ∀ x ∈ busy, a.trait? x = base.trait? x ∧ ∀ n, tree.Owns x n → SameAt n a base

variable {tree limit} {busy : List DefId} {id : DefId} {base a b : Context}

theorem Resolved.mem_cache {cx cx' : Context} {t : TraitRef}
    (h : tree.Resolved limit busy cx id t cx') : id ∈ cx'.cache.keys :=
  (h.cache id).2 (Or.inr (Table.mem_keys_of_get? h.answer))

theorem Resolved.own {cx cx' : Context} {t : TraitRef} (h : tree.Resolved limit busy cx id t cx')
    (free : id ∉ busy) : t.id = some id :=
  h.faithful.labelled id t ((h.faithful.found id h.mem_cache free).trans h.answer)

namespace Twin

variable (twin : tree.Twin limit busy id base a b)

include twin

/-- What is cached in the second run is cached in the first. -/
theorem cached {x : DefId} (mem : x ∈ b.cache.keys) : x ∈ a.cache.keys :=
  (twin.cache x).2 (Or.inl mem)

section

variable (layered : tree.Layered limit) (above : ∀ x ∈ busy, TransGen tree.Mentions x id)

include layered above

/-- The second run has seen no trait that is busy in the first. -/
theorem not_busy {x : DefId} (mem : x ∈ b.cache.keys) (other : x ≠ id) : x ∉ id :: busy := by
  intro waits
  rcases List.mem_cons.1 waits with same | waits
  · exact other same
  · exact layered.acyclic x ((above x waits).trans_left (twin.below x mem))

/-- Both runs see the same of the trait itself and of all traits below it. -/
theorem agree : Agree (fun x => x = id ∨ x ∈ b.cache.keys) a b where
  same := by
    rintro x (rfl | mem)
    · exact twin.own
    · by_cases same : x = id
      · rw [same]
        exact twin.own
      · rw [twin.left.found x (twin.cached mem) (twin.not_busy layered above mem same),
          twin.right.found x mem (by simpa using same)]
  closed := fun x y _ edge => Or.inr (twin.right.supers x y edge)

theorem trait?_eq {x : DefId} (mem : x ∈ b.cache.keys) : a.trait? x = b.trait? x :=
  (twin.agree layered above).same x (Or.inr mem)

/-- A trait that is asked for is not on the stack of either run. -/
theorem not_resolving {x : DefId} (asked : tree.Mentions id x) :
    a.isResolving x = false ∧ b.isResolving x = false := by
  have free : x ∉ id :: busy := by
    intro waits
    rcases List.mem_cons.1 waits with rfl | waits
    · exact layered.acyclic x (.single asked)
    · exact layered.acyclic x ((above x waits).tail asked)
  constructor <;> rw [← Bool.not_eq_true, isResolving_iff]
  · exact fun waits => free (twin.left.stack waits)
  · exact fun waits => free (List.mem_cons.2 (Or.inl (List.mem_singleton.1 (twin.right.stack waits))))

/-- A request for a trait whose outcome is determined. -/
theorem answer {x : DefId} (asked : tree.Mentions id x) (determined : tree.Determined limit x)
    (m n : Nat) (span span' : Span) :
    Lockstep (tree.Twin limit busy id base) (Lowering.resolveWithin tree m x span)
      (Lowering.resolveWithin tree n x span') a b fun t b' =>
        t.id = some x ∧ x ∈ b'.cache.keys := by
  intro t a' s b' ran ran'
  -- Each request adds the outcome of `x`, whatever is below it on the stack.
  have first := determined.resolved m span _ a t a' twin.left (by
    intro y waits
    rcases List.mem_cons.1 waits with rfl | waits
    · exact .single asked
    · exact (above y waits).tail asked) ran
  have second := determined.resolved n span' _ b s b' twin.right (by
    intro y waits
    rw [List.mem_singleton.1 waits]
    exact .single asked) ran'
  have same : t = s := Option.some.inj (first.answer.symm.trans second.answer)
  have here := first.kept id List.mem_cons_self
  have here' := second.kept id List.mem_cons_self
  have new (y : DefId) : y ∈ b'.cache.keys ↔ y ∈ b.cache.keys ∨
      y ∈ (tree.outcome limit x).cache.keys := second.cache y
  have grows : b.cache.keys ⊆ b'.cache.keys := fun y mem => (new y).2 (Or.inl mem)
  refine ⟨same, ?_, grows, second.own ?_, second.mem_cache⟩
  · exact {
      left := first.faithful
      right := second.faithful
      fresh := twin.fresh
      stack := by rw [first.stack, second.stack, twin.stack]
      below := by
        intro y mem
        rcases (new y).1 mem with old | mem
        · exact twin.below y old
        · exact .head asked (determined.below y mem)
      cache := by
        intro y
        rw [first.cache, twin.cache, new]
        exact or_right_comm
      problems := by
        intro p
        rw [first.problems, twin.problems, second.problems]
        exact or_right_comm
      own := by rw [here.1, twin.own, here'.1]
      nodes := fun n owns =>
        ((here.2 n owns).trans (twin.nodes n owns)).trans (here'.2 n owns).symm
      known := by
        intro n bounds owns found p mem y super
        rw [(here'.2 n owns).2] at found
        exact (twin.known n bounds owns found p mem y super).imp_right fun mem => grows mem
      kept := by
        intro y waits
        have busy := first.kept y (List.mem_cons_of_mem id waits)
        have before := twin.kept y waits
        exact ⟨busy.1.trans before.1, fun n owns => (busy.2 n owns).trans (before.2 n owns)⟩ }
  -- `x` is not `id` itself: no trait mentions itself.
  · intro waits
    rw [List.mem_singleton.1 waits] at asked
    exact layered.acyclic id (.single asked)

/-- A node of the trait is given the same type and bounds in both runs. -/
theorem write {n : NodeId} (owns : tree.Owns id n) {types types' : Table NodeId Ty}
    {bounds bounds' : Table NodeId Bounds}
    (type : ∀ m, m ≠ n → types.get? m = a.types.get? m ∧ types'.get? m = b.types.get? m)
    (bound : ∀ m, m ≠ n → bounds.get? m = a.bounds.get? m ∧ bounds'.get? m = b.bounds.get? m)
    (same : types.get? n = types'.get? n ∧ bounds.get? n = bounds'.get? n)
    (known : ∀ new, bounds'.get? n = some new → ∀ p ∈ new.toList, ∀ x, p.trait = some x →
      x = id ∨ x ∈ b.cache.keys) :
    tree.Twin limit busy id base { a with types, bounds } { b with types := types', bounds := bounds' }
      where
  left := twin.left.write layered.apart List.mem_cons_self owns (fun m ne => (type m ne).1)
    fun m ne => (bound m ne).1
  right := twin.right.write layered.apart List.mem_cons_self owns (fun m ne => (type m ne).2)
    fun m ne => (bound m ne).2
  fresh := twin.fresh
  stack := twin.stack
  below := twin.below
  cache := twin.cache
  problems := twin.problems
  own := twin.own
  nodes := by
    intro m owns'
    by_cases ne : m = n
    · rw [ne]
      exact same
    · have kept := twin.nodes m owns'
      exact ⟨((type m ne).1.trans kept.1).trans (type m ne).2.symm,
        ((bound m ne).1.trans kept.2).trans (bound m ne).2.symm⟩
  known := by
    intro m old owns' found p mem x super
    by_cases ne : m = n
    · subst ne
      exact known old found p mem x super
    · have found : bounds'.get? m = some old := found
      rw [(bound m ne).2] at found
      exact twin.known m old owns' found p mem x super
  kept := by
    intro x waits
    refine ⟨(twin.kept x waits).1, fun m owns' => ?_⟩
    have ne : m ≠ n := by
      rintro rfl
      rw [layered.apart x id m owns' owns] at waits
      exact layered.not_above above waits
    have kept := (twin.kept x waits).2 m owns'
    exact ⟨(type m ne).1.trans kept.1, (bound m ne).1.trans kept.2⟩

theorem insertType {n : NodeId} (owns : tree.Owns id n) (ty : Ty) :
    tree.Twin limit busy id base (a.insertType n ty) (b.insertType n ty) := by
  refine twin.write layered above owns ?_ (fun _ _ => ⟨rfl, rfl⟩) ⟨?_, (twin.nodes n owns).2⟩
    fun new found => twin.known n new owns found
  · intro m ne
    simp only [Table.get?_insert, if_neg ne, and_self]
  · simp only [Table.get?_insert, if_true]

/-- The traits of the new bounds are known. -/
theorem addBounds {n : NodeId} (owns : tree.Owns id n) {ps : List Predicate}
    (known : ∀ p ∈ ps, ∀ x, p.trait = some x → x = id ∨ x ∈ b.cache.keys) :
    tree.Twin limit busy id base (a.addBounds n ps) (b.addBounds n ps) := by
  refine twin.write layered above owns (fun _ _ => ⟨rfl, rfl⟩) ?_ ⟨(twin.nodes n owns).1, ?_⟩ ?_
  · intro m ne
    simp only [Table.get?_insert, if_neg ne, and_self]
  · simp only [Table.get?_insert, (twin.nodes n owns).2]
  · intro new found p mem x super
    rw [Table.get?_insert, if_pos rfl] at found
    cases found
    rcases Bounds.mem_addAll_iff.1 mem with old | mem
    · cases bounds : b.bounds.get? n with
      | none =>
          rw [bounds] at old
          exact absurd old List.not_mem_nil
      | some bs =>
          rw [bounds] at old
          exact twin.known n bs owns bounds p old x super
    · exact known p mem x super

end

theorem report (p : Problem) : tree.Twin limit busy id base (a.report p) (b.report p) where
  left := twin.left.report p
  right := twin.right.report p
  fresh := twin.fresh
  stack := by simpa using twin.stack
  below := by simpa using twin.below
  cache := by simpa using twin.cache
  problems := by
    intro q
    rw [mem_problems_report, mem_problems_report, twin.problems]
    exact or_right_comm
  own := by simpa [Context.trait?] using twin.own
  nodes := by
    intro n owns
    have kept := twin.nodes n owns
    rcases a.report_cases p with ⟨same, -⟩ | same <;> rcases b.report_cases p with ⟨same', -⟩ | same' <;>
      rw [same, same'] <;> exact kept
  known := by
    intro n bounds owns found
    rcases b.report_cases p with ⟨same, -⟩ | same <;> rw [same] at found ⊢ <;>
      exact twin.known n bounds owns found
  kept := by
    intro x waits
    rcases a.report_cases p with ⟨same, -⟩ | same <;> rw [same] <;> exact twin.kept x waits

theorem enterItems (other : DefId) :
    tree.Twin limit busy id base (a.enterItems other) (b.enterItems other) := by
  have left := twin.left.enterItems other
  have right := twin.right.enterItems other
  have keys := a.enterItems_keys other
  have keys' := b.enterItems_keys other
  obtain ⟨stack, same⟩ := a.enterItems_eq other
  obtain ⟨stack', same'⟩ := b.enterItems_eq other
  rw [same] at left keys ⊢
  rw [same'] at right keys' ⊢
  exact { twin with left, right, stack := by rw [keys, keys', twin.stack] }

theorem setPending (params : List TraitParam) :
    tree.Twin limit busy id base (a.setPending id params) (b.setPending id params) :=
  { twin with
    left := twin.left.of_eq rfl rfl rfl rfl rfl rfl (List.Subset.refl _)
    right := twin.right.of_eq rfl rfl rfl rfl rfl rfl (List.Subset.refl _) }

theorem markBodiesResolved : tree.Twin limit busy id base (a.markBodiesResolved id)
    (b.markBodiesResolved id) :=
  { twin with
    left := twin.left.of_eq rfl rfl rfl rfl rfl rfl (List.Subset.refl _)
    right := twin.right.of_eq rfl rfl rfl rfl rfl rfl (List.Subset.refl _) }

/-- Nothing is ever deferred. -/
theorem takeDeferred : (a.takeDeferred id).1 = (b.takeDeferred id).1 ∧
    tree.Twin limit busy id base (a.takeDeferred id).2 (b.takeDeferred id).2 := by
  have none := twin.left.deferred
  have none' := twin.right.deferred
  refine ⟨by simp [Context.takeDeferred, none, none'], { twin with left := ?_, right := ?_ }⟩
  · exact twin.left.of_eq rfl (by simp [Context.takeDeferred, none]) rfl rfl rfl rfl
      (List.Subset.refl _)
  · exact twin.right.of_eq rfl (by simp [Context.takeDeferred, none']) rfl rfl rfl rfl
      (List.Subset.refl _)

/-- Both runs cache the trait. -/
theorem insertTrait {t : TraitRef} (own : t.id = some id)
    (known : ∀ p ∈ t.supers, ∀ x, p.trait = some x → x ∈ b.cache.keys)
    (free : id ∉ busy) :
    tree.Twin limit busy id base (a.insertTrait id t) (b.insertTrait id t) where
  left := twin.left.insertTrait List.mem_cons_self own fun p mem x super =>
    twin.cached (known p mem x super)
  right := twin.right.insertTrait List.mem_cons_self own known
  fresh := twin.fresh
  stack := by
    show (a.stack.erase id).keys = base.stack.keys ++ (b.stack.erase id).keys
    have kept : base.stack.keys.filter (· ≠ id) = base.stack.keys := by
      refine List.filter_eq_self.2 fun x mem => ?_
      have other : x ≠ id := by
        rintro rfl
        exact twin.fresh mem
      simpa using other
    rw [Table.keys_erase, Table.keys_erase, twin.stack, List.filter_append, kept]
  below := by
    intro x mem
    rcases Table.mem_keys_insert.1 mem with rfl | mem
    · exact .refl
    · exact twin.below x mem
  cache := by
    intro x
    show x ∈ (a.cache.insert id t).keys ↔ x ∈ (b.cache.insert id t).keys ∨ _
    rw [Table.mem_keys_insert, Table.mem_keys_insert, twin.cache, or_assoc]
  problems := twin.problems
  own := by
    show (a.cache.insert id t).get? id = (b.cache.insert id t).get? id
    rw [Table.get?_insert, Table.get?_insert, if_pos rfl, if_pos rfl]
  nodes := twin.nodes
  known := fun n bounds owns found p mem x super =>
    (twin.known n bounds owns found p mem x super).imp_right fun mem =>
      Table.mem_keys_insert.2 (Or.inr mem)
  kept := by
    intro x waits
    have other : x ≠ id := by
      rintro rfl
      exact free waits
    refine ⟨?_, (twin.kept x waits).2⟩
    show (a.cache.insert id t).get? x = _
    rw [Table.get?_insert, if_neg other]
    exact (twin.kept x waits).1

end Twin

end ItemTree

end TraitEngine
