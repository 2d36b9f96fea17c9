import TraitEngine.Proofs.Order.Determined
/-!
# The order of requests does not matter

If no trait mentions itself, not even by way of others, and the recursion limit leaves
room for all traits, then what an analysis knows after some requests depends on which
traits were asked for and not on the order: the context holds the outcomes of these
traits and nothing else (`Served`). So two orders of the same requests give the same
references, bounds, types and problems (`sameResults_of_sameRequests`).
-/

namespace TraitEngine

set_option autoImplicit false

open Relation Check Context

/-- Requests for traits by their ids, each on behalf of a span. -/
def Request.resolutions (asked : List (DefId × Span)) : List Request :=
  asked.map fun ask => .resolveDef ask.1 ask.2

/-- The same references, types, bounds and problems; the journals may differ. -/
structure Context.SameResults (a b : Context) : Prop where
  traits : ∀ id, a.trait? id = b.trait? id
  types : ∀ n, a.types.get? n = b.types.get? n
  bounds : ∀ n, a.bounds.get? n = b.bounds.get? n
  problems : ∀ p, p ∈ a.problems ↔ p ∈ b.problems

namespace ItemTree

variable {tree : ItemTree} {limit : Nat} {cx cx' : Context} {ids : List DefId} {id : DefId}

/-- The context holds the outcomes of the requested traits and nothing else. -/
structure Served (tree : ItemTree) (limit : Nat) (ids : List DefId) (cx : Context) : Prop where
  faithful : tree.Faithful limit [] cx
  cache : ∀ x, x ∈ cx.cache.keys ↔ ∃ id ∈ ids, x ∈ (tree.outcome limit id).cache.keys
  problems : ∀ p, p ∈ cx.problems ↔ ∃ id ∈ ids, p ∈ (tree.outcome limit id).problems

/-- A request for something else than a trait changes nothing. -/
theorem resolveWithin_undeclared (none : tree.trait? id = none) {depth : Nat} {span : Span}
    {t : TraitRef} (ran : Lowering.resolveWithin tree depth id span cx = .ok (t, cx')) :
    cx' = cx := by
  cases depth with
  | zero => exact nomatch ran
  | succ depth =>
      rw [Lowering.resolveWithin, get_bind] at ran
      cases found : cx.trait? id <;> simp only [found, none] at ran <;> cases ran <;> rfl

namespace Served

theorem start (limit : Nat) : tree.Served limit [] { limit } where
  faithful := .start limit
  cache := by simp [Table.keys]
  problems := by simp

/-- A request adds the outcome of its trait. -/
theorem resolveDef (h : tree.Served limit ids cx) (layered : tree.Layered limit) {span : Span}
    {t : TraitRef} (ran : tree.resolveDef id span cx = .ok (t, cx')) :
    tree.Served limit (ids ++ [id]) cx' := by
  have both (holds : DefId → Prop) :
      (∃ x ∈ ids ++ [id], holds x) ↔ (∃ x ∈ ids, holds x) ∨ holds id := by
    simp [or_and_right, exists_or]
  cases own : tree.trait? id with
  | none =>
      have same := resolveWithin_undeclared own ran
      obtain ⟨s, alone, -⟩ := layered.resolveDef_eq id
      have nothing : tree.outcome limit id = { limit } := resolveWithin_undeclared own alone
      subst same
      exact {
        faithful := h.faithful
        cache := fun x => by rw [both, nothing, h.cache]; simp [Table.keys]
        problems := fun p => by rw [both, nothing, h.problems]; simp }
  | some decl =>
      have resolved := (layered.determined own).resolved _ span [] cx t cx' h.faithful
        (fun _ mem => absurd mem List.not_mem_nil) ran
      exact {
        faithful := resolved.faithful
        cache := fun x => by rw [both, resolved.cache, h.cache]
        problems := fun p => by rw [both, resolved.problems, h.problems] }

theorem runAll (layered : tree.Layered limit) : ∀ (asked : List (DefId × Span)) {ids : List DefId}
    {cx : Context}, tree.Idle cx → tree.Served limit ids cx →
    Ends (fun _ => False) (Request.runAll tree (Request.resolutions asked)) cx fun handed cx' =>
      handed = [] ∧ tree.Served limit (ids ++ asked.map Prod.fst) cx'
  | [], ids, cx, _, served => ⟨rfl, by simpa using served⟩
  | (id, span) :: rest, ids, cx, idle, served => by
      obtain ⟨t, cx₁, ran, trip⟩ := ((resolveDef_ends layered.numbered idle (.refl cx) id
        span).mono_faults fun _ fault => layered.receivers.no_fault fault).exists_ok
      have later := runAll layered rest (idle.trip trip) (served.resolveDef layered ran)
      simp only [Request.resolutions, List.map_cons, Request.runAll, Request.run, ends_bind,
        ends_pure, ends_of_eq_ok ran]
      refine later.mono fun handed cx₂ ended => ?_
      simpa using ended

/-- Every trait that was asked for has its reference. -/
theorem answered (h : tree.Served limit ids cx) (layered : tree.Layered limit) (asked : id ∈ ids)
    {decl : TraitDecl} (own : tree.trait? id = some decl) :
    ∃ t, cx.trait? id = some t ∧ t.id = some id := by
  obtain ⟨s, alone⟩ := layered.exists_outcome own
  obtain ⟨t, found⟩ := cx.exists_trait? ((h.cache id).2 ⟨id, asked, Table.mem_keys_of_get? alone⟩)
  exact ⟨t, found, h.faithful.labelled id t found⟩

/-- What a context holds is determined by the traits that were asked for. -/
theorem sameResults {others : List DefId} (h : tree.Served limit ids cx)
    (h' : tree.Served limit others cx') (same : ∀ id, id ∈ ids ↔ id ∈ others) :
    cx.SameResults cx' := by
  have cache (x : DefId) : x ∈ cx.cache.keys ↔ x ∈ cx'.cache.keys := by
    simp only [h.cache, h'.cache, same]
  have nodes (n : NodeId) : SameAt n cx cx' := by
    by_cases owned : ∃ x, tree.Owns x n ∧ x ∈ cx.cache.keys
    · obtain ⟨x, owns, cached⟩ := owned
      exact (h.faithful.nodes x cached List.not_mem_nil n owns).trans
        (h'.faithful.nodes x ((cache x).1 cached) List.not_mem_nil n owns).symm
    · have nobody (x : DefId) (owns : tree.Owns x n) : x ∉ cx.cache.keys :=
        fun cached => owned ⟨x, owns, cached⟩
      exact (h.faithful.rest n fun x owns => ⟨nobody x owns, List.not_mem_nil⟩).sameAt
        (h'.faithful.rest n fun x owns =>
          ⟨fun cached => nobody x owns ((cache x).2 cached), List.not_mem_nil⟩)
  exact {
    traits := by
      intro x
      by_cases cached : x ∈ cx.cache.keys
      · rw [h.faithful.found x cached List.not_mem_nil,
          h'.faithful.found x ((cache x).1 cached) List.not_mem_nil]
      · rw [cx.trait?_eq_none_iff.2 cached,
          cx'.trait?_eq_none_iff.2 fun there => cached ((cache x).2 there)]
    types := fun n => (nodes n).1
    bounds := fun n => (nodes n).2
    problems := by
      intro p
      simp only [h.problems, h'.problems, same] }

end Served

/-- Two orders of the same requests, each from an empty context, both come to an end, and
with the same results: the same reference for every trait, the same types and bounds for
every node, the same problems. All traits that were asked for have a reference. -/
theorem sameResults_of_sameRequests {crate : String} {declarations : List Declaration}
    (built : tree = (empty crate).declareAll declarations) (receivers : tree.HasReceivers)
    (acyclic : ∀ id, ¬ TransGen tree.Mentions id id) (room : tree.traitCount < limit)
    (asked asked' : List (DefId × Span))
    (same : ∀ id, id ∈ asked.map Prod.fst ↔ id ∈ asked'.map Prod.fst) :
    ∃ a b, Request.runAll tree (Request.resolutions asked) { limit } = .ok ([], a) ∧
      Request.runAll tree (Request.resolutions asked') { limit } = .ok ([], b) ∧
      a.SameResults b ∧ ∀ id ∈ asked.map Prod.fst, ∀ decl, tree.trait? id = some decl →
        ∃ t, a.trait? id = some t ∧ t.id = some id := by
  have layered : tree.Layered limit := {
    numbered := built ▸ (numbered_empty crate).declareAll declarations
    receivers
    apart := built ▸ apart_declareAll crate declarations
    acyclic
    room }
  have run (asked : List (DefId × Span)) := (Served.runAll layered asked (Idle.start limit)
    (.start limit)).exists_ok
  obtain ⟨_, a, ran, rfl, served⟩ := run asked
  obtain ⟨_, b, ran', rfl, served'⟩ := run asked'
  exact ⟨a, b, ran, ran', served.sameResults served' (by simpa using same), fun id mem decl own =>
    served.answered layered (by simpa using mem) own⟩

/-- No trait mentions itself if all mention only traits declared before them. -/
theorem acyclic_of_earlier (earlier : ∀ id ∈ tree.ids, ∀ decl ∈ tree.trait? id,
    ∀ other ∈ tree.named decl.mentions, other.index < id.index) (id : DefId) :
    ¬ TransGen tree.Mentions id id := by
  have below {a b : DefId} (path : TransGen tree.Mentions a b) : b.index < a.index := by
    have one {a b : DefId} : tree.Mentions a b → b.index < a.index := by
      rintro ⟨decl, declared, named⟩
      exact earlier a (mem_ids_of_trait? declared) decl declared b (names_iff.1 named)
    induction path with
    | single asked => exact one asked
    | tail _ asked ih => exact Nat.lt_trans (one asked) ih
  exact fun cycle => Nat.lt_irrefl _ (below cycle)

/-- `trait Show { fn show(&self); }`, `trait Hash { const SEED: u64; }` and
`trait Key<T: Hash = dyn Show>: Show { fn hash(&self, by: dyn Hash) { Show::print } }`. -/
def keyLibrary : ItemTree := (empty "main").declareAll [
  .trait "Show" [.method "show" [.self .ref]],
  .trait "Hash" [.assocConst "SEED" (.ofText "u64") none],
  .trait "Key" [.super (.ofText "Show"),
    .typeParam "T" [.ofText "Hash"] (some (.traitObject [.ofText "Show"])),
    .method "hash" [.self .ref, .param "by" (.traitObject [.ofText "Hash"]),
      .body ⟨[.item (.ofText "Show") "print"]⟩]]]

def keyFirst : List (DefId × Span) := [(⟨2⟩, default), (⟨0⟩, default), (⟨1⟩, default)]

def keyLast : List (DefId × Span) := [(⟨1⟩, default), (⟨0⟩, default), (⟨2⟩, default)]

/-- The traits are cached in different orders, and both times two problems are reported. -/
theorem sameResults_of_sameRequests_keyLibrary :
    ∃ a b, Request.runAll keyLibrary (Request.resolutions keyFirst) { limit := 4 } = .ok ([], a) ∧
      Request.runAll keyLibrary (Request.resolutions keyLast) { limit := 4 } = .ok ([], b) ∧
      (a.cache.keys, a.problems.length) = ([⟨0⟩, ⟨1⟩, ⟨2⟩], 2) ∧
      (b.cache.keys, b.problems.length) = ([⟨1⟩, ⟨0⟩, ⟨2⟩], 2) ∧ a.SameResults b := by
  have built : keyLibrary = (empty "main").declareAll _ := rfl
  have receivers : keyLibrary.HasReceivers := by decide +kernel
  have acyclic := keyLibrary.acyclic_of_earlier (by decide +kernel)
  have room : keyLibrary.traitCount < 4 := by decide +kernel
  have same : ∀ id, id ∈ keyFirst.map Prod.fst ↔ id ∈ keyLast.map Prod.fst := by
    intro id
    simp only [keyFirst, keyLast, List.map_cons, List.map_nil, List.mem_cons, List.not_mem_nil]
    tauto
  obtain ⟨a, b, ran, ran', results, -⟩ :=
    sameResults_of_sameRequests built receivers acyclic room keyFirst keyLast same
  have seen : (Request.runAll keyLibrary (Request.resolutions keyFirst) { limit := 4 }).toOption.map
      (fun out => (out.2.cache.keys, out.2.problems.length)) = some ([⟨0⟩, ⟨1⟩, ⟨2⟩], 2) := by
    decide +kernel
  have seen' : (Request.runAll keyLibrary (Request.resolutions keyLast) { limit := 4 }).toOption.map
      (fun out => (out.2.cache.keys, out.2.problems.length)) = some ([⟨1⟩, ⟨0⟩, ⟨2⟩], 2) := by
    decide +kernel
  rw [ran] at seen
  rw [ran'] at seen'
  exact ⟨a, b, ran, ran', Option.some.inj seen, Option.some.inj seen', results⟩

end ItemTree

end TraitEngine
