import TraitEngine.Proofs.CycleReports
/-!
# The graph of super-traits

The super-traits that cached traits have kept form a graph. A kept bound leads to a
trait that was cached before, or else to one that was still being built: then the
bound was not taken for a cycle because some trait between the two was past its
super-traits, and there is a path of uses from the super-trait back to the trait, one
of them at the second stage (`LatePath`).

So the graph has a cycle only through bounds of the second kind, and a cycle of declared
super-traits without them is cut where a bound is refused.
-/

namespace TraitEngine

set_option autoImplicit false

open Relation

namespace Context

/-- A cached trait keeps a super-trait. -/
def SuperEdge (cx : Context) (a b : DefId) : Prop := b ∈ cx.superIds a

def CachedBefore (cx : Context) (b a : DefId) : Prop :=
  cx.cache.keys.idxOf b < cx.cache.keys.idxOf a

variable {cx cx' : Context}

theorem superEdge_iff {a b : DefId} :
    cx.SuperEdge a b ↔ ∃ t, cx.trait? a = some t ∧ ∃ p ∈ t.supers, p.trait = some b := by
  unfold SuperEdge superIds
  cases cx.trait? a with
  | none => simp
  | some t => simp

/-- What is cached keeps its place while the cache grows. -/
theorem CachedBefore.grow {a b : DefId} (h : cx.CachedBefore b a) (first : b ∈ cx.cache.keys)
    (second : a ∈ cx.cache.keys) (grown : cx.cache.entries <+: cx'.cache.entries) :
    cx'.CachedBefore b a := by
  obtain ⟨new, eq⟩ := grown
  have keys : cx'.cache.keys = cx.cache.keys ++ new.map Prod.fst := by
    rw [Table.keys, ← eq, List.map_append]
    rfl
  rw [CachedBefore, keys, List.idxOf_append_of_mem first, List.idxOf_append_of_mem second]
  exact h

end Context

open Context

namespace ItemTree

variable (tree : ItemTree)

/-- `b` may be asked for while `a` is built. -/
def AnyUse (a b : DefId) : Prop := ∃ stage, tree.Uses stage a b

/-- A path of uses from `a` to `b`, one of them at the second stage. -/
def LatePath (a b : DefId) : Prop :=
  ∃ c d, ReflTransGen tree.AnyUse a c ∧ tree.Uses .items c d ∧ ReflTransGen tree.AnyUse d b

/-- Every super-trait that a cached trait keeps is declared, and it was cached before the
trait or leads back to it by a late path. -/
def Ranked (cx : Context) : Prop :=
  ∀ e ∈ cx.cache.entries, ∀ p ∈ e.2.supers, ∃ path b, tree.SuperBound e.1 path b ∧
    p.trait = some b ∧ (b ∈ cx.cache.keys ∧ cx.CachedBefore b e.1 ∨ tree.LatePath b e.1)

variable {tree} {cx cx' : Context} {handed : List Problem}

/-! ## Kept bounds -/

theorem reflTransGen_of_linked {l : List (DefId × ResolveStage)} {a b : DefId × ResolveStage}
    (links : l.IsChain fun e f => tree.Uses e.2 e.1 f.1) (first : l.head? = some a)
    (last : l.getLast? = some b) : ReflTransGen tree.AnyUse a.1 b.1 := by
  have some : l ≠ [] := by
    rintro rfl
    cases first
  have path : ReflTransGen (fun e f : DefId × ResolveStage => tree.Uses e.2 e.1 f.1) a b := by
    have path := List.relationReflTransGen_of_exists_isChain l links some
    rwa [List.head_of_head?_eq_some first, List.getLast_of_getLast?_eq_some last] at path
  exact path.lift Prod.fst fun e f link => ⟨e.2, link⟩

/-- A trait on the stack below one that is past its super-traits has a late path to
the top. -/
theorem latePath_of_lateAbove {base : List (DefId × ResolveStage)} {top : DefId × ResolveStage}
    {b : DefId} (links : (base ++ [top]).IsChain fun e f => tree.Uses e.2 e.1 f.1)
    (late : LateAbove base b) : tree.LatePath b top.1 := by
  obtain ⟨below, stage, above, rfl, e, mem, at_⟩ := late
  obtain ⟨before, after, split⟩ := List.append_of_mem mem
  rw [List.append_assoc] at links
  have upper := links.right_of_append
  rw [split, List.append_assoc, List.cons_append] at upper
  obtain ⟨next, rest, rest_eq⟩ := List.exists_cons_of_ne_nil
    (List.append_ne_nil_of_right_ne_nil after (List.cons_ne_nil top []))
  rw [rest_eq] at upper
  obtain ⟨lower, link, higher⟩ := List.isChain_append_cons_cons.1 upper
  have bottom : (before ++ [e]).head? = some (b, stage) := by
    have same : (before ++ [e]).head? = (before ++ e :: after).head? := by cases before <;> rfl
    rw [same, ← split]
    rfl
  have top_eq : (next :: rest).getLast? = some top := by
    rw [← rest_eq]
    exact List.getLast?_concat
  rw [at_] at link
  exact ⟨e.1, next.1, reflTransGen_of_linked lower bottom List.getLast?_concat, link,
    reflTransGen_of_linked higher rfl top_eq⟩

theorem Ranked.grow (h : tree.Ranked cx) (cache : cx'.cache = cx.cache) : tree.Ranked cx' := by
  unfold Ranked CachedBefore
  rw [cache]
  exact h

/-- The reference that is cached keeps bounds as ranked, and the others stay ranked. -/
theorem Ranked.insertTrait (h : tree.Ranked cx) (linked : tree.Linked cx)
    {base : List (DefId × ResolveStage)} {id : DefId} {t : TraitRef}
    (top : cx.stack.entries = base ++ [(id, .items)]) (notCached : id ∉ cx.cache.keys)
    (kept : ∀ p ∈ t.supers, tree.KeptSuper cx base id p) :
    tree.Ranked (cx.insertTrait id t) := by
  have entries : (cx.insertTrait id t).cache.entries = cx.cache.entries ++ [(id, t)] :=
    Table.entries_insert_of_new notCached
  have keys : (cx.insertTrait id t).cache.keys = cx.cache.keys ++ [id] :=
    Table.keys_insert_of_new notCached
  have grown : cx.cache.entries <+: (cx.insertTrait id t).cache.entries := ⟨_, entries.symm⟩
  intro e mem p written
  rw [entries, List.mem_append, List.mem_singleton] at mem
  rcases mem with mem | rfl
  · obtain ⟨path, b, bound, own, place⟩ := h e mem p written
    refine ⟨path, b, bound, own, place.imp_left fun earlier => ?_⟩
    obtain ⟨cached, before⟩ := earlier
    refine ⟨?_, before.grow cached (List.mem_map_of_mem mem) grown⟩
    rw [keys]
    exact List.mem_append_left _ cached
  · obtain ⟨path, b, bound, own, -, place⟩ := kept p written
    refine ⟨path, b, bound, own, place.imp (fun cached => ?_) fun late => ?_⟩
    · rw [CachedBefore, keys, List.idxOf_append_of_mem cached,
        List.idxOf_append_of_notMem notCached]
      refine ⟨List.mem_append_left _ cached, ?_⟩
      exact Nat.lt_add_right _ (List.idxOf_lt_length_iff.2 cached)
    · rw [Linked, top] at linked
      exact latePath_of_lateAbove linked late

theorem Move.ranked (move : tree.Move cx cx') (linked : tree.Linked cx) (h : tree.Ranked cx) :
    tree.Ranked cx' := by
  cases move with
  | report => exact h.grow (Context.report_cache _ _)
  | reportCycle => exact h.grow (Context.report_cache _ _)
  | @enterItems base id top notBelow =>
      obtain ⟨stack, eq⟩ := cx.enterItems_eq id
      exact h.grow (by rw [eq])
  | insertTrait top notBelow notCached own params kept all =>
      exact h.insertTrait linked top notCached kept
  | @checkDeferred id t waited found =>
      obtain ⟨problems, eq, -⟩ := cx.checkDeferred_eq id t
      exact h.grow (by rw [eq])
  | _ => exact h.grow rfl

theorem Run.ranked {limit : Nat} (run : tree.Run { limit } handed cx) : tree.Ranked cx := by
  induction run with
  | refl => exact fun e mem => absurd mem List.not_mem_nil
  | move before move ih => exact move.ranked before.explained.1 ih
  | handOut before idle ih => exact ih.grow rfl

theorem Ranked.superEdge (h : tree.Ranked cx) {a b : DefId} (edge : cx.SuperEdge a b) :
    tree.DeclaresSuper a b ∧ (cx.CachedBefore b a ∨ tree.LatePath b a) := by
  obtain ⟨t, found, p, written, own⟩ := superEdge_iff.1 edge
  obtain ⟨path, b', bound, own', place⟩ := h _ (Table.mem_entries_of_get? found) p written
  obtain rfl : b = b' := Option.some.inj (own.symm.trans own')
  exact ⟨⟨path, bound⟩, place.imp_left And.right⟩

/-- At every moment of a run, only declared traits keep super-traits. -/
theorem Run.superEdge_declared {limit : Nat} (run : tree.Run { limit } handed cx) (x y : DefId)
    (edge : cx.SuperEdge x y) : ∃ decl, tree.trait? x = some decl := by
  obtain ⟨⟨_, ⟨decl, declared, -⟩, -⟩, -⟩ := run.ranked.superEdge edge
  exact ⟨decl, declared⟩

/-! ## Cycles of the graph -/

/-- On a closed path of the graph some edge does not lead to a trait that was cached
before. -/
theorem exists_late_edge {a : DefId} (cycle : TransGen cx.SuperEdge a a) :
    ∃ x y, cx.SuperEdge x y ∧ ReflTransGen cx.SuperEdge y x ∧ ¬ cx.CachedBefore y x := by
  by_contra none
  have descends {x y : DefId} (edge : cx.SuperEdge x y) (back : ReflTransGen cx.SuperEdge y x) :
      cx.CachedBefore y x := by
    by_contra late
    exact none ⟨x, y, edge, back, late⟩
  have path : ∀ b, TransGen cx.SuperEdge a b → ReflTransGen cx.SuperEdge b a →
      cx.CachedBefore b a := by
    intro b forth
    induction forth with
    | single edge => exact descends edge
    | @tail c d forth edge ih =>
        intro back
        exact Nat.lt_trans (descends edge (back.trans forth.to_reflTransGen)) (ih (.head edge back))
  exact Nat.lt_irrefl _ (path a cycle .refl)

/-- Where every cycle of declared super-traits is free of late paths, the graph has no
cycle. -/
theorem Ranked.acyclic (h : tree.Ranked cx)
    (prompt : ∀ x y, tree.DeclaresSuper x y → ReflTransGen tree.DeclaresSuper y x →
      ¬ tree.LatePath y x) (a : DefId) : ¬ TransGen cx.SuperEdge a a := by
  intro cycle
  obtain ⟨x, y, edge, back, late⟩ := exists_late_edge cycle
  obtain ⟨declared, place⟩ := h.superEdge edge
  refine prompt x y declared (ReflTransGen.mono (fun _ _ edge => (h.superEdge edge).1) _ _ back) ?_
  exact place.resolve_left late

/-- A cycle of declared super-traits that are cached is cut in an acyclic graph, at a bound
whose refusal is reported. -/
theorem AllAccounted.cut {problems : List Problem} (h : tree.AllAccounted problems cx)
    (acyclic : ∀ a, ¬ TransGen cx.SuperEdge a a) {ids : List DefId} (real : tree.RealCycle ids)
    (cached : ∀ id ∈ ids, id ∈ cx.cache.keys) :
    ∃ before a b after path, ids = before ++ a :: b :: after ∧ tree.SuperBound a path b ∧
      tree.Refused problems path b := by
  by_contra uncut
  have links : ids.IsChain cx.SuperEdge := by
    rw [List.isChain_iff_forall_rel_of_append_cons_cons]
    intro a b before after split
    obtain ⟨path, bound⟩ := List.isChain_iff_forall_rel_of_append_cons_cons.1 real.links split
    obtain ⟨t, found⟩ := Option.isSome_iff_exists.1
      (cx.isSome_trait?_iff.2 (cached a (by simp [split])))
    rcases h _ (Table.mem_entries_of_get? found) path b bound with ⟨p, written, own, -⟩ | refused
    · exact superEdge_iff.2 ⟨t, found, p, written, own⟩
    · exact absurd ⟨before, a, b, after, path, split, bound, refused⟩ uncut
  obtain ⟨a, cycle⟩ := transGen_of_closed real.closed real.long links
  exact acyclic a cycle

/-- After any requests, the graph of kept super-traits has a cycle exactly if a kept bound
on it leads to a trait that was not cached before. Such a bound is declared, and its
super-trait leads back to the trait by a late path. So the graph is acyclic if no bound on
a cycle of declared super-traits has a late path back; then, below the recursion limit,
every such cycle of cached traits is cut at a bound that is reported for the cycle or for
its arguments. -/
theorem superGraph_acyclic (crate : String) (declarations : List Declaration)
    (requests : List Request) (limit : Nat) {tree : ItemTree}
    (built : tree = (empty crate).declareAll declarations) {handed : List Problem}
    {cx : Context} (ran : Request.runAll tree requests { limit } = .ok (handed, cx)) :
    ((∃ a, TransGen cx.SuperEdge a a) ↔ ∃ x y, cx.SuperEdge x y ∧
      ReflTransGen cx.SuperEdge y x ∧ ¬ cx.CachedBefore y x) ∧
    (∀ x y, cx.SuperEdge x y → ¬ cx.CachedBefore y x →
      tree.DeclaresSuper x y ∧ tree.LatePath y x) ∧
    ((∀ x y, tree.DeclaresSuper x y → ReflTransGen tree.DeclaresSuper y x →
        ¬ tree.LatePath y x) →
      (∀ a, ¬ TransGen cx.SuperEdge a a) ∧
      ((∀ span name limit, .recursionLimit span name limit ∉ handed ++ cx.problems) →
        ∀ ids, tree.RealCycle ids → (∀ id ∈ ids, id ∈ cx.cache.keys) →
          ∃ before a b after path, ids = before ++ a :: b :: after ∧ tree.SuperBound a path b ∧
            ((∃ cycle : List DefId, cycle.head? = some b ∧
              .superTraitCycle path.span (cycle.map tree.traitName) ∈ handed ++ cx.problems) ∨
            ∃ span cause, .argMismatch span (tree.traitName b) cause ∈
              handed ++ cx.problems))) := by
  have numbered : tree.Numbered := built ▸ (numbered_empty crate).declareAll declarations
  obtain ⟨run, -⟩ := (runAll_ends numbered requests (Idle.start limit)).of_eq_ok ran
  have ranked := run.ranked
  refine ⟨⟨fun ⟨a, cycle⟩ => exists_late_edge cycle, ?_⟩, ?_, fun prompt => ?_⟩
  · rintro ⟨x, y, edge, back, -⟩
    exact ⟨x, .head' edge back⟩
  · intro x y edge late
    exact (ranked.superEdge edge).imp_right fun place => place.resolve_left late
  · have acyclic := ranked.acyclic prompt
    refine ⟨acyclic, fun below ids real cached => ?_⟩
    -- Kept at every link, the cycle would be one of the graph, so one of its bounds was refused.
    obtain ⟨before, a, b, after, path, split, bound, refused⟩ :=
      run.allAccounted.cut acyclic real cached
    refine ⟨before, a, b, after, path, split, bound, ?_⟩
    cases refused with
    | cycle closes reported => exact Or.inl ⟨_, closes, reported⟩
    | limit reported => exact absurd reported (below _ _ _)
    | args reported => exact Or.inr ⟨_, _, reported⟩

/-- Where no trait names a trait at its second stage or in a default body, there are no late
paths. -/
theorem no_latePath (idle : ∀ id ∈ tree.ids, ∀ decl ∈ tree.trait? id,
    tree.named (decl.mentionsAt .items) = []) (a b : DefId) : ¬ tree.LatePath a b := by
  rintro ⟨c, d, -, late, -⟩
  induction late with
  | named declared names =>
      rw [names_iff, idle _ (mem_ids_of_trait? declared) _ declared] at names
      exact List.not_mem_nil names
  | body _ _ _ ih => exact ih

theorem superGraph_acyclic_mutualSupers :
    ∃ handed cx, Request.runAll mutualSupers [.runPasses [.traits]] { limit := 128 } =
        .ok (handed, cx) ∧ cx.cache.keys = [⟨1⟩, ⟨0⟩] ∧
      (∀ x y, mutualSupers.DeclaresSuper x y → ReflTransGen mutualSupers.DeclaresSuper y x →
        ¬ mutualSupers.LatePath y x) ∧ ∀ a, ¬ TransGen cx.SuperEdge a a := by
  have prompt : ∀ x y, mutualSupers.DeclaresSuper x y →
      ReflTransGen mutualSupers.DeclaresSuper y x → ¬ mutualSupers.LatePath y x :=
    fun x y _ _ => no_latePath (by decide +kernel) y x
  have observed : (Request.runAll mutualSupers [.runPasses [.traits]]
      { limit := 128 }).toOption.map (fun out => out.2.cache.keys) = some [⟨1⟩, ⟨0⟩] := by
    decide +kernel
  obtain ⟨⟨handed, cx⟩, ran, keys⟩ := ok_of_observed observed
  exact ⟨handed, cx, ran, keys, prompt,
    ((superGraph_acyclic "main" _ _ 128 rfl ran).2.2 prompt).1⟩

/-- `trait B: M + A {}`, `trait M { fn f<T: A>(&self); }` and `trait A: B {}`. -/
def methodLoop : ItemTree := (empty "main").declareAll [
  .trait "B" [.super (.ofText "M"), .super (.ofText "A")],
  .trait "M" [.method "f" [.self .ref, .typeParam "T" [.ofText "A"]]],
  .trait "A" [.super (.ofText "B")]]

/-- The bound on the method of `M` is lowered while `B` is at its super-traits; `A` keeps `B`
then, and `B` keeps `A` afterwards. Nothing is reported. -/
theorem superGraph_cyclic_methodLoop :
    ∃ handed cx, Request.runAll methodLoop [.runPasses [.traits]] { limit := 128 } =
        .ok (handed, cx) ∧ handed ++ cx.problems = [] ∧
      methodLoop.RealCycle [⟨2⟩, ⟨0⟩, ⟨2⟩] ∧ (∀ id ∈ [⟨2⟩, ⟨0⟩], id ∈ cx.cache.keys) ∧
      TransGen cx.SuperEdge ⟨2⟩ ⟨2⟩ := by
  have observed : (Request.runAll methodLoop [.runPasses [.traits]] { limit := 128 }).toOption.map
      (fun out => (out.1 ++ out.2.problems, out.2.cache.keys, out.2.superIds ⟨0⟩,
        out.2.superIds ⟨2⟩)) =
        some ([], [⟨2⟩, ⟨1⟩, ⟨0⟩], [⟨1⟩, ⟨2⟩], [⟨0⟩]) := by
    decide +kernel
  have up : methodLoop.DeclaresSuper ⟨2⟩ ⟨0⟩ :=
    declaresSuper_iff.2 ⟨_, rfl, by decide +kernel⟩
  have down : methodLoop.DeclaresSuper ⟨0⟩ ⟨2⟩ :=
    declaresSuper_iff.2 ⟨_, rfl, by decide +kernel⟩
  obtain ⟨⟨handed, cx⟩, ran, seen⟩ := ok_of_observed observed
  simp only [Prod.mk.injEq] at seen
  obtain ⟨quiet, keys, first, second⟩ := seen
  have forth : cx.SuperEdge ⟨2⟩ ⟨0⟩ := by simp [SuperEdge, second]
  have back : cx.SuperEdge ⟨0⟩ ⟨2⟩ := by simp [SuperEdge, first]
  refine ⟨handed, cx, ran, quiet, ⟨rfl, by decide, ?_⟩, by simp [keys], .tail (.single forth) back⟩
  exact List.isChain_cons_cons.2 ⟨up, List.isChain_pair.2 down⟩

end ItemTree

end TraitEngine
