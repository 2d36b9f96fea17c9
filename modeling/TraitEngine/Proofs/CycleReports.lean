import TraitEngine.Proofs.Requests
import Mathlib.Data.List.Chain
/-!
# Reports of super-trait cycles

Every trait on the stack may ask for the one above it at the stage it is at
(`Linked`). So a reported cycle is a closed chain of traits that ask for each other
at their first stage, and the last of them does so by a super-trait bound
(`EarlyCycle`).

Only the last link is known to be a super-trait bound. The default of a parameter, an
argument of a super-trait bound and a default body of a trait that gets cached on the
way are asked for at the first stage too, so a chain through one of these is reported
although no trait is its own super-trait.
-/

namespace TraitEngine

set_option autoImplicit false

namespace ItemTree

variable (tree : ItemTree)

/-- Each trait of a closed list declares the next one as a super-trait. -/
structure RealCycle (ids : List DefId) : Prop where
  closed : ids.head? = ids.getLast?
  long : 2 ≤ ids.length
  links : ids.IsChain tree.DeclaresSuper

/-- A closed chain of distinct traits. Each of them may ask for the next one at its first
stage, and the last one declares the first one by the super-trait bound `path`. -/
structure EarlyCycle (path : TypePath) (ids : List DefId) : Prop where
  closed : ids.head? = ids.getLast?
  nodup : ids.dropLast.Nodup
  links : ids.dropLast.IsChain (tree.Uses .supers)
  last : ∃ a b, ids.dropLast.getLast? = some a ∧ ids.getLast? = some b ∧
    tree.SuperBound a path b

/-- Every report of a super-trait cycle tells of such a chain. -/
def Explained (problems : List Problem) : Prop :=
  ∀ span names, .superTraitCycle span names ∈ problems →
    ∃ path ids, path.span = span ∧ ids.map tree.traitName = names ∧ tree.EarlyCycle path ids

/-- Every trait on the stack may ask for the one above it. -/
def Linked (cx : Context) : Prop :=
  cx.stack.entries.IsChain fun e f => tree.Uses e.2 e.1 f.1

variable {tree} {cx cx' : Context} {handed : List Problem}

/-! ## Chains -/

/-- A reported chain is a real cycle exactly if the links before its last one are
super-traits. -/
theorem EarlyCycle.real_iff {path : TypePath} {ids : List DefId} (h : tree.EarlyCycle path ids) :
    tree.RealCycle ids ↔ ids.dropLast.IsChain tree.DeclaresSuper := by
  obtain ⟨a, b, top, closing, bound⟩ := h.last
  have whole : ids = ids.dropLast ++ [b] := by
    obtain ⟨init, rfl⟩ := List.getLast?_eq_some_iff.1 closing
    rw [List.dropLast_concat]
  constructor
  · intro real
    have links := real.links
    rw [whole] at links
    exact links.left_of_append
  · intro inner
    refine ⟨h.closed, ?_, ?_⟩
    · have some : ids.dropLast ≠ [] := by
        intro none
        rw [none] at top
        cases top
      rw [whole, List.length_append]
      exact Nat.succ_le_succ (List.length_pos_iff.2 some)
    · rw [whole]
      refine inner.append (.singleton b) fun x last y first => ?_
      cases Option.some.inj (top.symm.trans last)
      cases first
      exact ⟨path, bound⟩

/-! ## What the moves keep -/

/-- The top of the stack may change its stage. -/
theorem isChain_restage {base : List (DefId × ResolveStage)} {id : DefId}
    {stage stage' : ResolveStage}
    (h : (base ++ [(id, stage)]).IsChain fun e f => tree.Uses e.2 e.1 f.1) :
    (base ++ [(id, stage')]).IsChain fun e f => tree.Uses e.2 e.1 f.1 := by
  obtain ⟨below, -, link⟩ := List.isChain_append.1 h
  refine below.append (.singleton _) fun e last f first => ?_
  cases first
  exact link e last (id, stage) rfl

theorem Move.linked (move : tree.Move cx cx') (h : tree.Linked cx) : tree.Linked cx' := by
  unfold Linked at h ⊢
  cases move with
  | report => rwa [Context.report_stack]
  | reportCycle => rwa [Context.report_stack]
  | @beginResolving id decl declared receiver notOpen notCached room asked =>
      rw [show (cx.beginResolving id).stack.entries = cx.stack.entries ++ [(id, .supers)] from
        Table.entries_insert_of_new notOpen]
      refine h.append (.singleton _) fun e last f first => ?_
      cases first
      exact asked e last
  | @enterItems base id top notBelow =>
      rw [Context.enterItems_entries top notBelow]
      rw [top] at h
      exact isChain_restage h
  | @insertTrait base id t top notBelow notCached own params kept all =>
      rw [show (cx.insertTrait id t).stack.entries = base from
        Table.entries_erase_last top notBelow]
      rw [top] at h
      exact h.left_of_append
  | @checkDeferred id t waited found =>
      obtain ⟨problems, eq, -⟩ := cx.checkDeferred_eq id t
      rw [eq]
      exact h
  | _ => exact h

theorem Explained.append {more : List Problem} (h : tree.Explained handed)
    (h' : tree.Explained more) : tree.Explained (handed ++ more) := by
  intro span names mem
  rcases List.mem_append.1 mem with mem | mem
  · exact h span names mem
  · exact h' span names mem

/-- The cycle that the stack closes is an early one. -/
theorem earlyCycle_of_stack (coherent : tree.Coherent cx) (linked : tree.Linked cx)
    {e : DefId × ResolveStage} {path : TypePath} {id : DefId} {ids : List DefId}
    (top : cx.stack.entries.getLast? = some e) (bound : tree.SuperBound e.1 path id)
    (cycle : cx.superTraitCycle? id = some ids) : tree.EarlyCycle path ids := by
  obtain ⟨below, stage, above, whole, checked⟩ :=
    cx.superTraitCycle?_split (cx.mem_of_superTraitCycle? cycle)
  rw [checked] at cycle
  split at cycle
  · rename_i early
    cases cycle
    have inner : (id :: above.map Prod.fst ++ [id]).dropLast =
        ((id, stage) :: above).map Prod.fst := List.dropLast_concat
    have last : (id :: above.map Prod.fst ++ [id]).getLast? = some id := List.getLast?_concat
    have distinct := coherent.nested.nodup_opened
    rw [Table.keys, whole, List.map_append, List.nodup_append] at distinct
    rw [Linked, whole] at linked
    rw [whole, List.getLast?_append, List.getLast?_cons, Option.some_or] at top
    refine ⟨?_, ?_, ?_, e.1, id, ?_, last, bound⟩
    · rw [last]
      rfl
    · rw [inner]
      exact distinct.2.1
    · rw [inner, List.isChain_map]
      refine linked.right_of_append.imp_of_mem_imp fun f g mem _ link => ?_
      rwa [show f.2 = .supers by simpa using List.all_eq_true.1 early f mem] at link
    · rw [inner, List.getLast?_map, List.getLast?_cons, top]
      rfl
  · cases cycle

theorem Move.explained (move : tree.Move cx cx') (coherent : tree.Coherent cx)
    (linked : tree.Linked cx) (h : tree.Explained cx.problems) : tree.Explained cx'.problems := by
  cases move with
  | @report p plain =>
      intro span names mem
      rcases (cx.mem_problems_report p).1 mem with mem | rfl
      · exact h span names mem
      · cases plain
  | @reportCycle e path id ids top bound cycle =>
      intro span names mem
      rcases (cx.mem_problems_report _).1 mem with mem | same
      · exact h span names mem
      · cases same
        exact ⟨path, ids, rfl, rfl, earlyCycle_of_stack coherent linked top bound cycle⟩
  | @enterItems base id top notBelow =>
      obtain ⟨stack, eq⟩ := cx.enterItems_eq id
      rwa [eq]
  | @checkDeferred id t waited found =>
      obtain ⟨problems, eq, -, plain⟩ := cx.checkDeferred_eq id t
      rw [eq]
      intro span names mem
      rcases plain _ mem with old | fine
      · exact h span names old
      · cases fine
  | _ => exact h

/-- Along a run from an empty context, every report is explained. -/
theorem Run.explained {limit : Nat} (run : tree.Run { limit } handed cx) :
    tree.Linked cx ∧ tree.Explained (handed ++ cx.problems) := by
  induction run with
  | refl => exact ⟨.nil, nofun⟩
  | @move handed cx₁ cx₂ before move ih =>
      obtain ⟨linked, explained⟩ := ih
      have coherent := before.coherent (Idle.start limit).coherent
      have now : tree.Explained cx₁.problems := fun span names mem =>
        explained span names (List.mem_append_right _ mem)
      refine ⟨move.linked linked, Explained.append (fun span names mem => ?_)
        (move.explained coherent linked now)⟩
      exact explained span names (List.mem_append_left _ mem)
  | handOut before idle ih =>
      rw [List.append_nil]
      exact ih

/-! ## Lost super-traits -/

/-- Every super-trait bound of a cached trait is kept, or its refusal is reported. -/
def AllAccounted (tree : ItemTree) (problems : List Problem) (cx : Context) : Prop :=
  ∀ e ∈ cx.cache.entries, ∀ path super, tree.SuperBound e.1 path super →
    tree.Accounted problems e.2 path super

theorem AllAccounted.mono {problems more : List Problem} (h : tree.AllAccounted problems cx)
    (sub : problems ⊆ more) : tree.AllAccounted more cx :=
  fun e mem path super bound => (h e mem path super bound).imp_right fun refused =>
    refused.mono sub

theorem Move.allAccounted (move : tree.Move cx cx')
    (h : tree.AllAccounted (handed ++ cx.problems) cx) :
    tree.AllAccounted (handed ++ cx'.problems) cx' := by
  have kept := h.mono (Problem.append_subset_append handed move.problems)
  cases move with
  | report => rwa [AllAccounted, Context.report_cache]
  | reportCycle => rwa [AllAccounted, Context.report_cache]
  | @enterItems base id top notBelow =>
      obtain ⟨stack, eq⟩ := cx.enterItems_eq id
      rw [eq] at kept ⊢
      exact kept
  | @insertTrait base id t top notBelow notCached own params keptSupers all =>
      intro e mem path super bound
      rcases Table.mem_entries_insert mem with rfl | mem
      · exact (all path super bound).imp_right fun refused =>
          refused.mono (List.subset_append_right handed cx.problems)
      · exact kept e mem path super bound
  | @checkDeferred id t waited found =>
      obtain ⟨problems, eq, -⟩ := cx.checkDeferred_eq id t
      rw [eq] at kept ⊢
      exact kept
  | _ => exact kept

theorem Run.allAccounted {limit : Nat} (run : tree.Run { limit } handed cx) :
    tree.AllAccounted (handed ++ cx.problems) cx := by
  induction run with
  | refl => exact fun e mem => absurd mem List.not_mem_nil
  | move before move ih => exact move.allAccounted ih
  | handOut before idle ih =>
      rw [List.append_nil]
      exact ih

/-! ## What a report tells -/

/-- A closed chain leads its first element back to itself. -/
theorem transGen_of_closed {α : Type} {r : α → α → Prop} {l : List α}
    (closed : l.head? = l.getLast?) (long : 2 ≤ l.length) (links : l.IsChain r) :
    ∃ a, Relation.TransGen r a a := by
  match l with
  | [] => simp at long
  | [_] => simp at long
  | a :: b :: rest =>
      obtain ⟨first, others⟩ := List.isChain_cons_cons.1 links
      have back := List.relationReflTransGen_of_exists_isChain (b :: rest) others
        (List.cons_ne_nil b rest)
      rw [List.head?_cons, List.getLast?_cons_cons,
        List.getLast?_eq_some_getLast (List.cons_ne_nil b rest)] at closed
      rw [← Option.some.inj closed, List.head_cons] at back
      exact ⟨a, .head' first back⟩

/-- A relation that goes down by some measure has no cycle. -/
theorem acyclic_of_descends {α : Type} {r : α → α → Prop} (measure : α → Nat)
    (descends : ∀ a b, r a b → measure b < measure a) (a : α) : ¬ Relation.TransGen r a a := by
  have path : ∀ b, Relation.TransGen r a b → measure b < measure a := by
    intro b forth
    induction forth with
    | single step => exact descends _ _ step
    | tail _ step ih => exact Nat.lt_trans (descends _ _ step) ih
  exact fun cycle => Nat.lt_irrefl _ (path a cycle)

/-- At its first stage no trait names anything but its super-traits, and no default body
names a trait. -/
def OnlySupers (tree : ItemTree) : Prop :=
  ∀ id ∈ tree.ids, ∀ decl ∈ tree.trait? id,
    (∀ b ∈ tree.named (decl.mentionsAt .supers), b ∈ tree.named decl.superPaths) ∧
      tree.named decl.bodyMentions = []

instance (tree : ItemTree) : Decidable tree.OnlySupers :=
  inferInstanceAs (Decidable (∀ id ∈ tree.ids, ∀ decl ∈ tree.trait? id,
    (∀ b ∈ tree.named (decl.mentionsAt .supers), b ∈ tree.named decl.superPaths) ∧
      tree.named decl.bodyMentions = []))

/-- Then all early cycles are real. -/
theorem OnlySupers.real (only : tree.OnlySupers) {path : TypePath} {ids : List DefId}
    (early : tree.EarlyCycle path ids) : tree.RealCycle ids := by
  refine early.real_iff.2 (early.links.imp fun a b use => ?_)
  induction use with
  | named declared names =>
      exact declaresSuper_iff.2 ⟨_, declared,
        (only _ (mem_ids_of_trait? declared) _ declared).1 _ (names_iff.1 names)⟩
  | body _ declared names =>
      rw [names_iff, (only _ (mem_ids_of_trait? declared) _ declared).2] at names
      exact absurd names List.not_mem_nil

/-- Every report of a super-trait cycle tells of a closed chain that ends in a declared
super-trait bound. It is a real cycle exactly if all links before that one are super-traits
too. So where closed chains of this kind are always real, every report is; then a tree whose
super-traits have no cycle gets no report, and its traits keep all super-traits but those
whose arguments do not fit or that lie beyond the recursion limit. -/
theorem superTraitCycle_reports (crate : String) (declarations : List Declaration)
    (requests : List Request) (limit : Nat) {tree : ItemTree}
    (built : tree = (ItemTree.empty crate).declareAll declarations) {handed : List Problem}
    {cx : Context} (ran : Request.runAll tree requests { limit } = .ok (handed, cx)) :
    (∀ span names, .superTraitCycle span names ∈ handed ++ cx.problems →
      ∃ path ids, path.span = span ∧ ids.map tree.traitName = names ∧
        tree.EarlyCycle path ids ∧
        (tree.RealCycle ids ↔ ids.dropLast.IsChain tree.DeclaresSuper)) ∧
    ((∀ path ids, tree.EarlyCycle path ids → tree.RealCycle ids) →
      (∀ span names, .superTraitCycle span names ∈ handed ++ cx.problems →
        ∃ ids, ids.map tree.traitName = names ∧ tree.RealCycle ids) ∧
      ((∀ id, ¬ Relation.TransGen tree.DeclaresSuper id id) →
        (∀ span names, .superTraitCycle span names ∉ handed ++ cx.problems) ∧
        ∀ id t, cx.trait? id = some t → ∀ path super, tree.SuperBound id path super →
          (∃ p ∈ t.supers, p.trait = some super ∧ p.span = path.span) ∨
          (∃ name limit, .recursionLimit path.span name limit ∈ handed ++ cx.problems) ∨
          ∃ span cause, .argMismatch span (tree.traitName super) cause ∈
            handed ++ cx.problems)) := by
  have numbered : tree.Numbered := built ▸ (numbered_empty crate).declareAll declarations
  obtain ⟨run, -⟩ := (runAll_ends numbered requests (Idle.start limit)).of_eq_ok ran
  have explained := run.explained.2
  have accounted := run.allAccounted
  refine ⟨fun span names mem => ?_, fun realistic => ?_⟩
  · obtain ⟨path, ids, at_, named, early⟩ := explained span names mem
    exact ⟨path, ids, at_, named, early, early.real_iff⟩
  · have real : ∀ span names, .superTraitCycle span names ∈ handed ++ cx.problems →
        ∃ ids, ids.map tree.traitName = names ∧ tree.RealCycle ids := by
      intro span names mem
      obtain ⟨path, ids, -, named, early⟩ := explained span names mem
      exact ⟨ids, named, realistic path ids early⟩
    refine ⟨real, fun acyclic => ?_⟩
    -- A reported cycle would close a chain of declared super-traits.
    have none : ∀ span names, .superTraitCycle span names ∉ handed ++ cx.problems := by
      intro span names mem
      obtain ⟨ids, -, cycle⟩ := real span names mem
      obtain ⟨id, back⟩ := transGen_of_closed cycle.closed cycle.long cycle.links
      exact acyclic id back
    refine ⟨none, fun id t found path super bound => ?_⟩
    refine (accounted _ (Table.mem_entries_of_get? found) path super bound).imp_right ?_
    intro refused
    cases refused with
    | cycle closes reported => exact absurd reported (none _ _)
    | limit reported => exact Or.inl ⟨_, _, reported⟩
    | args reported => exact Or.inr ⟨_, _, reported⟩

/-- `trait A: B {}` and `trait B: A {}`. -/
def mutualSupers : ItemTree := (empty "main").declareAll [
  .trait "A" [.super (.ofText "B")],
  .trait "B" [.super (.ofText "A")]]

/-- The cycle of two traits that declare each other is reported, and rightly so. -/
theorem superTraitCycle_reports_mutualSupers :
    ∃ handed cx, Request.runAll mutualSupers [.runPasses [.traits]] { limit := 128 } =
        .ok (handed, cx) ∧ mutualSupers.OnlySupers ∧
      .superTraitCycle default ["A", "B", "A"] ∈ handed ∧
      ∃ ids, ids.map mutualSupers.traitName = ["A", "B", "A"] ∧ mutualSupers.RealCycle ids := by
  have only : mutualSupers.OnlySupers := by decide +kernel
  have observed : (Request.runAll mutualSupers [.runPasses [.traits]] { limit := 128 }).toOption.map
      Prod.fst = some [.superTraitCycle default ["A", "B", "A"]] := by
    decide +kernel
  obtain ⟨⟨handed, cx⟩, ran, rfl⟩ := ok_of_observed observed
  have reported : .superTraitCycle default ["A", "B", "A"] ∈
      [Problem.superTraitCycle default ["A", "B", "A"]] := List.mem_singleton_self _
  have real := ((superTraitCycle_reports "main" _ _ 128 rfl ran).2 fun _ _ => only.real).1
  exact ⟨_, cx, ran, only, reported, real default _ (List.mem_append_left _ reported)⟩

/-- `trait A<T = dyn B> {}` and `trait B: A<u8> {}`. -/
def defaultLoop : ItemTree := (empty "main").declareAll [
  .trait "A" [.typeParam "T" [] (some (.traitObject [.ofText "B"]))],
  .trait "B" [.super ((TypePath.ofText "A").withArgs [.type (.ofText "u8")] [])]]

/-- The only super-trait of these two traits is `A`, of `B`. Still a cycle is reported, and
`B` loses its super-trait. -/
theorem superTraitCycle_reports_defaultLoop :
    ∃ handed cx, Request.runAll defaultLoop [.runPasses [.traits]] { limit := 128 } =
        .ok (handed, cx) ∧
      .superTraitCycle default ["A", "B", "A"] ∈ handed ∧
      (∀ id, ¬ Relation.TransGen defaultLoop.DeclaresSuper id id) ∧
      (∀ ids, ¬ defaultLoop.RealCycle ids) ∧
      defaultLoop.DeclaresSuper ⟨1⟩ ⟨0⟩ ∧ (cx.trait? ⟨1⟩).map TraitRef.supers = some [] := by
  have descends : ∀ a ∈ defaultLoop.ids, ∀ decl ∈ defaultLoop.trait? a,
      ∀ b ∈ defaultLoop.named decl.superPaths, a.index - b.index = 1 := by decide +kernel
  have acyclic : ∀ id, ¬ Relation.TransGen defaultLoop.DeclaresSuper id id := by
    refine acyclic_of_descends DefId.index fun a b declares => ?_
    obtain ⟨decl, declared, mem⟩ := declaresSuper_iff.1 declares
    have apart := descends a (mem_ids_of_trait? declared) decl declared b mem
    omega
  have none : ∀ ids, ¬ defaultLoop.RealCycle ids := by
    intro ids real
    obtain ⟨id, back⟩ := transGen_of_closed real.closed real.long real.links
    exact acyclic id back
  have declares : ∃ decl, defaultLoop.trait? ⟨1⟩ = some decl ∧
      ⟨0⟩ ∈ defaultLoop.named decl.superPaths := ⟨_, rfl, by decide +kernel⟩
  have observed : (Request.runAll defaultLoop [.runPasses [.traits]] { limit := 128 }).toOption.map
      (fun out => (out.1, (out.2.trait? ⟨1⟩).map TraitRef.supers)) =
        some ([.superTraitCycle default ["A", "B", "A"]], some []) := by
    decide +kernel
  obtain ⟨⟨handed, cx⟩, ran, seen⟩ := ok_of_observed observed
  obtain ⟨rfl, lost⟩ := Prod.mk.inj seen
  exact ⟨_, cx, ran, List.mem_singleton_self _, acyclic, none, declaresSuper_iff.2 declares, lost⟩

end ItemTree

end TraitEngine
