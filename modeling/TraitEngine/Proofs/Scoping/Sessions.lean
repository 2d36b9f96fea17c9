import TraitEngine.Proofs.Scoping.Lowering
import TraitEngine.Proofs.StoredTypes
/-!
# Well-scoped lowering

Between the steps of a session nothing is pending, and the defaults of all cached traits are
enclosed; a later declaration does not change what the declared traits leave open. So a type
that is lowered after any steps has parameters of its scope, and besides, only through trait
objects, parameters that the default of some trait leaves open
(`performAll_lowerTy_scoped`).

The exception is real. For `trait Foo<T = Self>` the type `dyn Foo` is lowered to
`dyn Foo<Self>` with the receiver parameter of `Foo`, in any scope
(`lowerTy_leaks_receiver`).
-/

namespace TraitEngine

set_option autoImplicit false

open Check

namespace ItemTree

variable {tree tree' : ItemTree} {cx : Context}

/-! ## Idle contexts -/

/-- Of an idle context: the parameters of all cached traits are those of a declared trait. -/
def enclosing (tree : ItemTree) : Upkeep where
  Holds cx := cx.stack.keys = [] → ∀ e ∈ cx.cache.entries, tree.Lowered e.2.params
  report {cx p} _ holds := by
    rw [cx.report_stack, cx.report_cache]
    exact holds
  insertType _ _ := id
  addBounds _ _ := id
  setPending _ _ := id
  deferObjectSafety _ _ := id
  enterItems {cx} id holds := by
    obtain ⟨stack, eq⟩ := cx.enterItems_eq id
    rw [cx.enterItems_keys, eq]
    exact holds

theorem serves_enclosing (tree : ItemTree) :
    tree.Serves tree.enclosing (tree.items.size + 1) tree.resolveDef := by
  intro id span cx ready asked
  refine ((Lowering.resolveWithin_resolves _ id span cx ready asked).and
    (ends_self _ cx)).mono fun t cx' ended => ?_
  obtain ⟨⟨trip, answer⟩, ran⟩ := ended
  refine ⟨⟨trip, fun holds idle => ?_⟩, answer⟩
  rw [trip.stack] at idle
  have pending : cx.pending.entries = [] := ready.coherent.pending_eq_nil idle
  have enclosed : tree.Enclosed cx := ⟨holds idle, by simp [pending]⟩
  exact (Lowering.resolveWithin_encloses ready.numbered _ id span cx t cx' ran
    enclosed).1.cached

theorem Idle.enclosed (idle : tree.Idle cx) (holds : tree.enclosing.Holds cx) : tree.Enclosed cx :=
  ⟨holds idle.keys, by simp [idle.pending]⟩

/-- What leaks in a tree leaks in every tree that extends it. -/
theorem Lowered.of_extends {params : List TraitParam} (lowered : tree.Lowered params)
    (more : tree.items.toList <+: tree'.items.toList) : tree'.Lowered params := by
  obtain ⟨id, decl, declared, lowers⟩ := lowered
  refine ⟨id, decl, trait?_of_extends more declared, lowers.imp fun p own lowers => ?_⟩
  refine ⟨lowers.param, fun ty default => ?_⟩
  obtain ⟨e, written, named⟩ := lowers.fallback ty default
  refine ⟨e, written, fun q mem => (named q mem).imp_right fun leak => ?_⟩
  obtain ⟨other, decl', declared', opened⟩ := leak
  exact ⟨other, decl', trait?_of_extends more declared', opened⟩

end ItemTree

namespace Session

variable {s : Session}

/-- A step keeps the context enclosed, in the tree after it. -/
theorem Settled.perform_enclosing (settled : s.Settled) (step : Step) {handed : List Problem}
    {s' : Session} (performed : s.perform step = .ok (handed, s'))
    (holds : s.tree.enclosing.Holds s.context) : s'.tree.enclosing.Holds s'.context := by
  cases step with
  | declare declaration =>
      cases performed
      exact fun idle e mem => (holds idle e mem).of_extends (s.tree.declare_extends declaration)
  | request request =>
      have ends := ItemTree.run_performed settled.numbered (fun _ => s.tree.serves_enclosing) id
        settled.idle [] request
      simp only [Session.perform, Session.run, bind, Except.bind] at performed
      split at performed
      · cases performed
      · rename_i out ran
        cases performed
        exact (ends.of_eq_ok ran).kept holds

theorem performAll_enclosing (steps : List Step) {s s' : Session} {handed : List Problem}
    (settled : s.Settled) (receivers : (s.tree.after steps).HasReceivers)
    (holds : s.tree.enclosing.Holds s.context) (ran : s.performAll steps = .ok (handed, s')) :
    s'.tree.enclosing.Holds s'.context := by
  induction steps generalizing s handed with
  | nil =>
      cases ran
      exact holds
  | cons step rest ih =>
      obtain ⟨first, s₁, later, performed, rested, -⟩ := performAll_cons ran
      obtain ⟨_, _, same, tree, settled₁, -⟩ := settled.perform receivers.of_after step
      cases same.symm.trans performed
      exact ih settled₁ (tree ▸ receivers) (settled.perform_enclosing step performed holds) rested

/-- With receivers, any declarations and requests give a session, and it lowers any type
expression in any scope. The parameters of the lowered type are in the scope, under names that
the expression has; or they are left open by a default of a declared trait, which is only
possible if there is a trait object in the expression. -/
theorem performAll_lowerTy_scoped (config : Config) (steps : List Step)
    (receivers : ((ItemTree.empty config.crate).after steps).HasReceivers) :
    ∃ handed s, (ofConfig config).performAll steps = .ok (handed, s) ∧
      ∀ scope t, ∃ ty cx, s.tree.lowerTy scope t s.context = .ok (ty, cx) ∧
        ∀ q ∈ ty.occurring, q ∈ scope.params ∧ t.Names scope q ∨
          .object ∈ t.sources ∧ s.tree.Leaks q := by
  obtain ⟨handed, s, ran, settled, own⟩ := performAll_settled config steps receivers
  have enclosed := settled.idle.enclosed (performAll_enclosing steps (settled_ofConfig config)
    receivers (fun _ => nofun) ran)
  refine ⟨handed, s, ran, fun scope t => ?_⟩
  obtain ⟨ty, cx, lowered⟩ := exists_ok own
    (ItemTree.lowerTy_ends settled.numbered settled.idle (.refl s.context) scope t)
  refine ⟨ty, cx, lowered, fun q mem => ?_⟩
  have keeps := Lowering.resolveWithin_keepsStack settled.numbered (s.tree.items.size + 1)
  have encloses := Lowering.resolveWithin_encloses settled.numbered (s.tree.items.size + 1)
  have within := (Lowering.lowerTy_scoped keeps encloses scope t enclosed).of_eq_ok lowered
  refine (within.2 q mem).imp_left fun named => ⟨?_, named⟩
  exact List.mem_reverse.1 (List.mem_of_find?_eq_some named.2)

/-- A trait whose second parameter defaults to the first. -/
def pairs : List Step := [.declare (.trait "Pair" [.typeParam "A" [] none,
  .typeParam "B" [] (some (.path (.ofText "A")))])]

/-- `dyn Pair<T>` is `dyn Pair<T, T>`: the default leaves no parameter open. -/
theorem performAll_lowerTy_scoped_pairs :
    let param : Param := ⟨⟨7⟩, "T"⟩
    let pair : TypeExpr := .traitObject [(TypePath.ofText "Pair").withArgs
      [.type (.path (.ofText "T"))] []]
    ((ItemTree.empty "main").after pairs).HasReceivers ∧
      ∃ handed s cx, (ofConfig {}).performAll pairs = .ok (handed, s) ∧
        s.tree.lowerTy ⟨[param]⟩ pair s.context =
          .ok (.dyn [.mk ⟨0⟩ "Pair" [.param param, .param param]], cx) ∧
        pair.Names ⟨[param]⟩ param := by
  intro param pair
  have receivers : ((ItemTree.empty "main").after pairs).HasReceivers := by decide +kernel
  have closed : ¬ ((ItemTree.empty "main").after pairs).Leaks param := by decide +kernel
  have observed : ((ofConfig {}).performAll pairs).toOption.map (fun out =>
      (out.2.tree.lowerTy ⟨[param]⟩ pair out.2.context).toOption.map Prod.fst) =
      some (some (.dyn [.mk ⟨0⟩ "Pair" [.param param, .param param]])) := by
    decide +kernel
  obtain ⟨handed, s, ran, lowers⟩ := performAll_lowerTy_scoped {} pairs receivers
  obtain ⟨ty, cx, lowered, occurs⟩ := lowers ⟨[param]⟩ pair
  obtain ⟨out, same, seen⟩ := ok_of_observed observed
  obtain rfl : (handed, s) = out := Except.ok.inj (ran.symm.trans same)
  rw [lowered] at seen
  obtain rfl : ty = _ := Option.some.inj seen
  refine ⟨receivers, handed, s, cx, ran, lowered, ?_⟩
  rcases occurs param List.mem_cons_self with named | leak
  · exact named.2
  · exact absurd (tree_of_performAll ran ▸ leak.2) closed

/-- `trait Foo<T = Self> {}`. -/
def selfDefault : List Step := [.declare (.trait "Foo" [.typeParam "T" []
  (some (.path (.ofText "Self")))])]

/-- `dyn Foo` is lowered to `dyn Foo<Self>`, with the receiver of `Foo`, in a scope without
parameters. -/
theorem lowerTy_leaks_receiver :
    let self : Param := ⟨⟨0⟩, "Self"⟩
    ∃ handed s cx, (ofConfig {}).performAll selfDefault = .ok (handed, s) ∧
      s.tree.lowerTy {} (.traitObject [.ofText "Foo"]) s.context =
        .ok (.dyn [.mk ⟨0⟩ "Foo" [.param self]], cx) ∧
      cx.problems = [] ∧ self ∉ ({} : Scope).params ∧ s.tree.Leaks self := by
  intro self
  have observed : ((ofConfig {}).performAll selfDefault).toOption.map (fun out =>
      ((out.2.tree.lowerTy {} (.traitObject [.ofText "Foo"]) out.2.context).toOption.map
        fun lowered => (lowered.1, lowered.2.problems))) =
      some (some (.dyn [.mk ⟨0⟩ "Foo" [.param self]], [])) := by
    decide +kernel
  have leaks : ((ItemTree.empty "main").after selfDefault).Leaks self := by decide +kernel
  obtain ⟨⟨handed, s⟩, ran, seen⟩ := ok_of_observed observed
  obtain ⟨⟨ty, cx⟩, lowered, seen⟩ := ok_of_observed seen
  obtain ⟨rfl, quiet⟩ := Prod.mk.inj seen
  exact ⟨handed, s, cx, ran, lowered, quiet, List.not_mem_nil, tree_of_performAll ran ▸ leaks⟩

end Session

end TraitEngine
