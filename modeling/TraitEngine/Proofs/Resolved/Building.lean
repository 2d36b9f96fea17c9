import TraitEngine.Proofs.Asks.Basic
import TraitEngine.Proofs.Declarations
import TraitEngine.Proofs.Resolution
import TraitEngine.Proofs.Resolved.Shape
import TraitEngine.Proofs.WrittenArgs
/-!
# Resolved traits mirror their declarations

`ItemTree.Mirrors` relates a resolved trait to its declaration, part by part: the parameters, the
items and, in between, the super-traits. Each super-trait bound is lowered once, in the tree as it
is then. A bound that fails has its cause among the problems and is left out; any other gives a
predicate that waits for its receiver only (`Predicate.Awaits`), and the receiver of the trait is
put in.

A trait that is built mirrors its declaration (`buildTrait_mirrors`), whatever the requests on
the way do to the context. So the mirrors of all cached traits are a matter of upkeep
(`ItemTree.Lasting`), and neither later problems nor later declarations break them.
-/

namespace TraitEngine

set_option autoImplicit false

open Check Journal

/-! ## Bounds that wait for a receiver -/

namespace Predicate

/-- The receiver is open, and every other slot is bound. -/
def Awaits (p : Predicate) : Prop :=
  ∃ self rest span, p.args = .of (⟨self, none⟩ :: rest) span ∧ ∀ slot ∈ rest, slot.ty.isSome

theorem Awaits.bindReceiver {p : Predicate} (h : p.Awaits) (fine : p.failed = false)
    (receiver : Ty) :
    (p.bindReceiver receiver).receiver? = some receiver ∧ (p.bindReceiver receiver).Applied := by
  obtain ⟨self, rest, span, args, bound⟩ := h
  have slots := bindReceiver_slots fine args receiver
  constructor
  · rw [receiver?, ArgList.get?, slots]
    rfl
  · intro slot mem
    rw [ArgList.written, slots, List.drop_succ_cons, List.drop_zero] at mem
    obtain ⟨old, there, rfl⟩ := List.mem_map.1 mem
    rw [boundSlot, Option.isSome_map]
    exact bound old there

/-- A predicate that has not failed has parameters. -/
theorem Origin.exists_params {o : Origin} (fine : o.predicate.failed = false) :
    ∃ self others, o.predicate.params = self :: others := by
  cases own : o.predicate.params with
  | cons self others => exact ⟨self, others, rfl⟩
  | nil =>
      have ofParams {id : DefId} {params : List TraitParam} {span : Span}
          (own : (Predicate.ofParams id params span).params = []) :
          (Predicate.ofParams id params span).failed = true := by
        cases params with
        | nil => rfl
        | cons q qs => cases own
      have failed : o.predicate.failed = true := by
        cases o with
        | ofParams id params span => exact ofParams own
        | error => rfl
        | ofTrait t span =>
            simp only [Origin.predicate, Predicate.ofTrait] at own ⊢
            split at own
            · exact ofParams own
            · rfl
      rw [fine] at failed
      cases failed

end Predicate

namespace Lowering

open Predicate

variable {tree : ItemTree} {resolve : Resolver} {cx : Context}

theorem boundHead?_origin (id : DefId) (span : Span) (isSuper : Bool) :
    Ends AnyFault (boundHead? tree resolve id span isSuper) cx fun p? _ =>
      ∀ p, p? = some p → ∃ o : Origin, p = o.predicate := by
  have none : ∀ p : Predicate, Option.none = some p → ∃ o : Origin, p = o.predicate := by
    intro p same
    cases same
  have origin (o : Origin) : ∀ p, some o.predicate = some p → ∃ o : Origin, p = o.predicate := by
    intro p same
    exact ⟨o, (Option.some.inj same).symm⟩
  simp only [boundHead?, ends_bind, ends_get]
  split
  · split
    · simp only [ends_bind, ends_report, ends_pure]
      exact none
    · split
      · exact origin (.ofParams id _ span)
      · exact origin (.ofParams id _ span)
      · exact none
  · rw [ends_bind]
    refine (ends_any _).mono fun t _ _ => ?_
    rw [ends_pure]
    split
    · exact none
    · exact origin (.ofTrait t span)

/-- What remains unapplied has no parameter but the receiver. -/
theorem finishBound_awaits (id : DefId) (o : Origin) (applied : AppliedArgs) :
    Ends AnyFault (finishBound tree id o.predicate applied) cx fun p _ =>
      p.failed = false → p.Awaits := by
  have review {p : Predicate} (mismatch : Option ArgMismatch) (known : p.failed = false → p.Awaits) :
      Ends AnyFault (do reviewBound tree id p applied.span mismatch; return p) cx fun p _ =>
        p.failed = false → p.Awaits := by
    simp only [ends_bind, ends_pure]
    exact (ends_any _).mono fun _ _ _ => known
  rw [finishBound]
  split
  · cases applies : o.predicate.apply applied with
    | error fault => exact trivial
    | ok out =>
        obtain ⟨q, mismatch⟩ := out
        refine review mismatch fun fine => ?_
        obtain ⟨args, -, rfl, rfl⟩ | ⟨-, rfl⟩ := apply_cases applies
        · obtain ⟨self, others, own⟩ := o.exists_params fine
          obtain ⟨types, new, -, -, -, filled, -, args⟩ := apply_accepted own applies
          obtain ⟨slots, eq, -, bound⟩ := fillSlots_append others [self.unbound] types
          obtain rfl : new = slots := (List.cons.inj (filled.symm.trans eq)).2
          exact ⟨self.param, new, some applied.span, args, bound⟩
        · cases fine
  · rename_i bare
    refine review none fun fine => ?_
    obtain ⟨self, others, own⟩ := o.exists_params fine
    obtain ⟨-, span, args⟩ := Origin.fresh own
    have few : o.predicate.params.length ≤ 1 := by
      simp only [Bool.or_eq_true, decide_eq_true_eq, not_or, Nat.not_lt] at bare
      exact bare.1
    have alone : others = [] := by
      rw [own, List.length_cons] at few
      exact List.length_eq_zero_iff.1 (by omega)
    subst alone
    exact ⟨self.param, [], span, args, by simp⟩

theorem lowerBound_awaits (scope : Scope) (isSuper : Bool) (path : TypePath) :
    Ends AnyFault (lowerBound tree resolve scope isSuper path) cx fun p _ =>
      p.failed = false → p.Awaits := by
  have error : Predicate.error.failed = false → Predicate.error.Awaits := by
    intro fine
    cases fine
  obtain ⟨segments, span⟩ := path
  simp only [lowerBound]
  split
  · simp only [ends_bind, ends_report, ends_pure]
    exact error
  · rename_i id _
    rw [ends_bind]
    refine (boundHead?_origin id span isSuper).mono fun p? _ origin => ?_
    cases p? with
    | none => exact error
    | some p =>
        obtain ⟨o, rfl⟩ := origin p rfl
        rw [ends_bind]
        exact (ends_any _).mono fun applied _ _ => finishBound_awaits id o applied

end Lowering

/-! ## Mirrors -/

namespace ItemTree

/-- `p` is what the super-trait bound `path` of `decl` was lowered to, with nothing reported but
`problems`. It stands for the trait that the path names, or the cause of its failure is reported. -/
structure LowersSuper (tree : ItemTree) (problems : List Problem) (decl : TraitDecl)
    (path : TypePath) (p : Predicate) : Prop where
  ran : ∃ depth cx cx', Lowering.lowerBound tree (Lowering.resolveWithin tree depth) decl.scope
    true path cx = .ok (p, cx') ∧ cx'.problems ⊆ problems
  named : p.failed = false → ∃ id, tree.resolveTraitPath path = .ok id ∧ p.trait = some id ∧
    p.span = path.span
  refused : p.failed = true →
    (∃ problem ∈ problems, tree.resolveTraitPath path = .error problem) ∨
      ∃ id, tree.resolveTraitPath path = .ok id ∧ tree.Refused problems path id

/-- The bound was lowered in this tree or before the latest declarations. -/
def LoweredSuper (tree : ItemTree) (problems : List Problem) (decl : TraitDecl) (path : TypePath)
    (p : Predicate) : Prop :=
  ∃ earlier : ItemTree, earlier.items.toList <+: tree.items.toList ∧
    earlier.LowersSuper problems decl path p

/-- The resolved trait `t` is made of the parts of `decl`: the receiver in front of the other type
parameters, the first item of each name, and the super-trait bounds that did not fail. -/
structure Mirrors (tree : ItemTree) (problems : List Problem) (t : TraitRef) (decl : TraitDecl)
    (receiver : TypeParam) (others : List TypeParam) : Prop where
  own : t.id = some decl.id
  name : t.name = decl.name
  span : t.span = decl.span
  splits : decl.Splits receiver others
  params : List.Forall₂ TraitParam.Resolves (receiver :: others) t.params
  items : List.Forall₂ (ItemRef.Resolves t.params (.param receiver.toParam))
    (TraitItem.firsts decl.items) t.items
  supers : ∃ lowered, List.Forall₂ (tree.LoweredSuper problems decl) decl.superPaths lowered ∧
    t.supers = (lowered.filter fun p => !p.failed).map (·.bindReceiver (.param receiver.toParam))

/-- The trait `id` is declared, and `t` mirrors its declaration. -/
def Mirrored (tree : ItemTree) (problems : List Problem) (id : DefId) (t : TraitRef) : Prop :=
  ∃ decl receiver others, tree.trait? id = some decl ∧
    decl.splitReceiver? = some (receiver, others) ∧
    tree.Mirrors problems t decl receiver others

variable {tree tree' : ItemTree} {problems more : List Problem} {decl : TraitDecl}
  {t : TraitRef} {id : DefId}

theorem LowersSuper.mono {path : TypePath} {p : Predicate}
    (h : tree.LowersSuper problems decl path p) (sub : problems ⊆ more) :
    tree.LowersSuper more decl path p where
  ran := by
    obtain ⟨depth, cx, cx', ran, reported⟩ := h.ran
    exact ⟨depth, cx, cx', ran, List.Subset.trans reported sub⟩
  named := h.named
  refused := by
    intro failed
    refine (h.refused failed).imp ?_ ?_
    · rintro ⟨problem, mem, unknown⟩
      exact ⟨problem, sub mem, unknown⟩
    · rintro ⟨id, named, refused⟩
      exact ⟨id, named, refused.mono sub⟩

theorem LoweredSuper.mono {path : TypePath} {p : Predicate}
    (h : tree.LoweredSuper problems decl path p) (sub : problems ⊆ more)
    (extends_ : tree.items.toList <+: tree'.items.toList) :
    tree'.LoweredSuper more decl path p := by
  obtain ⟨earlier, before, lowers⟩ := h
  exact ⟨earlier, before.trans extends_, lowers.mono sub⟩

/-- A bound that did not fail waits for its receiver. -/
theorem LoweredSuper.awaits {path : TypePath} {p : Predicate}
    (h : tree.LoweredSuper problems decl path p) (fine : p.failed = false) : p.Awaits := by
  obtain ⟨earlier, -, lowers⟩ := h
  obtain ⟨depth, cx, cx', ran, -⟩ := lowers.ran
  exact (Lowering.lowerBound_awaits decl.scope true path).of_eq_ok ran fine

variable {receiver : TypeParam} {others : List TypeParam}

theorem Mirrors.mono (h : tree.Mirrors problems t decl receiver others) (sub : problems ⊆ more)
    (extends_ : tree.items.toList <+: tree'.items.toList) :
    tree'.Mirrors more t decl receiver others where
  own := h.own
  name := h.name
  span := h.span
  splits := h.splits
  params := h.params
  items := h.items
  supers := by
    obtain ⟨lowered, each, kept⟩ := h.supers
    exact ⟨lowered, each.imp fun _ _ lowers => lowers.mono sub extends_, kept⟩

theorem Mirrored.mono (h : tree.Mirrored problems id t) (sub : problems ⊆ more)
    (extends_ : tree.items.toList <+: tree'.items.toList) : tree'.Mirrored more id t := by
  obtain ⟨decl, receiver, others, declared, split, mirrors⟩ := h
  exact ⟨decl, receiver, others, trait?_of_extends extends_ declared, split,
    mirrors.mono sub extends_⟩

/-- Every super-trait of a mirror has the receiver of the trait, and its arguments are bound. -/
theorem Mirrors.super (h : tree.Mirrors problems t decl receiver others) {p : Predicate}
    (mem : p ∈ t.supers) :
    p.failed = false ∧ p.receiver? = some (.param receiver.toParam) ∧ p.Applied := by
  obtain ⟨lowered, each, kept⟩ := h.supers
  rw [kept] at mem
  obtain ⟨q, there, rfl⟩ := List.mem_map.1 mem
  obtain ⟨from_, unfailed⟩ := List.mem_filter.1 there
  have fine : q.failed = false := by simpa using unfailed
  obtain ⟨i, small, rfl⟩ := List.mem_iff_getElem.1 from_
  have lowers := each.get (by rw [each.length_eq]; exact small) small
  exact ⟨by simpa using fine, (lowers.awaits fine).bindReceiver fine _⟩

end ItemTree

/-! ## Building -/

namespace Lowering

open ItemTree

variable {tree : ItemTree} {cx : Context} {depth : Nat} {decl : TraitDecl}

/-- A super-trait bound is lowered to a predicate of the trait that it names, or fails with a
report. -/
theorem lowerBound_lowersSuper (ready : tree.Ready depth cx) (path : TypePath)
    (asked : tree.AdmitsAll cx path.mentions) (super : tree.AtSuperBound cx path) :
    Ends tree.Faults (lowerBound tree (resolveWithin tree depth) decl.scope true path) cx
      fun p cx' => tree.Trip cx cx' ∧ tree.LowersSuper cx'.problems decl path p := by
  refine ((lowerBound_ends decl.scope (resolveWithin_resolves depth) ready true path asked
    (fun _ => super) (.refl cx)).and (ends_self _ cx)).mono fun p cx' ended => ?_
  obtain ⟨⟨trip, lowered⟩, ran⟩ := ended
  refine ⟨trip, ⟨depth, cx, cx', ran, List.Subset.refl _⟩, fun fine => ?_, fun failed => ?_⟩
  · obtain ⟨id, named, own, span, -⟩ := lowered.lowered fine
    exact ⟨id, named, own, span⟩
  · cases named : tree.resolveTraitPath path with
    | ok id => exact Or.inr ⟨id, rfl, lowered.refused failed id named⟩
    | error problem =>
        obtain ⟨segments, span⟩ := path
        have reported : Ends AnyFault (lowerBound tree (resolveWithin tree depth) decl.scope true
            (.mk segments span)) cx fun _ cx' => problem ∈ cx'.problems := by
          simp only [lowerBound, named, ends_bind, ends_report, ends_pure]
          exact (cx.mem_problems_report problem).2 (Or.inr rfl)
        exact Or.inl ⟨problem, reported.of_eq_ok ran, rfl⟩

/-- The super-trait bounds are lowered one by one, and those that did not fail are kept. -/
theorem lowerBounds_lowersSuper (self : Ty) : ∀ (paths : List TypePath) {cx : Context},
    tree.Ready depth cx → tree.AdmitsAll cx (paths.flatMap TypePath.mentions) →
    (∀ path ∈ paths, tree.AtSuperBound cx path) →
    Ends tree.Faults (lowerBounds tree (resolveWithin tree depth) decl.scope true self paths) cx
      fun supers cx' => tree.Trip cx cx' ∧ ∃ lowered,
        List.Forall₂ (tree.LowersSuper cx'.problems decl) paths lowered ∧
          supers = (lowered.filter fun p => !p.failed).map (·.bindReceiver self)
  | [], cx, _, _, _ => ⟨.refl cx, [], .nil, rfl⟩
  | path :: rest, cx, ready, asked, super => by
      rw [List.flatMap_cons] at asked
      obtain ⟨here, later⟩ := List.forall_mem_cons.1 super
      rw [lowerBounds, ends_bind]
      refine (lowerBound_lowersSuper ready path asked.left here).mono fun p cx₁ head => ?_
      obtain ⟨trip, lowers⟩ := head
      rw [ends_bind]
      refine (lowerBounds_lowersSuper self rest (trip.ready ready) (trip.admitsAll asked.right)
        fun path mem => (later path mem).trip trip).mono fun supers cx₂ tail => ?_
      obtain ⟨trip₂, lowered, each, rfl⟩ := tail
      rw [ends_pure]
      refine ⟨trip.trans trip₂, p :: lowered,
        .cons (lowers.mono trip₂.moves.problems) each, ?_⟩
      cases failed : p.failed with
      | true => rw [if_pos rfl, List.filter_cons_of_neg (by simp [failed])]
      | false =>
          rw [if_neg Bool.false_ne_true, List.filter_cons_of_pos (by simp [failed]), List.map_cons]

section

variable (ready : tree.Ready depth cx) (declared : tree.trait? decl.id = some decl)
  {receiver : TypeParam} {others : List TypeParam}
  (split : decl.splitReceiver? = some (receiver, others))

include ready declared split

theorem buildSupers_lowersSuper (top : cx.stack.entries.getLast? = some (decl.id, .supers)) :
    Ends tree.Faults (buildSupers tree (resolveWithin tree depth) decl.scope decl receiver
        (receiver :: others)) cx fun out cx' =>
      tree.Trip cx cx' ∧ out.1 ≠ [] ∧ ∃ lowered,
        List.Forall₂ (tree.LowersSuper cx'.problems decl) decl.superPaths lowered ∧
          out.2 = (lowered.filter fun p => !p.failed).map
            (·.bindReceiver (.param receiver.toParam)) := by
  have serves : tree.Serves .none depth (resolveWithin tree depth) :=
    (resolveWithin_resolves depth).serves
  refine ends_buildSupers serves ready declared split top decl.scope
    fun params cx₁ tour some asked super => ?_
  refine (lowerBounds_lowersSuper _ decl.superPaths (tour.trip.ready ready) asked super).mono
    fun supers cx₂ lowered => ?_
  exact ⟨(tour.trip.trans lowered.1).addBounds _ _, some, lowered.2⟩

/-- A trait that is built mirrors its declaration. -/
theorem buildTrait_mirrors {base : List (DefId × ResolveStage)}
    (top : cx.stack.entries = base ++ [(decl.id, .supers)]) :
    Ends tree.Faults (buildTrait tree (resolveWithin tree depth) decl) cx fun t cx' =>
      tree.Mirrors cx'.problems t decl receiver others := by
  have notBelow := ready.coherent.notBelow top
  have serves : tree.Serves .none depth (resolveWithin tree depth) :=
    (resolveWithin_resolves depth).serves
  have scope : (⟨(receiver :: others).map TypeParam.toParam⟩ : Scope) = decl.scope := by
    simp [TraitDecl.scope, TraitDecl.orderedParams, split]
  simp only [buildTrait, split, ends_bind, scope]
  refine ((buildSupers_lowersSuper ready declared split (by simp [top])).and
    (buildSupers_resolves decl.scope decl receiver _)).mono fun out cx₁ first => ?_
  obtain ⟨⟨early, some, lowered, each, kept⟩, params⟩ := first
  have stack := Context.enterItems_entries (early.stack ▸ top) notBelow
  obtain ⟨_, same⟩ := cx₁.enterItems_eq decl.id
  simp only [ends_modify]
  refine ((buildItems_tours serves (ready_enterItems (early.ready ready) decl.id) declared split
    (by simp [stack]) decl.scope out.1).and (buildItems_resolves decl.scope decl receiver some)).mono
    fun items cx₂ second => ?_
  obtain ⟨late, items⟩ := second
  have reported : cx₁.problems ⊆ cx₂.problems := by
    have more := late.trip.moves.problems
    rwa [same] at more
  rw [ends_pure]
  exact {
    own := rfl
    name := rfl
    span := rfl
    splits := TraitDecl.splits_of_split split
    params
    items
    supers := ⟨lowered, each.imp fun _ _ lowers =>
      ⟨tree, List.prefix_rfl, lowers.mono reported⟩, kept⟩ }

end

end Lowering

/-! ## Every resolution -/

namespace ItemTree

/-- What is known of a trait once it is built, and stays known whatever else is reported. -/
structure Lasting (tree : ItemTree) (good : List Problem → DefId → TraitRef → Prop) : Prop where
  mono {problems more : List Problem} {id : DefId} {t : TraitRef} :
    good problems id t → problems ⊆ more → good more id t
  built {depth : Nat} {cx : Context} {decl : TraitDecl} {receiver : TypeParam}
    {others : List TypeParam} {base : List (DefId × ResolveStage)} : tree.Ready depth cx →
    tree.trait? decl.id = some decl → decl.splitReceiver? = some (receiver, others) →
    cx.stack.entries = base ++ [(decl.id, .supers)] →
    Ends tree.Faults (Lowering.buildTrait tree (Lowering.resolveWithin tree depth) decl) cx
      fun t cx' => good cx'.problems decl.id t

variable {tree : ItemTree} {good : List Problem → DefId → TraitRef → Prop}
  {handed : List Problem}

theorem Lasting.report (lasting : tree.Lasting good) {cx : Context} (p : Problem)
    (known : ∀ e ∈ cx.cache.entries, good (handed ++ cx.problems) e.1 e.2) :
    ∀ e ∈ (cx.report p).cache.entries, good (handed ++ (cx.report p).problems) e.1 e.2 := by
  intro e mem
  rw [cx.report_cache] at mem
  refine lasting.mono (known e mem) (Problem.append_subset_append handed fun q old => ?_)
  exact (cx.mem_problems_report p).2 (Or.inl old)

/-- It is known of every cached trait, up to the problems that were handed out. -/
def Lasting.upkeep (lasting : tree.Lasting good) (handed : List Problem) : Upkeep where
  Holds cx := ∀ e ∈ cx.cache.entries, good (handed ++ cx.problems) e.1 e.2
  report _ := lasting.report _
  insertType _ _ := id
  addBounds _ _ := id
  setPending _ _ := id
  deferObjectSafety _ _ := id
  enterItems {cx} id known := by
    obtain ⟨stack, eq⟩ := cx.enterItems_eq id
    rw [eq]
    exact known

end ItemTree

namespace Lowering

open ItemTree

variable {tree : ItemTree} {good : List Problem → DefId → TraitRef → Prop}
  {handed : List Problem} {cx : Context} {depth : Nat} {decl : TraitDecl}

section

variable (lasting : tree.Lasting good)
  (serves : tree.Serves (lasting.upkeep handed) depth (resolveWithin tree depth))

include serves

/-- The checks that waited for a trait cache others, but leave what is cached. -/
theorem finishTrait_lasting (ready : tree.Ready depth cx)
    (asked : tree.AdmitsAll cx decl.bodyMentions)
    (waited : cx.states.get? decl.id = some .cached) {t : TraitRef}
    (found : cx.trait? decl.id = some t) (known : (lasting.upkeep handed).Holds cx) :
    Ends tree.Faults (finishTrait tree (resolveWithin tree depth) decl t) cx fun _ cx' =>
      (lasting.upkeep handed).Holds cx' := by
  have check : tree.Move cx (cx.checkDeferred decl.id t) := .checkDeferred waited found
  have ready₁ := ready.checkDeferred check
  have known₁ : (lasting.upkeep handed).Holds (cx.checkDeferred decl.id t) :=
    (lasting.upkeep handed).reporting.checkAll t _ _ known
  obtain ⟨problems, eq, -⟩ := cx.checkDeferred_eq decl.id t
  rw [ends_finishTrait]
  rw [eq] at ready₁ known₁ ⊢
  refine (checkBodies_tours serves ready₁ lasting.report _ decl asked (.refl _)).mono
    fun _ cx₂ tour => ?_
  exact tour.kept known₁

theorem resolveNew_lasting {id : DefId} (ready : tree.Ready (depth + 1) cx)
    (declared : tree.trait? id = some decl) (notOpen : id ∉ cx.stack.keys)
    (notCached : id ∉ cx.cache.keys) (room : cx.depth < cx.limit) (asked : tree.Admits cx id)
    (known : (lasting.upkeep handed).Holds cx) :
    Ends tree.Faults (resolveNew tree (resolveWithin tree depth) id decl) cx fun _ cx' =>
      (lasting.upkeep handed).Holds cx' := by
  obtain rfl := ready.numbered id decl declared
  simp only [resolveNew, ends_bind, ends_modify]
  cases split : decl.splitReceiver? with
  | none =>
      simp only [buildTrait, split, ends_throw]
      exact ⟨decl.id, decl, declared, split, rfl⟩
  | some parts =>
      obtain ⟨receiver, others⟩ := parts
      obtain ⟨-, ready₁⟩ :=
        ready.beginResolving declared (by simp [split]) notOpen notCached room asked
      have top : (cx.beginResolving decl.id).stack.entries =
          cx.stack.entries ++ [(decl.id, .supers)] := Table.entries_insert_of_new notOpen
      refine ((buildTrait_tours serves ready₁ declared split top).and
        (lasting.built ready₁ declared split top)).mono fun t cx₂ ended => ?_
      obtain ⟨⟨built, kept⟩, fresh⟩ := ended
      have known₂ : (lasting.upkeep handed).Holds (cx₂.insertTrait decl.id t) := by
        intro e mem
        rcases Table.mem_entries_insert mem with rfl | old
        · exact lasting.mono fresh (List.subset_append_right handed _)
        · exact kept known e old
      have asked₂ : tree.Admits (cx₂.insertTrait decl.id t) decl.id := by
        rw [Admits, built.stack_insertTrait notOpen]
        exact asked
      simp only [ends_get, ends_pure]
      exact finishTrait_lasting lasting serves (built.ready_insertTrait ready₁ notOpen)
        (admitsAll_bodyMentions declared asked₂) (get?_record_self cx₂.states decl.id .cached)
        (built.trait?_insertTrait ready₁.coherent) known₂

end

theorem resolveWithin_lasting (lasting : tree.Lasting good) (handed : List Problem) (depth : Nat) :
    tree.Serves (lasting.upkeep handed) depth (resolveWithin tree depth) := by
  induction depth with
  | zero => exact fun _ _ _ ready => absurd ready.few (Nat.not_lt_zero _)
  | succ depth ih =>
      intro id span cx ready asked
      refine ((resolveWithin_resolves (depth + 1) id span cx ready asked).and_if
        fun known : (lasting.upkeep handed).Holds cx => ?_).mono fun t cx' ended =>
          ⟨⟨ended.1.1, ended.2⟩, ended.1.2⟩
      refine Ends.mono_faults ?_ fun f (_ : tree.Faults f) => trivial
      exact ends_resolveWithin span (fun _ _ => known) (fun _ => known) (fun _ => known)
        (fun _ => lasting.report _ known) fun _ declared notOpen notCached room =>
          resolveNew_lasting lasting ih ready declared notOpen notCached room asked known

end Lowering

namespace ItemTree

theorem lasting_mirrored (tree : ItemTree) : tree.Lasting tree.Mirrored where
  mono mirrored sub := mirrored.mono sub List.prefix_rfl
  built {_ _ decl receiver others _} ready declared split top :=
    (Lowering.buildTrait_mirrors ready declared split top).mono fun _ _ mirrors =>
      ⟨decl, receiver, others, declared, split, mirrors⟩

/-- Every cached trait mirrors its declaration, up to the problems that were handed out. -/
def mirroring (tree : ItemTree) (handed : List Problem) : Upkeep :=
  tree.lasting_mirrored.upkeep handed

end ItemTree

end TraitEngine
