import TraitEngine.Proofs.BoundArguments
import TraitEngine.Proofs.Recording
import TraitEngine.Proofs.Resolved.Sessions
/-!
# Checks of implementations are exact

What a check reports of the items of an implementation is read off the declarations
(`ItemTree.implProblems`): the required names that the block leaves out, together, and every item
whose name the trait does not declare; or nothing, if the bound on the trait fails.

The two sides of the comparison are different data. The block has its items as they are written;
the resolved trait has the first one of each name, as resolution left it. But a name finds the same
there as in the declaration (`containsItem_eq`, `isRequired_eq`), so that the comparison is one with
the declaration (`ends_reviewImpl`).

Before it, the header and the bound may have to be lowered and traits to be resolved, with all that
waits for them. None of this reports an item of an implementation (`resolveDef_implQuiet`), so it
is the same whether it happens in this check or has happened before (`performAll_checkImpl`).
-/

namespace TraitEngine

set_option autoImplicit false

open Check

/-! ## What is to be reported -/

namespace TraitDecl

/-- The names of the trait, each once and in order, of which the first declaration has no default
and the block has no item. -/
def lacking (decl : TraitDecl) (block : ImplBlock) : List String :=
  (decl.items.map TraitItem.name).eraseDups.filter fun name =>
    name ∉ block.items.map ImplItem.name && (decl.item? name).any fun item => !item.kind.hasDefault

/-- The names that are lacking, together, and each item of the block whose name the trait does not
declare. -/
def conformance (decl : TraitDecl) (block : ImplBlock) : List Problem :=
  (if (decl.lacking block).isEmpty then []
    else [.missingItems block.span decl.name (decl.lacking block)]) ++
  (block.items.filter fun item => item.name ∉ decl.items.map TraitItem.name).map fun item =>
    .notAMember item.span decl.name item.name

end TraitDecl

/-- What is to be reported of a block: nothing if it implements no trait, or if its bound fails. -/
def ItemTree.implProblems (tree : ItemTree) (limit : Nat) (block : ImplBlock) : List Problem :=
  ((block.trait.bind (tree.boundTrait? limit)).map fun decl => decl.conformance block).getD []

/-! ## The comparison -/

/-- A look-up by name finds nothing if the name is none of the names. -/
theorem isNone_find?_name {α : Type} (name : α → String) (l : List α) (n : String) :
    (l.find? fun a => name a == n).isNone = decide (n ∉ l.map name) := by
  rw [Bool.eq_iff_iff]
  simp [List.find?_eq_none]

/-- The problems are reported one after the other. -/
def Context.reportAll (cx : Context) (ps : List Problem) : Context := ps.foldl Context.report cx

theorem Context.mem_problems_reportAll (cx : Context) (ps : List Problem) (p : Problem) :
    p ∈ (cx.reportAll ps).problems ↔ p ∈ cx.problems ∨ p ∈ ps := by
  induction ps generalizing cx with
  | nil => simp [reportAll]
  | cons q qs ih =>
      show p ∈ ((cx.report q).reportAll qs).problems ↔ _
      rw [ih, cx.mem_problems_report, List.mem_cons, or_assoc]

namespace ItemTree

variable {tree : ItemTree} {problems : List Problem} {t : TraitRef} {decl : TraitDecl}
  {receiver : TypeParam} {others : List TypeParam} {p : Predicate} {cx : Context}
  {block : ImplBlock}

section

variable (mirrors : tree.Mirrors problems t decl receiver others)
  (checked : p.getChecked? cx = some t)

include mirrors checked

/-- A predicate has the items that the trait declares. -/
theorem Mirrors.containsItem_eq (name : String) :
    p.containsItem cx name = decide (name ∈ decl.items.map TraitItem.name) := by
  have found := TraitRef.item?_resolves mirrors.items name
  have declared : (decl.item? name).isNone = decide (name ∉ decl.items.map TraitItem.name) :=
    isNone_find?_name TraitItem.name decl.items name
  simp only [Predicate.containsItem, Predicate.member?, checked, Option.bind_some, Option.isSome_map]
  generalize t.item? name = i? at found ⊢
  generalize decl.item? name = item? at found declared
  cases found <;> simpa using declared

/-- The member of a name is required exactly if its first declaration has no default. -/
theorem Mirrors.isRequired_eq (named : ∀ item ∈ decl.items, item.name ≠ "") (name : String) :
    (p.member? cx name).any Member.isRequired =
      (decl.item? name).any fun item => !item.kind.hasDefault := by
  have found := TraitRef.item?_resolves mirrors.items name
  simp only [Predicate.member?, checked, Option.bind_some]
  generalize t.item? name = i? at found ⊢
  cases declared : decl.item? name with
  | none =>
      rw [declared] at found
      cases found
      rfl
  | some item =>
      have own := named item (List.mem_of_find?_eq_some declared)
      rw [declared] at found
      cases found with
      | some resolves =>
          cases resolves with
          | error nameless => exact absurd nameless own
          | ok =>
              have fine : item.kind.resolved ≠ .error := by
                cases item.kind <;> simp [TraitItemKind.resolved]
              simp [Member.isRequired, ItemRef.isError, fine]

theorem Mirrors.missingItems_eq (named : ∀ item ∈ decl.items, item.name ≠ "") :
    missingItems cx block p t = decl.lacking block := by
  simp only [missingItems, mirrors.isRequired_eq checked named, TraitDecl.lacking,
    ImplBlock.item?, isNone_find?_name, ← TraitItem.firsts_names,
    ← ItemRef.Resolves.names mirrors.items]
  rw [List.filter_map]
  rfl

theorem Mirrors.ends_reportStrangers {faults : Fault → Prop} {post : PUnit → Context → Prop}
    (cx₁ : Context) :
    Ends faults (reportStrangers cx block p t) cx₁ post ↔ post ⟨⟩ (cx₁.reportAll
      ((block.items.filter fun item => item.name ∉ decl.items.map TraitItem.name).map fun item =>
        .notAMember item.span decl.name item.name)) := by
  have name : t.name = decl.name := mirrors.name
  simp only [reportStrangers, ends_bind, ends_pure]
  rw [ends_forIn_foldl (fun cx₁ item =>
    if decide (item.name ∉ decl.items.map TraitItem.name) = true then
      cx₁.report (.notAMember item.span decl.name item.name) else cx₁), Context.reportAll,
    List.foldl_map, List.foldl_filter]
  intro item cx₂
  rw [mirrors.containsItem_eq checked, name]
  by_cases own : item.name ∈ decl.items.map TraitItem.name
  · simp [own]
    rfl
  · simp [own]
    rfl

/-- A block is compared with the trait as it is declared. -/
theorem Mirrors.ends_reviewImpl (named : ∀ item ∈ decl.items, item.name ≠ "")
    {faults : Fault → Prop} {post : Unit → Context → Prop} :
    Ends faults (reviewImpl block p) cx post ↔ post () (cx.reportAll (decl.conformance block)) := by
  have name : t.name = decl.name := mirrors.name
  simp only [reviewImpl, ends_bind, ends_get, checked, reportMissing,
    mirrors.missingItems_eq checked named, TraitDecl.conformance, name]
  by_cases none : (decl.lacking block).isEmpty = true
  · simp only [none, if_true, List.nil_append, ends_pure]
    exact mirrors.ends_reportStrangers checked cx
  · simp only [none, Bool.false_eq_true, if_false, ends_report]
    exact mirrors.ends_reportStrangers checked _

end

end ItemTree

/-! ## What else is reported -/

/-- In between, no item of an implementation is reported. -/
def Context.ImplQuiet (start cx : Context) : Prop :=
  ∀ problem, problem.isOfImpl = true → (problem ∈ cx.problems ↔ problem ∈ start.problems)

/-- Resolving a trait reports no item of an implementation. -/
theorem Resolver.Keeps.builds_implQuiet {resolve : Resolver} {start : Context}
    (keeping : resolve.Keeps start.ImplQuiet) (id : DefId) :
    resolve.Builds start.ImplQuiet (fun _ => True) id where
  toKeeps := keeping
  insertType := fun _ _ quiet => quiet
  addBounds := fun _ _ quiet => quiet
  beginResolving := fun quiet => quiet
  setPending := fun _ _ quiet => quiet
  enterItems {cx} id quiet := by
    obtain ⟨stack, eq⟩ := cx.enterItems_eq id
    rw [eq]
    exact quiet
  insertTrait := fun _ quiet => quiet
  takeDeferred := fun _ quiet => quiet
  markBodiesResolved := fun _ quiet => quiet

namespace ItemTree

theorem resolveDef_implQuiet (tree : ItemTree) (start : Context) :
    tree.resolveDef.Records start.ImplQuiet fun _ => True := by
  have report {cx : Context} {p : Problem} (other : p.isOfImpl = false)
      (quiet : start.ImplQuiet cx) : start.ImplQuiet (cx.report p) := by
    intro problem own
    have differs : problem ≠ p := by
      rintro rfl
      rw [own] at other
      cases other
    rw [cx.mem_problems_report, quiet problem own]
    simp [differs]
  have keeping : tree.resolveDef.Keeps start.ImplQuiet :=
    Lowering.resolveWithin_keeps report (fun _ _ quiet => quiet)
      (fun keeping _ _ _ quiet =>
        Lowering.resolveNew_keeps (keeping.builds_implQuiet _) (fun _ _ => trivial) quiet) _
  exact (keeping.builds_implQuiet ⟨0⟩).toRecords

/-! ## The whole check -/

section

variable {tree : ItemTree} {cx : Context} {handed : List Problem} (numbered : tree.Numbered)
  (receivers : tree.HasReceivers) (items : tree.NamesItems)

include numbered receivers items

/-- Once the header is lowered, what was reported before and what is to be reported is all. -/
theorem lowerBound_reports {cx₁ : Context} (idle : tree.Idle cx₁)
    (mirrored : (tree.mirroring handed).Holds cx₁) (quiet : cx.ImplQuiet cx₁) (block : ImplBlock)
    {path : TypePath} (offers : block.trait = some path) (scope : Scope) (self : Ty) :
    Ends tree.Faults (tree.lowerBound scope false path) cx₁ fun p cx₂ =>
      Ends tree.Faults (reviewImpl block (p.bindReceiver self)) cx₂ fun _ cx₃ =>
        ∀ problem, problem.isOfImpl = true → (problem ∈ cx₃.problems ↔
          problem ∈ cx.problems ∨ problem ∈ tree.implProblems cx₁.limit block) := by
  have silent : Ends AnyFault (tree.lowerBound scope false path) cx₁ fun _ cx₂ =>
      cx.ImplQuiet cx₂ :=
    Lowering.lowerBound_keeps (tree.resolveDef_implQuiet cx).toKeeps scope false path quiet
  refine ((lowerBound_trait numbered idle mirrored receivers scope false path).and silent).mono
    fun p cx₂ ended => ?_
  obtain ⟨⟨-, stands⟩, quiet⟩ := ended
  have same : (p.bindReceiver self).getChecked? cx₂ = p.getChecked? cx₂ := by
    simp [Predicate.getChecked?, Predicate.get?]
  rw [implProblems, offers, Option.bind_some]
  cases known : tree.boundTrait? cx₁.limit path with
  | none =>
      rw [known] at stands
      have checked : p.getChecked? cx₂ = none := by
        generalize p.getChecked? cx₂ = t? at stands ⊢
        cases stands
        rfl
      simp only [reviewImpl, ends_bind, ends_get, same, checked, ends_pure]
      intro problem own
      simpa using quiet problem own
  | some decl =>
      rw [known] at stands
      obtain ⟨t, checked, receiver, others, mirrors⟩ : ∃ t, p.getChecked? cx₂ = some t ∧
          ∃ receiver others, tree.Mirrors (handed ++ cx₂.problems) t decl receiver others := by
        generalize p.getChecked? cx₂ = t? at stands ⊢
        cases stands with
        | some mirrors => exact ⟨_, rfl, mirrors⟩
      obtain ⟨id, declared⟩ := trait?_of_boundTrait? known
      rw [mirrors.ends_reviewImpl (same.trans checked) (items.named declared)]
      intro problem own
      rw [cx₂.mem_problems_reportAll, quiet problem own]
      rfl

/-- Whether the header and the trait are at hand or not, the check reports the same. -/
theorem checkImpl_reports (idle : tree.Idle cx) (mirrored : (tree.mirroring handed).Holds cx)
    (block : ImplBlock) :
    Ends tree.Faults (tree.checkImpl block) cx fun _ cx' =>
      ∀ problem, problem.isOfImpl = true → (problem ∈ cx'.problems ↔
        problem ∈ cx.problems ∨ problem ∈ tree.implProblems cx.limit block) := by
  rw [checkImpl]
  cases offers : block.trait with
  | none =>
      rw [implProblems, offers]
      intro problem _
      simp
  | some path =>
      have serves := Lowering.resolveWithin_lasting tree.lasting_mirrored handed
        (tree.items.size + 1)
      have bound {cx₁ : Context} (tour : tree.Tour (tree.mirroring handed) cx cx₁)
          (quiet : cx.ImplQuiet cx₁) (self : Ty) :
          Ends tree.Faults (tree.lowerBound (implScope cx₁ block) false path) cx₁ fun p cx₂ =>
            Ends tree.Faults (reviewImpl block (p.bindReceiver self)) cx₂ fun _ cx₃ =>
              ∀ problem, problem.isOfImpl = true → (problem ∈ cx₃.problems ↔
                problem ∈ cx.problems ∨ problem ∈ tree.implProblems cx.limit block) := by
        rw [← tour.trip.limit]
        exact lowerBound_reports numbered receivers items (idle.trip tour.trip)
          (tour.kept mirrored) quiet block offers _ self
      simp only [ends_bind, ends_get]
      -- The self type may be recorded already; if it is not, lowering the header reports no
      -- items.
      cases cx.types.get? block.selfNode with
      | some self =>
          simp only [ends_bind, ends_get, ends_pure]
          exact bound (.refl cx) (fun _ _ => Iff.rfl) self
      | none =>
          have header : Ends tree.Faults (tree.lowerImplHeader block) cx fun _ cx₁ =>
              tree.Tour (tree.mirroring handed) cx cx₁ :=
            Passage.lowerImplHeader_goes (idle.free numbered serves) fun n _ => serves.records n
          have silent : Ends AnyFault (tree.lowerImplHeader block) cx fun _ cx₁ =>
              cx.ImplQuiet cx₁ :=
            lowerImplHeader_records (tree.resolveDef_implQuiet cx) (fun _ _ => Iff.rfl)
              fun _ _ => trivial
          simp only [ends_bind, ends_get]
          refine (header.and silent).mono fun self cx₁ lowered => ?_
          exact bound lowered.1 lowered.2 self

end

end ItemTree

namespace Session

/-- Checking an implementation between any declarations and requests reports of its items what the
declarations give, and nothing else: the required names that are lacking and the items that the
trait does not declare, or nothing if the bound on the trait fails. -/
theorem performAll_checkImpl (config : Config) (steps : List Step)
    (receivers : ((ItemTree.empty config.crate).after steps).HasReceivers)
    (items : ((ItemTree.empty config.crate).after steps).NamesItems) :
    ∃ handed s, (ofConfig config).performAll steps = .ok (handed, s) ∧
      (∀ scope path, ∃ p cx, s.tree.lowerBound scope false path s.context = .ok (p, cx) ∧
        p.failed = (s.tree.boundTrait? config.limit path).isNone) ∧
      ∀ block, ∃ cx, s.tree.checkImpl block s.context = .ok ((), cx) ∧
        ∀ problem, problem.isOfImpl = true →
          (problem ∈ cx.problems ↔ problem ∈ s.context.problems ∨
            problem ∈ s.tree.implProblems config.limit block) := by
  obtain ⟨handed, s, performed, tree, -, advances⟩ :=
    (settled_ofConfig config).performAll Context.Advances (fun _ => .refl) .trans
      (fun coherent run => run.advances coherent) steps receivers
  have limit : s.context.limit = config.limit := advances.limit
  have receivers : s.tree.HasReceivers := tree ▸ receivers
  have items : s.tree.NamesItems := tree ▸ items
  have ended := performAll_mirroring steps (mirroring_ofConfig config) performed
  have numbered := ended.settled.numbered
  have idle := ended.settled.idle
  rw [← limit]
  refine ⟨handed, s, performed, fun scope path => ?_, fun block => ?_⟩
  · have lowers := ItemTree.lowerBound_fails numbered idle ended.mirrored receivers scope false path
    obtain ⟨p, cx, ran, -, -, failed⟩ :=
      (lowers.mono_faults fun _ fault => receivers.no_fault fault).exists_ok
    exact ⟨p, cx, ran, failed⟩
  · have checks := ItemTree.checkImpl_reports numbered receivers items idle ended.mirrored block
    obtain ⟨⟨⟩, cx, ran, exact_⟩ :=
      (checks.mono_faults fun _ fault => receivers.no_fault fault).exists_ok
    exact ⟨cx, ran, exact_⟩

/-- A trait that declares two of its methods twice, one with the default first and one without it
first, and two implementations: one lacks every item and brings along another, and the bound of the
other one lacks its argument. -/
def providers : List Step := [
  .declare (.trait "Shape" [.typeParam "T" [] none, .assocType "Unit" [] none,
    .method "area" [.self .ref], .method "name" [.self .ref, .body ⟨[]⟩],
    .method "area" [.self .ref, .body ⟨[]⟩], .method "name" [.self .ref]]),
  .declare (.impl (.ofText "bool")
    [.forTrait ((TypePath.ofText "Shape").withArgs [.type (.ofText "u8")] []), .method "extra"]),
  .declare (.impl (.ofText "char") [.forTrait (.ofText "Shape"), .method "extra"])]

theorem performAll_checkImpl_providers :
    ((ItemTree.empty "main").after providers).HasReceivers ∧
      ((ItemTree.empty "main").after providers).NamesItems ∧
      ∃ handed s first second, (ofConfig {}).performAll providers = .ok (handed, s) ∧
        s.tree.impls.toList = [first, second] ∧
        (∃ cx, s.tree.checkImpl first s.context = .ok ((), cx) ∧
          .missingItems first.span "Shape" ["Unit", "area"] ∈ cx.problems ∧
          .notAMember default "Shape" "extra" ∈ cx.problems) ∧
        ∃ cx, s.tree.checkImpl second s.context = .ok ((), cx) ∧
          ∀ problem ∈ cx.problems, problem.isOfImpl = false := by
  have receivers : ((ItemTree.empty "main").after providers).HasReceivers := by decide +kernel
  have items : ((ItemTree.empty "main").after providers).NamesItems := by decide +kernel
  obtain ⟨handed, s, performed, -, checks⟩ := performAll_checkImpl {} providers receivers items
  have seen : ((ofConfig {}).performAll providers).toOption.map (fun out =>
      (out.2.tree.impls.toList.map fun block =>
        (block.span, out.2.tree.implProblems ({} : Config).limit block), out.2.context.problems)) =
      some ([(default, [.missingItems default "Shape" ["Unit", "area"],
        .notAMember default "Shape" "extra"]), (default, [])], []) := by decide +kernel
  rw [performed] at seen
  simp only [Except.toOption, Option.map_some, Option.some.injEq, Prod.mk.injEq,
    List.map_eq_cons_iff, List.map_eq_nil_iff] at seen
  obtain ⟨⟨first, _, blocks, ⟨span, whole⟩, second, _, rfl, ⟨-, nothing⟩, rfl⟩, silent⟩ := seen
  refine ⟨receivers, items, handed, s, first, second, performed, blocks, ?_, ?_⟩
  · obtain ⟨cx, ran, exact_⟩ := checks first
    rw [whole, silent] at exact_
    refine ⟨cx, ran, ?_, ?_⟩
    · rw [span]
      exact (exact_ _ rfl).2 (by simp)
    · exact (exact_ _ rfl).2 (by simp)
  · obtain ⟨cx, ran, exact_⟩ := checks second
    rw [nothing, silent] at exact_
    refine ⟨cx, ran, fun problem mem => ?_⟩
    by_contra own
    simpa using (exact_ problem (by simpa using own)).1 mem

end Session

end TraitEngine
