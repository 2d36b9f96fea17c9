import TraitEngine.Proofs.SuperGraph
/-!
# The account of unknown items in default bodies

A default body may use an item of a trait by name, and an item that the trait does not
declare is reported. The default bodies of a trait are checked when it is cached, and the
trait of a use may be on the stack then: it asked for the trait of the body, maybe through
others. Such a use is passed over, and nobody comes back to it.

`Accounting` is what the problems of a context account for: each report belongs to a use whose
trait was cached, and once the default bodies of a trait are done, each use of an unknown
item in them has its report, or its trait was on the stack at that time, or some bound was
refused. `Reviewed` is the invariant of a run, which every operation of a context keeps.
-/

namespace TraitEngine

set_option autoImplicit false

open Check Journal

namespace Problem

/-- The problem tells why a bound gave no predicate. -/
def isRefusal : Problem → Bool
  | .superTraitCycle .. | .recursionLimit .. | .argMismatch .. => true
  | _ => false

end Problem

/-! ## Before the default bodies are done -/

namespace Journal

/-- The trait `b` was being resolved when the default bodies of `c` were done. -/
def OpenAtBodies (j : Journal) (b c : DefId) : Prop :=
  ∃ before after, j.entries = before ++ (c, .bodiesResolved) :: after ∧
    (⟨before⟩ : Journal).get? b = some .resolving

/-- Both traits are cached, and `b` was so before the default bodies of `c` were done. -/
structure SeenAtBodies (j : Journal) (b c : DefId) : Prop where
  checked : (c, .cached) ∈ j.entries
  cached : (b, .cached) ∈ j.entries
  first : ∀ before after, j.entries = before ++ (c, .bodiesResolved) :: after →
    (b, .cached) ∈ before

variable {j : Journal} {b c : DefId}

theorem OpenAtBodies.record (h : j.OpenAtBodies b c) (id : DefId) (s : ResolveState) :
    (j.record id s).OpenAtBodies b c := by
  obtain ⟨before, after, split, isOpen⟩ := h
  exact ⟨before, after ++ [(id, s)], by simp [Journal.record, split], isOpen⟩

/-- No entry but the one for the default bodies of `c` itself changes which traits were open
at that time. -/
theorem openAtBodies_record_cases {id : DefId} {s : ResolveState}
    (h : (j.record id s).OpenAtBodies b c) :
    j.OpenAtBodies b c ∨ id = c ∧ s = .bodiesResolved ∧ j.get? b = some .resolving := by
  obtain ⟨before, after, split, isOpen⟩ := h
  replace split : j.entries ++ [(id, s)] = before ++ (c, .bodiesResolved) :: after := split
  rcases List.eq_nil_or_concat after with rfl | ⟨init, last, rfl⟩
  · obtain ⟨rfl, same⟩ := List.append_inj' split rfl
    cases same
    exact .inr ⟨rfl, rfl, isOpen⟩
  · rw [List.concat_eq_append, ← List.cons_append, ← List.append_assoc] at split
    exact .inl ⟨before, init, List.append_inj_left' split rfl, isOpen⟩

theorem SeenAtBodies.record (h : j.SeenAtBodies b c) (id : DefId) (s : ResolveState) :
    (j.record id s).SeenAtBodies b c where
  checked := List.mem_append_left _ h.checked
  cached := List.mem_append_left _ h.cached
  first := by
    intro before after split
    replace split : j.entries ++ [(id, s)] = before ++ (c, .bodiesResolved) :: after := split
    rcases List.eq_nil_or_concat after with rfl | ⟨init, last, rfl⟩
    · obtain ⟨rfl, -⟩ := List.append_inj' split rfl
      exact h.cached
    · rw [List.concat_eq_append, ← List.cons_append, ← List.append_assoc] at split
      exact h.first before init (List.append_inj_left' split rfl)

/-- What is cached before is not open. -/
theorem SeenAtBodies.not_open {limit : Nat} {opened closed : List DefId}
    (h : j.SeenAtBodies b c) (nested : Nested limit j.entries opened closed) :
    ¬j.OpenAtBodies b c := by
  rintro ⟨before, after, split, isOpen⟩
  have cached := mem_statesOf.2 (h.first before after split)
  rw [split] at nested
  obtain ⟨opened', closed', earlier⟩ := nested.of_append
  rw [get?_eq_getLast?] at isOpen
  obtain ⟨-, -, e⟩ | ⟨-, e⟩ | ⟨-, e | e⟩ := earlier.statesOf_cases b <;> simp [e] at cached isOpen

end Journal

/-- All elements of a chain lead to its last one. -/
theorem leads_of_isChain {α : Type} {r : α → α → Prop} {l : List α} {a : α}
    (links : (l ++ [a]).IsChain r) : ∀ b ∈ l, Relation.TransGen r b a := by
  have paths := List.isChain_iff_pairwise.1 (links.imp fun _ _ => Relation.TransGen.single)
  exact fun b mem => (List.pairwise_append.1 paths).2.2 b mem a (List.mem_singleton_self a)

namespace ItemTree

variable (tree : ItemTree)

/-- A default body of `c` uses the item `name` of `b`, which it names by `path`. -/
inductive UsesItem (b c : DefId) (path : TypePath) (name : String) : Prop where
  | intro {decl : TraitDecl} {item : TraitItem} {body : Body}
      (declared : tree.trait? c = some decl) (written : item ∈ decl.items)
      (hasBody : item.kind.body? = some body) (used : .item path name ∈ body.uses)
      (named : tree.resolveTraitPath path = .ok b)

/-- A default body of `c` uses an item of `b` that `b` does not declare. The last argument
is the report that is due. -/
inductive Misuse (b c : DefId) : Problem → Prop where
  | intro {path : TypePath} {name : String} {target : TraitDecl}
      (used : tree.UsesItem b c path name) (found : tree.trait? b = some target)
      (absent : target.item? name = none) :
      Misuse b c (.unknownItem path.span target.name name)

variable {tree} in
theorem Misuse.target {b c : DefId} {span : Span} {traitName name : String}
    (h : tree.Misuse b c (.unknownItem span traitName name)) :
    ∃ target, tree.trait? b = some target ∧ target.name = traitName ∧ target.item? name = none := by
  generalize reported : Problem.unknownItem span traitName name = p at h
  obtain ⟨-, found, absent⟩ := h
  cases reported
  exact ⟨_, found, rfl, absent⟩

/-- The problems account for all unknown items in default bodies that are done. -/
structure Accounting (problems : List Problem) (j : Journal) : Prop where
  justified : ∀ p ∈ problems, p.isUnknownItem = true →
    ∃ b c, tree.Misuse b c p ∧ j.SeenAtBodies b c
  complete : ∀ b c p, tree.Misuse b c p → (c, .bodiesResolved) ∈ j.entries →
    p ∈ problems ∨ j.OpenAtBodies b c ∨ ∃ q ∈ problems, q.isRefusal = true
  led : ∀ b c, j.OpenAtBodies b c → Relation.TransGen tree.AnyUse b c

/-- The invariant of a run; `handed` are the problems that have been handed out. -/
structure Reviewed (handed : List Problem) (cx : Context) : Prop where
  listed : ∀ id t decl, cx.trait? id = some t → tree.trait? id = some decl →
    ∀ name, (t.item? name).isSome = (decl.item? name).isSome
  chained : cx.stack.keys.IsChain tree.AnyUse
  accounting : tree.Accounting (handed ++ cx.problems) cx.states

variable {tree} {handed : List Problem} {cx cx' : Context}

/-! ## The account -/

namespace Accounting

variable {problems more : List Problem} {j : Journal}

/-- Problems may be added, and reports of unknown items that are due. -/
theorem grow (h : tree.Accounting problems j) (sub : problems ⊆ more)
    (due : ∀ p ∈ more, p ∈ problems ∨
      (p.isUnknownItem = true → ∃ b c, tree.Misuse b c p ∧ j.SeenAtBodies b c)) :
    tree.Accounting more j where
  justified := by
    intro p mem unknown
    rcases due p mem with old | misuse
    · exact h.justified p old unknown
    · exact misuse unknown
  complete := by
    intro b c p misuse done
    refine (h.complete b c p misuse done).imp (fun mem => sub mem) (Or.imp_right ?_)
    rintro ⟨q, mem, refusal⟩
    exact ⟨q, sub mem, refusal⟩
  led := h.led

/-- A state other than the last one says nothing about default bodies. -/
theorem record (h : tree.Accounting problems j) (id : DefId) {s : ResolveState}
    (other : s ≠ .bodiesResolved) : tree.Accounting problems (j.record id s) where
  justified := by
    intro p mem unknown
    obtain ⟨b, c, misuse, seen⟩ := h.justified p mem unknown
    exact ⟨b, c, misuse, seen.record id s⟩
  complete := by
    intro b c p misuse done
    have done : (c, .bodiesResolved) ∈ j.entries := by
      rcases List.mem_append.1 done with done | new
      · exact done
      · rw [List.mem_singleton, Prod.mk.injEq] at new
        exact absurd new.2.symm other
    exact (h.complete b c p misuse done).imp_right (Or.imp_left fun isOpen => isOpen.record id s)
  led := by
    intro b c isOpen
    rcases openAtBodies_record_cases isOpen with old | ⟨-, new, -⟩
    · exact h.led b c old
    · exact absurd new other

/-- The default bodies of a trait are done when each misuse in them is reported, or passed over
for a trait that leads here. -/
theorem recordBodies (h : tree.Accounting problems j) (id : DefId)
    (leads : ∀ b, j.get? b = some .resolving → Relation.TransGen tree.AnyUse b id)
    (settled : ∀ b p, tree.Misuse b id p →
      p ∈ problems ∨ j.get? b = some .resolving ∨ ∃ q ∈ problems, q.isRefusal = true) :
    tree.Accounting problems (j.record id .bodiesResolved) where
  justified := by
    intro p mem unknown
    obtain ⟨b, c, misuse, seen⟩ := h.justified p mem unknown
    exact ⟨b, c, misuse, seen.record id .bodiesResolved⟩
  complete := by
    intro b c p misuse done
    rcases List.mem_append.1 done with done | new
    · exact (h.complete b c p misuse done).imp_right
        (Or.imp_left fun isOpen => isOpen.record id .bodiesResolved)
    · obtain rfl : c = id := by simpa using new
      exact (settled b p misuse).imp_right
        (Or.imp_left fun isOpen => ⟨j.entries, [], rfl, isOpen⟩)
  led := by
    intro b c isOpen
    rcases openAtBodies_record_cases isOpen with old | ⟨rfl, -, isOpen⟩
    · exact h.led b c old
    · exact leads b isOpen

end Accounting

/-! ## The invariant -/

namespace Reviewed

/-- Problems may be added, and reports of unknown items that are due. -/
theorem grow (h : tree.Reviewed handed cx) (cache : cx'.cache = cx.cache)
    (stack : cx'.stack.keys = cx.stack.keys) (states : cx'.states = cx.states)
    (sub : cx.problems ⊆ cx'.problems)
    (due : ∀ p ∈ cx'.problems, p ∈ cx.problems ∨
      (p.isUnknownItem = true → ∃ b c, tree.Misuse b c p ∧ cx.states.SeenAtBodies b c)) :
    tree.Reviewed handed cx' where
  listed := by
    unfold Context.trait?
    rw [cache]
    exact h.listed
  chained := stack ▸ h.chained
  accounting := by
    rw [states]
    refine h.accounting.grow (Problem.append_subset_append handed sub) fun p mem => ?_
    rcases List.mem_append.1 mem with mem | mem
    · exact Or.inl (List.mem_append_left _ mem)
    · exact (due p mem).imp_left (List.mem_append_right handed)

theorem report (h : tree.Reviewed handed cx) {p : Problem}
    (due : p.isUnknownItem = true → ∃ b c, tree.Misuse b c p ∧ cx.states.SeenAtBodies b c) :
    tree.Reviewed handed (cx.report p) := by
  refine h.grow (by simp) (by simp) (by simp)
    (fun q mem => (cx.mem_problems_report p).2 (Or.inl mem)) fun q mem => ?_
  rcases (cx.mem_problems_report p).1 mem with mem | rfl
  · exact Or.inl mem
  · exact Or.inr due

end Reviewed

/-- What lowering does by itself reports no unknown items. -/
def reviewUpkeep (tree : ItemTree) (handed : List Problem) : Upkeep where
  Holds := tree.Reviewed handed
  report := fun other h => h.report fun unknown => by simp [other] at unknown
  insertType := fun _ _ h => h.grow rfl rfl rfl (List.Subset.refl _) fun _ => Or.inl
  addBounds := fun _ _ h => h.grow rfl rfl rfl (List.Subset.refl _) fun _ => Or.inl
  setPending := fun _ _ h => h.grow rfl rfl rfl (List.Subset.refl _) fun _ => Or.inl
  deferObjectSafety := fun _ _ h => h.grow rfl rfl rfl (List.Subset.refl _) fun _ => Or.inl
  enterItems := by
    intro cx id h
    have keys := cx.enterItems_keys id
    obtain ⟨stack, eq⟩ := cx.enterItems_eq id
    rw [eq] at keys ⊢
    exact h.grow rfl keys rfl (List.Subset.refl _) fun _ => Or.inl

namespace Reviewed

theorem start (limit : Nat) : tree.Reviewed [] { limit } where
  listed := nofun
  chained := .nil
  accounting := {
    justified := nofun
    complete := fun _ _ _ _ done => absurd done List.not_mem_nil
    led := by
      rintro b c ⟨before, after, split, -⟩
      exact absurd split.symm (by simp) }

theorem handOut (h : tree.Reviewed handed cx) :
    tree.Reviewed (handed ++ cx.problems) { cx with problems := [] } where
  listed := h.listed
  chained := h.chained
  accounting := by
    rw [List.append_nil]
    exact h.accounting

/-- The trait that is begun may be asked for by the one below it. -/
theorem beginResolving (h : tree.Reviewed handed cx) {id : DefId} (notOpen : id ∉ cx.stack.keys)
    (asked : tree.Admits cx id) : tree.Reviewed handed (cx.beginResolving id) where
  listed := h.listed
  chained := by
    show (cx.stack.insert id .supers).keys.IsChain tree.AnyUse
    rw [Table.keys_insert_of_new notOpen]
    refine List.isChain_append.2 ⟨h.chained, .singleton _, fun below last other head => ?_⟩
    obtain ⟨e, top, rfl⟩ := Option.map_eq_some_iff.1
      ((List.getLast?_map (f := Prod.fst) (l := cx.stack.entries)).symm.trans last)
    obtain rfl : other = id := by simpa using head.symm
    exact ⟨e.2, asked e top⟩
  accounting := h.accounting.record id (by decide)

/-- The trait that is cached has the items that it declares. -/
theorem insertTrait (h : tree.Reviewed handed cx) {base : Table DefId ResolveStage} {id : DefId}
    {decl : TraitDecl} {t : TraitRef} (top : cx.stack.entries = base.entries ++ [(id, .items)])
    (notBelow : id ∉ base.keys) (notCached : id ∉ cx.cache.keys)
    (declared : tree.trait? id = some decl)
    (items : ∀ name, (t.item? name).isSome = (decl.item? name).isSome) :
    tree.Reviewed handed (cx.insertTrait id t) where
  listed := by
    intro other t' decl' found declared' name
    replace found : (cx.cache.insert id t).get? other = some t' := found
    rw [Table.get?_insert_of_new notCached] at found
    split at found
    · rename_i same
      subst same
      cases found
      cases declared.symm.trans declared'
      exact items name
    · exact h.listed other t' decl' found declared' name
  chained := by
    have stack : (cx.insertTrait id t).stack = base := Table.erase_last top notBelow
    have chained := h.chained
    rw [Table.keys, top, List.map_append] at chained
    rw [stack]
    exact chained.left_of_append
  accounting := h.accounting.record id (by decide)

theorem checkDeferred (h : tree.Reviewed handed cx) (id : DefId) (t : TraitRef) :
    tree.Reviewed handed (cx.checkDeferred id t) := by
  have taken : tree.Reviewed handed (cx.takeDeferred id).2 :=
    h.grow rfl rfl rfl (List.Subset.refl _) fun _ => Or.inl
  exact (reviewUpkeep tree handed).reporting.checkAll t _ _ taken

end Reviewed

/-! ## One use -/

/-- A use of an item its trait does not declare is reported, or the trait is still being resolved,
or some bound was refused. -/
def Settled (tree : ItemTree) (handed : List Problem) (cx : Context) (use : BodyUse) : Prop :=
  ∀ path name b target, use = .item path name → tree.resolveTraitPath path = .ok b →
    tree.trait? b = some target → target.item? name = none →
    .unknownItem path.span target.name name ∈ handed ++ cx.problems ∨ b ∈ cx.stack.keys ∨
      ∃ q ∈ handed ++ cx.problems, q.isRefusal = true

theorem Settled.trip {use : BodyUse} (h : tree.Settled handed cx use) (trip : tree.Trip cx cx') :
    tree.Settled handed cx' use := by
  have more := Problem.append_subset_append handed trip.moves.problems
  intro path name b target at_ named found absent
  rcases h path name b target at_ named found absent with reported | waits | ⟨q, mem, refusal⟩
  · exact Or.inl (more reported)
  · exact Or.inr (Or.inl (trip.stack ▸ waits))
  · exact Or.inr (Or.inr ⟨q, more mem, refusal⟩)

theorem Refused.exists_isRefusal {problems : List Problem} {path : TypePath} {id : DefId}
    (h : tree.Refused problems path id) : ∃ q ∈ problems, q.isRefusal = true := by
  cases h with
  | cycle closes reported => exact ⟨_, reported, rfl⟩
  | limit reported => exact ⟨_, reported, rfl⟩
  | args reported => exact ⟨_, reported, rfl⟩

/-- The trait behind a predicate that is no error is cached, and it is the named one. -/
theorem LoweredBound.cached {isSuper : Bool} {path : TypePath} {p : Predicate}
    (h : tree.LoweredBound cx isSuper path p) (fine : p.isError cx = false) :
    ∃ id t, tree.resolveTraitPath path = .ok id ∧ p.trait = some id ∧ cx.trait? id = some t ∧
      p.getChecked? cx = some t := by
  obtain ⟨t, checked⟩ : ∃ t, p.getChecked? cx = some t :=
    Option.isSome_iff_exists.1 (by simpa [Predicate.isError] using fine)
  have found := checked
  unfold Predicate.getChecked? at found
  split at found
  · cases found
  · rename_i unfailed
    obtain ⟨id, named, own, -, -⟩ := h.lowered (by simpa using unfailed)
    rw [Predicate.get?, own, Option.bind_some] at found
    exact ⟨id, t, named, own, found, checked⟩

/-- The use is passed over only if its trait is on the stack or was refused, or declares the
item. -/
theorem Reviewed.settled_of_passed (h : tree.Reviewed handed cx) {path : TypePath}
    {name : String} {p : Predicate} (known : tree.LoweredBound cx false path p)
    (passed : ¬(!p.isError cx && !p.containsItem cx name)) :
    tree.Settled handed cx (.item path name) := by
  intro path' name' b target at_ named found absent
  cases at_
  cases failed : p.failed with
  | true =>
      obtain ⟨q, mem, refusal⟩ := (known.refused failed b named).exists_isRefusal
      exact Or.inr (Or.inr ⟨q, List.mem_append_right _ mem, refusal⟩)
  | false =>
      obtain ⟨id, named', own, -, place⟩ := known.lowered failed
      obtain rfl : b = id := Except.ok.inj (named.symm.trans named')
      rcases place with cached | ⟨waits, -⟩
      · obtain ⟨t, cached⟩ := cx.exists_trait? cached
        have checked : p.getChecked? cx = some t := by
          rw [Predicate.getChecked?, failed, Predicate.get?, own]
          exact cached
        have none : (t.item? name).isSome = false := by
          rw [h.listed b t target cached found name, absent]
          rfl
        refine absurd ?_ passed
        simpa [Predicate.isError, Predicate.containsItem, Predicate.member?, checked] using none
      · exact Or.inr (Or.inl waits)

/-- What is reported is a misuse in the body that is being checked. -/
theorem Reviewed.misuse (h : tree.Reviewed handed cx) {c : DefId} {decl : TraitDecl}
    {item : TraitItem} {body : Body} {path : TypePath} {name : String} {p : Predicate}
    (declared : tree.trait? c = some decl) (written : item ∈ decl.items)
    (hasBody : item.kind.body? = some body) (used : .item path name ∈ body.uses)
    (known : tree.LoweredBound cx false path p)
    (missing : (!p.isError cx && !p.containsItem cx name) = true) :
    ∃ b, b ∈ cx.cache.keys ∧ tree.Misuse b c
      (.unknownItem path.span ((p.trait.map tree.traitName).getD "") name) := by
  rw [Bool.and_eq_true, Bool.not_eq_true', Bool.not_eq_true'] at missing
  obtain ⟨fine, absent⟩ := missing
  obtain ⟨b, t, named, own, found, checked⟩ := known.cached fine
  obtain ⟨target, declaredB⟩ := trait?_of_resolveTraitPath named
  have none : target.item? name = none := by
    rw [← Option.not_isSome_iff_eq_none, Bool.not_eq_true,
      ← h.listed b t target found declaredB name]
    simpa [Predicate.containsItem, Predicate.member?, checked] using absent
  have traitName : (p.trait.map tree.traitName).getD "" = target.name := by
    simp [own, traitName, declaredB]
  rw [traitName]
  exact ⟨b, Table.mem_keys_of_get? found,
    .intro (.intro declared written hasBody used named) declaredB none⟩

/-- The report of a misuse in a trait that is just cached. -/
theorem Reviewed.reportUnknownItem (h : tree.Reviewed handed cx) (coherent : tree.Coherent cx)
    {b c : DefId} {problem : Problem} (misuse : tree.Misuse b c problem)
    (cached : b ∈ cx.cache.keys) (waits : cx.states.get? c = some .cached) :
    tree.Reviewed handed (cx.report problem) := by
  have notDone := coherent.nested.not_done_of_get? waits
  rw [get?_eq_getLast?] at waits
  exact h.report fun _ => ⟨b, c, misuse, {
    checked := mem_statesOf.1 (List.mem_of_getLast? waits)
    cached := coherent.nested.mem_cached_iff.2 cached
    first := fun before after split => absurd (by simp [split]) notDone }⟩

/-- The default bodies of `id` are done once each use in them is settled. -/
theorem Reviewed.markBodiesResolved (h : tree.Reviewed handed cx) (coherent : tree.Coherent cx)
    {id : DefId} {decl : TraitDecl} (declared : tree.trait? id = some decl)
    (leads : ∀ b ∈ cx.stack.keys, Relation.TransGen tree.AnyUse b id)
    (settled : ∀ item ∈ decl.items, ∀ body, item.kind.body? = some body →
      ∀ use ∈ body.uses, tree.Settled handed cx use) :
    tree.Reviewed handed (cx.markBodiesResolved id) where
  listed := h.listed
  chained := h.chained
  accounting := by
    refine h.accounting.recordBodies id
      (fun b isOpen => leads b (coherent.nested.open_of_get? isOpen)) fun b p misuse => ?_
    obtain ⟨⟨declared', written, hasBody, used, named⟩, found, absent⟩ := misuse
    cases declared.symm.trans declared'
    exact (settled _ written _ hasBody _ used _ _ b _ rfl named found absent).imp_right
      (Or.imp_left coherent.nested.get?_of_open)

end ItemTree

end TraitEngine
