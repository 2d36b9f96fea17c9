import TraitEngine.Proofs.Bodies.Accounting
/-!
# Which unknown items in default bodies are reported

A trait that is resolved keeps the account of unknown items: it has the items that it
declares, each use in its default bodies is settled when they are checked, and the traits that
are on the stack at that time lead to it (`resolveWithin_serves`).

So after any requests the reports are exactly those of the uses whose trait was not on the
stack (`unknownItem_reported_iff`).
-/

namespace TraitEngine

set_option autoImplicit false

open Check Journal

/-! ## Resolution -/

namespace Lowering

open ItemTree

variable {tree : ItemTree} {handed : List Problem} {resolve : Resolver} {cx : Context}
  {depth : Nat}

section Names

theorem lowerItem_name (scope : Scope) (id : DefId) (self : Ty) (params : List TraitParam)
    (item : TraitItem) :
    Ends AnyFault (lowerItem tree resolve scope id self params item) cx fun lowered _ =>
      lowered.name = item.name := by
  rw [lowerItem]
  split
  · exact rfl
  · simp only [ends_bind, ends_modify, ends_pure]
    exact (ends_any _).mono fun _ _ _ => trivial

/-- Of each name that is not taken yet, there is an item after lowering exactly if there is
one before. -/
theorem lowerItems_names (scope : Scope) (decl : TraitDecl) (self : Ty)
    (params : List TraitParam) :
    ∀ (items seen : List TraitItem) {cx : Context},
      Ends AnyFault (lowerItems tree resolve scope decl self params seen items) cx fun lowered _ =>
        ∀ name, (∀ item ∈ seen, item.name ≠ name) →
          ((∃ item ∈ lowered, item.name = name) ↔ ∃ item ∈ items, item.name = name)
  | [], seen, cx => fun name _ => by simp
  | item :: rest, seen, cx => by
      rw [lowerItems]
      split
      · rename_i first taken
        simp only [ends_bind, ends_report]
        refine (lowerItems_names scope decl self params rest seen).mono fun lowered _ names => ?_
        intro name fresh
        have other : item.name ≠ name := by
          have same := List.find?_some taken
          rw [← beq_iff_eq.1 same]
          exact fresh first (List.mem_of_find?_eq_some taken)
        rw [names name fresh]
        simp [other]
      · simp only [ends_bind, ends_pure]
        refine (lowerItem_name scope decl.id self params item).mono fun head _ own => ?_
        refine (lowerItems_names scope decl self params rest (item :: seen)).mono
          fun lowered _ names name fresh => ?_
        by_cases same : item.name = name
        · simp [own, same]
        · simp only [List.mem_cons, exists_eq_or_imp, own, same, false_or]
          refine names name fun other mem => ?_
          rcases List.mem_cons.1 mem with rfl | mem
          · exact same
          · exact fresh other mem

/-- A trait has the items that it declares. -/
theorem buildTrait_items (decl : TraitDecl) :
    Ends AnyFault (buildTrait tree resolve decl) cx fun t _ =>
      ∀ name, (t.item? name).isSome = (decl.item? name).isSome := by
  unfold buildTrait
  split
  · rename_i receiver others _
    simp only [ends_bind, ends_modify, ends_pure]
    refine (ends_any _).mono fun out _ _ => ?_
    simp only [buildItems, ends_bind]
    refine (ends_any _).mono fun _ _ _ => ?_
    refine (lowerItems_names _ decl _ out.1 decl.items []).mono fun items _ names name => ?_
    rw [Bool.eq_iff_iff]
    simpa [TraitRef.item?, TraitDecl.item?, List.find?_isSome] using names name (by simp)
  · exact trivial

end Names

section

variable (serves : tree.Serves (tree.reviewUpkeep handed) depth resolve)

include serves

theorem checkUse_settles (ready : tree.Ready depth cx) (scope : Scope) {c : DefId}
    {decl : TraitDecl} {item : TraitItem} {body : Body} {use : BodyUse}
    (declared : tree.trait? c = some decl) (written : item ∈ decl.items)
    (hasBody : item.kind.body? = some body) (used : use ∈ body.uses)
    (waits : cx.states.get? c = some .cached) (asked : tree.AdmitsAll cx use.path.mentions)
    (reviewed : tree.Reviewed handed cx) :
    Ends tree.Faults (checkUse tree resolve scope use) cx fun _ cx' =>
      tree.Trip cx cx' ∧ tree.Reviewed handed cx' ∧ tree.Settled handed cx' use := by
  cases use with
  | bound path =>
      simp only [checkUse, ends_bind, ends_pure]
      refine (lowerOtherBound_tours scope serves ready asked (.refl cx)).mono fun _ cx₁ tour => ?_
      exact ⟨tour.trip, tour.kept reviewed, fun _ _ _ _ at_ => by cases at_⟩
  | item path name =>
      simp only [checkUse, ends_bind, ends_get]
      refine (lowerBound_tours scope serves ready false path asked nofun (.refl cx)).mono
        fun p cx₁ lowered => ?_
      obtain ⟨tour, known⟩ := lowered
      have reviewed₁ : tree.Reviewed handed cx₁ := tour.kept reviewed
      split
      · rename_i missing
        rw [ends_report]
        -- An item that the cached reference does not have, the declaration does not have either.
        obtain ⟨b, cached, misuse⟩ :=
          reviewed₁.misuse declared written hasBody used known missing
        have reported := (cx₁.mem_problems_report
          (.unknownItem path.span ((p.trait.map tree.traitName).getD "") name)).2 (Or.inr rfl)
        refine ⟨tour.trip.report rfl, reviewed₁.reportUnknownItem
          (tour.trip.coherent ready.coherent) misuse cached ((tour.trip.unfinished c).2 waits), ?_⟩
        intro path' name' b' target at_ named found absent
        cases at_
        obtain ⟨fine, -⟩ := Bool.and_eq_true_iff.1 missing
        obtain ⟨id, t, named', own, -, -⟩ := known.cached (by simpa using fine)
        obtain rfl : b' = id := Except.ok.inj (named.symm.trans named')
        refine Or.inl (List.mem_append_right _ ?_)
        simpa [own, traitName, found] using reported
      · rename_i passed
        exact ⟨tour.trip, reviewed₁, reviewed₁.settled_of_passed known passed⟩

theorem checkBodies_settles (ready : tree.Ready depth cx) (scope : Scope) {c : DefId}
    {decl : TraitDecl} (declared : tree.trait? c = some decl)
    (waits : cx.states.get? c = some .cached) (asked : tree.AdmitsAll cx decl.bodyMentions)
    (reviewed : tree.Reviewed handed cx) :
    Ends tree.Faults (checkBodies tree resolve scope decl) cx fun _ cx' =>
      tree.Trip cx cx' ∧ tree.Reviewed handed cx' ∧ ∀ item ∈ decl.items, ∀ body,
        item.kind.body? = some body → ∀ use ∈ body.uses, tree.Settled handed cx' use := by
  simp only [checkBodies, ends_bind, ends_pure]
  refine (ends_forIn_each (fun cx' => tree.Trip cx cx' ∧ tree.Reviewed handed cx')
    (fun item cx' => ∀ body, item.kind.body? = some body →
      ∀ use ∈ body.uses, tree.Settled handed cx' use) _ decl.items ⟨.refl cx, reviewed⟩
    fun item written cx₁ kept => ?_).mono fun _ cx' done => ⟨done.1.1, done.1.2, done.2.1⟩
  obtain ⟨trip, reviewed₁⟩ := kept
  have own := (trip.admitsAll asked).flatMap written
  unfold TraitItem.bodyMentions at own
  cases hasBody : item.kind.body? with
  | none => exact ⟨rfl, ⟨trip, reviewed₁⟩, fun _ some => (by cases some), fun _ before => before⟩
  | some body =>
      rw [hasBody] at own
      simp only [ends_bind, ends_pure]
      refine (ends_forIn_each (fun cx' => tree.Trip cx₁ cx' ∧ tree.Reviewed handed cx')
        (fun use cx' => tree.Settled handed cx' use) _ body.uses ⟨.refl cx₁, reviewed₁⟩
        fun use used cx₂ kept => ?_).mono fun _ cx' done => ?_
      · obtain ⟨trip₁, reviewed₂⟩ := kept
        rw [ends_bind]
        refine (checkUse_settles serves ((trip.trans trip₁).ready ready) _ declared written hasBody
          used (((trip.trans trip₁).unfinished c).2 waits) (trip₁.admitsAll (own.flatMap used))
          reviewed₂).mono fun _ cx₃ checked => ?_
        obtain ⟨trip₂, reviewed₃, settled⟩ := checked
        exact ⟨rfl, ⟨trip₁.trans trip₂, reviewed₃⟩, settled, fun _ before => before.trip trip₂⟩
      · obtain ⟨⟨trip₁, reviewed₂⟩, settled, -⟩ := done
        refine ⟨trivial, ⟨trip.trans trip₁, reviewed₂⟩, ?_, fun _ before body hasBody use used =>
          (before body hasBody use used).trip trip₁⟩
        rintro _ ⟨⟩
        exact settled

/-- The default bodies are reviewed as soon as the trait is cached. -/
theorem finishTrait_reviewed (ready : tree.Ready depth cx) {decl : TraitDecl}
    (declared : tree.trait? decl.id = some decl) (asked : tree.AdmitsAll cx decl.bodyMentions)
    (waits : cx.states.get? decl.id = some .cached) {t : TraitRef}
    (found : cx.trait? decl.id = some t)
    (leads : ∀ b ∈ cx.stack.keys, Relation.TransGen tree.AnyUse b decl.id)
    (reviewed : tree.Reviewed handed cx) :
    Ends tree.Faults (finishTrait tree resolve decl t) cx fun _ cx' =>
      tree.Reviewed handed cx' := by
  have check : tree.Move cx (cx.checkDeferred decl.id t) := .checkDeferred waits found
  have ready₁ := ready.checkDeferred check
  have reviewed₁ := reviewed.checkDeferred decl.id t
  obtain ⟨problems, eq, -⟩ := cx.checkDeferred_eq decl.id t
  rw [ends_finishTrait]
  rw [eq] at ready₁ reviewed₁ ⊢
  refine (checkBodies_settles serves ready₁ _ declared waits asked reviewed₁).mono
    fun _ cx₂ checked => ?_
  obtain ⟨trip, reviewed₂, settled⟩ := checked
  refine reviewed₂.markBodiesResolved (trip.coherent ready₁.coherent) declared ?_ settled
  intro b waits
  rw [trip.stack] at waits
  exact leads b waits

theorem resolveNew_reviewed {id : DefId} {decl : TraitDecl} (ready : tree.Ready (depth + 1) cx)
    (declared : tree.trait? id = some decl) (notOpen : id ∉ cx.stack.keys)
    (notCached : id ∉ cx.cache.keys) (room : cx.depth < cx.limit) (asked : tree.Admits cx id)
    (reviewed : tree.Reviewed handed cx) :
    Ends tree.Faults (resolveNew tree resolve id decl) cx fun _ cx' =>
      tree.Reviewed handed cx' := by
  obtain rfl := ready.numbered id decl declared
  simp only [resolveNew, ends_bind, ends_modify]
  cases split : decl.splitReceiver? with
  | none =>
      simp only [buildTrait, split, ends_throw]
      exact ⟨decl.id, decl, declared, split, rfl⟩
  | some receiver =>
      obtain ⟨-, ready₁⟩ :=
        ready.beginResolving declared (by simp [split]) notOpen notCached room asked
      have reviewed₁ := reviewed.beginResolving notOpen asked
      refine ((buildTrait_tours serves ready₁ declared split
        (Table.entries_insert_of_new notOpen)).and
          (buildTrait_items decl)).mono fun t cx₂ ended => ?_
      obtain ⟨⟨built, kept⟩, items⟩ := ended
      have found := built.trait?_insertTrait ready₁.coherent
      have stack := built.stack_insertTrait notOpen
      have asked₃ : tree.Admits (cx₂.insertTrait decl.id t) decl.id := by
        rw [Admits, stack]
        exact asked
      have waited : (cx₂.insertTrait decl.id t).states.get? decl.id = some .cached :=
        get?_record_self cx₂.states decl.id .cached
      -- The traits below it on the stack wait for it, each for the next one.
      have leads : ∀ b ∈ (cx₂.insertTrait decl.id t).stack.keys,
          Relation.TransGen tree.AnyUse b decl.id := by
        have chained := reviewed₁.chained
        rw [show (cx.beginResolving decl.id).stack.keys = cx.stack.keys ++ [decl.id] from
          Table.keys_insert_of_new notOpen] at chained
        rw [stack]
        exact fun b waits => leads_of_isChain chained b waits
      have reviewed₃ := (kept reviewed₁).insertTrait built.stack notOpen
        (built.notCached ready₁.coherent) declared items
      simp only [ends_get, ends_pure]
      exact finishTrait_reviewed serves (built.ready_insertTrait ready₁ notOpen) declared
        (admitsAll_bodyMentions declared asked₃) waited found leads reviewed₃

end

theorem resolveWithin_serves (tree : ItemTree) (handed : List Problem) (depth : Nat) :
    tree.Serves (tree.reviewUpkeep handed) depth (resolveWithin tree depth) := by
  induction depth with
  | zero => exact fun _ _ _ ready => absurd ready.few (Nat.not_lt_zero _)
  | succ depth ih =>
      intro id span cx ready asked
      refine ((resolveWithin_resolves (depth + 1) id span cx ready asked).and_if
        fun reviewed : tree.Reviewed handed cx => ?_).mono fun t cx' ended =>
          ⟨⟨ended.1.1, ended.2⟩, ended.1.2⟩
      refine Ends.mono_faults ?_ fun f (_ : tree.Faults f) => trivial
      exact ends_resolveWithin span (fun _ _ => reviewed) (fun _ => reviewed) (fun _ => reviewed)
        (fun _ => (tree.reviewUpkeep handed).report rfl reviewed)
        fun _ declared notOpen notCached room =>
          resolveNew_reviewed ih ready declared notOpen notCached room asked reviewed

end Lowering

/-! ## After any requests -/

namespace ItemTree

variable {tree : ItemTree} {handed : List Problem} {cx : Context}

theorem reviewed_of_runAll (numbered : tree.Numbered) {requests : List Request} {limit : Nat}
    (ran : Request.runAll tree requests { limit } = .ok (handed, cx)) :
    tree.Idle cx ∧ tree.Reviewed handed cx := by
  have performed : Ends tree.Faults (Request.runAll tree requests) { limit } fun handed cx₁ =>
      tree.Performed (fun handed => tree.reviewUpkeep handed) [] { limit } handed cx₁ :=
    runAll_performed numbered (fun handed => Lowering.resolveWithin_serves tree handed _)
      (fun reviewed => Reviewed.handOut reviewed) requests [] (Idle.start limit)
  have ended := performed.of_eq_ok ran
  exact ⟨ended.idle, ended.kept (.start limit)⟩

/-- When nothing is on the stack, the reports of unknown items are exactly those of the uses
in cached traits whose trait was not on the stack when the default bodies were done. -/
theorem Reviewed.reported_iff (h : tree.Reviewed handed cx) (idle : tree.Idle cx)
    (accepted : ∀ q ∈ handed ++ cx.problems, q.isRefusal = false) {p : Problem}
    (unknown : p.isUnknownItem = true) :
    p ∈ handed ++ cx.problems ↔
      ∃ b, ∃ c ∈ cx.cache.keys, tree.Misuse b c p ∧ ¬cx.states.OpenAtBodies b c := by
  constructor
  · intro mem
    obtain ⟨b, c, misuse, seen⟩ := h.accounting.justified p mem unknown
    exact ⟨b, c, idle.coherent.nested.mem_cached_iff.1 seen.checked, misuse,
      seen.not_open idle.coherent.nested⟩
  · rintro ⟨b, c, cached, misuse, notOpen⟩
    have done : (c, .bodiesResolved) ∈ cx.states.entries := by
      have last := (idle.mem_cache_iff c).1 cached
      rw [get?_eq_getLast?] at last
      exact mem_statesOf.1 (List.mem_of_getLast? last)
    rcases h.accounting.complete b c p misuse done with mem | isOpen | ⟨q, mem, refusal⟩
    · exact mem
    · exact absurd isOpen notOpen
    · rw [accepted q mem] at refusal
      cases refusal

/-- After any requests that refuse no bound, the reports of unknown items in default bodies
are exactly those that are due for the uses in cached traits, except where the trait that is
used was on the stack when the bodies were done. Such a trait leads back to the trait of the
body by a path of uses. So a use of a trait that does not lead back is reported exactly if
the trait does not declare the item, unless the same report is due for another trait. -/
theorem unknownItem_reported_iff (crate : String) (declarations : List Declaration)
    (requests : List Request) (limit : Nat) {tree : ItemTree}
    (built : tree = (empty crate).declareAll declarations) {handed : List Problem}
    {cx : Context} (ran : Request.runAll tree requests { limit } = .ok (handed, cx))
    (accepted : ∀ q ∈ handed ++ cx.problems, q.isRefusal = false) :
    (∀ span traitName name, .unknownItem span traitName name ∈ handed ++ cx.problems ↔
      ∃ b, ∃ c ∈ cx.cache.keys, tree.Misuse b c (.unknownItem span traitName name) ∧
        ¬cx.states.OpenAtBodies b c) ∧
    (∀ b c, cx.states.OpenAtBodies b c → Relation.TransGen tree.AnyUse b c) ∧
    ∀ b, ∀ c ∈ cx.cache.keys, ∀ path name target, tree.UsesItem b c path name →
      tree.trait? b = some target → ¬Relation.TransGen tree.AnyUse b c →
      (∀ b' c', tree.Misuse b' c' (.unknownItem path.span target.name name) → b' = b) →
      (.unknownItem path.span target.name name ∈ handed ++ cx.problems ↔
        target.item? name = none) := by
  have numbered : tree.Numbered := built ▸ (numbered_empty crate).declareAll declarations
  obtain ⟨idle, reviewed⟩ := reviewed_of_runAll numbered ran
  have exactly := fun span traitName name =>
    reviewed.reported_iff idle accepted (p := .unknownItem span traitName name) rfl
  refine ⟨exactly, reviewed.accounting.led, fun b c cached path name target used found apart own => ?_⟩
  rw [exactly]
  constructor
  · rintro ⟨b', c', -, misuse, -⟩
    obtain rfl := own b' c' misuse
    obtain ⟨target', found', -, absent⟩ := misuse.target
    cases found.symm.trans found'
    exact absent
  · exact fun absent => ⟨b, c, cached, .intro used found absent, fun isOpen =>
      apart (reviewed.accounting.led b c isOpen)⟩

/-- A trait that uses anything names something itself. -/
theorem Uses.exists_named {stage : ResolveStage} {a b : DefId} (h : tree.Uses stage a b) :
    ∃ decl, tree.trait? a = some decl ∧ tree.named (decl.mentionsAt stage) ≠ [] := by
  induction h with
  | named declared names =>
      exact ⟨_, declared, List.ne_nil_of_mem (names_iff.1 names)⟩
  | body _ _ _ ih => exact ih

/-- `trait Shape { fn area(&self); }` and
`trait Render: Shape { fn draw(&self) { Shape::colour } }`. -/
def strangeColour : ItemTree := (empty "main").declareAll [
  .trait "Shape" [.method "area" [.self .ref]],
  .trait "Render" [.super (.ofText "Shape"),
    .method "draw" [.self .ref, .body ⟨[.item (.ofText "Shape") "colour"]⟩]]]

/-- `Shape` names no trait at all, and it does not declare `colour`: this is reported. -/
theorem unknownItem_reported_iff_strangeColour :
    ∃ handed cx, Request.runAll strangeColour [.runPasses [.traits]] { limit := 128 } =
        .ok (handed, cx) ∧ (∀ q ∈ handed ++ cx.problems, q.isRefusal = false) ∧
      strangeColour.UsesItem ⟨0⟩ ⟨1⟩ (.ofText "Shape") "colour" ∧
      ¬Relation.TransGen strangeColour.AnyUse ⟨0⟩ ⟨1⟩ ∧
      .unknownItem default "Shape" "colour" ∈ handed ++ cx.problems := by
  have observed : (Request.runAll strangeColour [.runPasses [.traits]]
      { limit := 128 }).toOption.map (fun out => (out.1 ++ out.2.problems, out.2.cache.keys)) =
      some ([.unknownItem default "Shape" "colour"], [⟨0⟩, ⟨1⟩]) := by
    decide +kernel
  obtain ⟨⟨handed, cx⟩, ran, seen⟩ := ok_of_observed observed
  obtain ⟨reported, keys⟩ := Prod.mk.inj seen
  have accepted : ∀ q ∈ handed ++ cx.problems, q.isRefusal = false := by
    simp only [reported]
    decide
  have written : .item (.ofText "Shape") "colour" ∈
      (⟨[.item (.ofText "Shape") "colour"]⟩ : Body).uses := List.mem_cons_self
  have used : strangeColour.UsesItem ⟨0⟩ ⟨1⟩ (.ofText "Shape") "colour" :=
    .intro rfl List.mem_cons_self rfl written (by decide +kernel)
  have idle : ∀ stage, ∀ decl ∈ strangeColour.trait? ⟨0⟩,
      strangeColour.named (decl.mentionsAt stage) = [] := by
    intro stage
    cases stage <;> decide +kernel
  have apart : ¬Relation.TransGen strangeColour.AnyUse ⟨0⟩ ⟨1⟩ := by
    intro path
    obtain ⟨_, ⟨stage, use⟩, -⟩ := Relation.TransGen.head'_iff.1 path
    obtain ⟨decl, declared, named⟩ := use.exists_named
    exact named (idle stage decl declared)
  have only : ∀ id ∈ strangeColour.ids, ∀ decl ∈ strangeColour.trait? id,
      decl.name = "Shape" → id = ⟨0⟩ := by decide +kernel
  have exactly := (unknownItem_reported_iff "main" _ _ 128 rfl ran accepted).2.2 ⟨0⟩ ⟨1⟩
    (by simp [keys]) _ "colour" _ used rfl apart fun b c misuse => by
      obtain ⟨target, found, name, -⟩ := misuse.target
      exact only b (mem_ids_of_trait? found) target found name
  exact ⟨handed, cx, ran, accepted, used, apart, exactly.2 (by decide +kernel)⟩

/-- `trait A: B {}` and `trait B { fn g(&self) { A::nope } }`. -/
def openBody : ItemTree := (empty "main").declareAll [
  .trait "A" [.super (.ofText "B")],
  .trait "B" [.method "g" [.self .ref, .body ⟨[.item (.ofText "A") "nope"]⟩]]]

/-- The default body of `B` is checked while `A`, which asked for `B`, is on the stack. Nothing
is reported, then or later; where `B` is asked for first, it is. -/
theorem unknownItem_unreported_openBody :
    (∃ handed cx, Request.runAll openBody [.runPasses [.traits]] { limit := 128 } =
        .ok (handed, cx) ∧ handed ++ cx.problems = [] ∧ (∀ id ∈ openBody.ids, id ∈ cx.cache.keys) ∧
      openBody.Misuse ⟨0⟩ ⟨1⟩ (.unknownItem default "A" "nope") ∧
      cx.states.OpenAtBodies ⟨0⟩ ⟨1⟩) ∧
    ∃ handed cx, Request.runAll openBody [.resolve (.ofText "B"), .runPasses [.traits]]
        { limit := 128 } = .ok (handed, cx) ∧
      handed ++ cx.problems = [.unknownItem default "A" "nope"] := by
  have named : openBody.resolveTraitPath (.ofText "A") = .ok ⟨0⟩ := by decide +kernel
  have written : .item (.ofText "A") "nope" ∈ (⟨[.item (.ofText "A") "nope"]⟩ : Body).uses :=
    List.mem_cons_self
  have misuse : openBody.Misuse ⟨0⟩ ⟨1⟩ (.unknownItem (TypePath.ofText "A").span "A" "nope") :=
    .intro (.intro rfl List.mem_cons_self rfl written named) rfl rfl
  have observed : (Request.runAll openBody [.runPasses [.traits]] { limit := 128 }).toOption.map
      (fun out => (out.1 ++ out.2.problems, out.2.cache.keys, out.2.states.entries)) =
      some ([], [⟨1⟩, ⟨0⟩], [(⟨0⟩, .resolving), (⟨1⟩, .resolving), (⟨1⟩, .cached),
        (⟨1⟩, .bodiesResolved), (⟨0⟩, .cached), (⟨0⟩, .bodiesResolved)]) := by
    decide +kernel
  obtain ⟨⟨handed, cx⟩, ran, seen⟩ := ok_of_observed observed
  simp only [Prod.mk.injEq] at seen
  obtain ⟨quiet, keys, states⟩ := seen
  have observed' : (Request.runAll openBody [.resolve (.ofText "B"), .runPasses [.traits]]
      { limit := 128 }).toOption.map (fun out => out.1 ++ out.2.problems) =
      some [.unknownItem default "A" "nope"] := by
    decide +kernel
  obtain ⟨⟨handed', cx'⟩, ran', reported⟩ := ok_of_observed observed'
  have all : ∀ id ∈ openBody.ids, id ∈ [(⟨1⟩ : DefId), ⟨0⟩] := by decide +kernel
  exact ⟨⟨handed, cx, ran, quiet, keys ▸ all, misuse,
    [(⟨0⟩, .resolving), (⟨1⟩, .resolving), (⟨1⟩, .cached)], _, states, rfl⟩,
    handed', cx', ran', reported⟩

end ItemTree

end TraitEngine
