import TraitEngine.Proofs.ObjectSafety
/-!
# What becomes of the bounds of trait objects

Every bound of a trait object is checked: at once if its trait is cached, and otherwise
when the trait gets cached. From then on it stays true of the bound that it is
`Watched`: reported, still waiting, or found safe as far as the search could see.

The search sees the cached traits, so it sees every super-trait that was cached before
the trait that keeps it (`PromptEdge`). A super-trait that was still on the stack at the
time of the check is passed over, and nobody comes back to it: a trait object may stay
unreported although a trait above its bound offends
(`dynBounds_screened_openSuper`). Such a super-trait has a late path back.
-/

namespace TraitEngine

set_option autoImplicit false

open Relation Check

namespace Context

/-- A cached trait keeps a super-trait that was cached before it. -/
def PromptEdge (cx : Context) (a b : DefId) : Prop := cx.SuperEdge a b ∧ cx.CachedBefore b a

/-- It is among the problems that `id` cannot stand behind `dyn` at the span. -/
def ReportsUnsafe (cx : Context) (problems : List Problem) (id : DefId) (span : Span) : Prop :=
  ∃ t, cx.trait? id = some t ∧
    ∃ supers, .notObjectSafe span t.name t.violations supers ∈ problems

/-- What is known at any later moment of a bound on `id` that a trait object has. -/
inductive Watched (problems : List Problem) (cx : Context) (id : DefId) (span : Span) : Prop where
  | reported (report : cx.ReportsUnsafe problems id span)
  | waits (deferred : (id, span) ∈ cx.deferred)
  | safe (cached : id ∈ cx.cache.keys)
      (prompt : ∀ x, ReflTransGen cx.PromptEdge id x → ¬ cx.Offends x)

variable {cx cx' : Context} {problems problems' : List Problem} {id : DefId} {span : Span}

/-! ## While the cache grows -/

/-- A trait that was cached before a cached one was there with it. -/
theorem PromptEdge.of_grown {a b : DefId} (grown : cx.cache.entries <+: cx'.cache.entries)
    (cached : a ∈ cx.cache.keys) (edge : cx'.PromptEdge a b) :
    cx.PromptEdge a b ∧ b ∈ cx.cache.keys := by
  obtain ⟨t, found⟩ := cx.exists_trait? cached
  obtain ⟨t', found', root⟩ := superEdge_iff.1 edge.1
  cases (trait?_of_grown grown found).symm.trans found'
  have keys : ∃ new, cx'.cache.keys = cx.cache.keys ++ new := by
    obtain ⟨new, eq⟩ := grown.map Prod.fst
    exact ⟨new, eq.symm⟩
  obtain ⟨new, eq⟩ := keys
  have before : cx'.CachedBefore b a := edge.2
  rw [CachedBefore, eq, List.idxOf_append_of_mem cached] at before
  have there : cx.cache.keys.idxOf a < cx.cache.keys.length := List.idxOf_lt_length_iff.2 cached
  have first : b ∈ cx.cache.keys := by
    by_contra missing
    rw [List.idxOf_append_of_notMem missing] at before
    omega
  rw [List.idxOf_append_of_mem first] at before
  exact ⟨⟨superEdge_iff.2 ⟨t, found, root⟩, before⟩, first⟩

theorem promptPath_of_grown (grown : cx.cache.entries <+: cx'.cache.entries)
    (cached : id ∈ cx.cache.keys) {x : DefId} (path : ReflTransGen cx'.PromptEdge id x) :
    ReflTransGen cx.PromptEdge id x ∧ x ∈ cx.cache.keys := by
  induction path with
  | refl => exact ⟨.refl, cached⟩
  | tail path edge ih =>
      obtain ⟨path, cached⟩ := ih
      obtain ⟨edge, cached⟩ := edge.of_grown grown cached
      exact ⟨path.tail edge, cached⟩

theorem Offends.of_grown (grown : cx.cache.entries <+: cx'.cache.entries)
    (cached : id ∈ cx.cache.keys) (h : cx'.Offends id) : cx.Offends id := by
  obtain ⟨t, found⟩ := cx.exists_trait? cached
  exact (offends_iff found).2 ((offends_iff (trait?_of_grown grown found)).1 h)

theorem ReportsUnsafe.grow (h : cx.ReportsUnsafe problems id span)
    (grown : cx.cache.entries <+: cx'.cache.entries) (sub : problems ⊆ problems') :
    cx'.ReportsUnsafe problems' id span := by
  obtain ⟨t, found, supers, mem⟩ := h
  exact ⟨t, trait?_of_grown grown found, supers, sub mem⟩

/-- A bound stays watched as long as its check is not dropped. -/
theorem Watched.grow (h : Watched problems cx id span)
    (grown : cx.cache.entries <+: cx'.cache.entries) (sub : problems ⊆ problems')
    (deferred : (id, span) ∈ cx.deferred → Watched problems' cx' id span) :
    Watched problems' cx' id span := by
  cases h with
  | reported report => exact .reported (report.grow grown sub)
  | waits waits => exact deferred waits
  | safe cached prompt =>
      refine .safe ((grown.map Prod.fst).subset cached) fun x path offends => ?_
      obtain ⟨path, here⟩ := promptPath_of_grown grown cached path
      exact prompt x path (offends.of_grown grown here)

theorem Watched.of_safeAbove (cached : id ∈ cx.cache.keys) (safe : cx.SafeAbove id) :
    Watched problems cx id span :=
  .safe cached fun x path => safe x (ReflTransGen.mono (fun _ _ edge => edge.1) _ _ path)

/-! ## Checks -/

theorem safeAbove_congr (cache : cx'.cache = cx.cache) : cx'.SafeAbove id ↔ cx.SafeAbove id := by
  have edge : cx'.SuperEdge = cx.SuperEdge := by
    funext a b
    simp only [SuperEdge, superIds, trait?, cache]
  simp only [SafeAbove, Offends, trait?, edge, cache]

theorem Labelled.congr (h : cx.Labelled) (cache : cx'.cache = cx.cache) : cx'.Labelled := by
  intro id t found
  exact h id t (by rwa [trait?, cache] at found)

/-- A check of a cached trait reports it, or there is nothing to report. -/
theorem checkObjectSafety_eq (labelled : cx.Labelled) {t : TraitRef}
    (found : cx.trait? id = some t) (span : Span) :
    t.checkObjectSafety true span cx = (true, cx) ∧ cx.SafeAbove id ∨
      ∃ supers, t.checkObjectSafety true span cx =
        (false, cx.report (.notObjectSafe span t.name t.violations supers)) := by
  unfold TraitRef.checkObjectSafety
  cases searched : t.objectSafetyProblem? cx span with
  | none =>
      exact Or.inl ⟨rfl, (TraitRef.objectSafetyProblem?_eq_none_iff labelled found span).1 searched⟩
  | some problem =>
      obtain ⟨supers, rfl⟩ := TraitRef.objectSafetyProblem?_some searched
      exact Or.inr ⟨supers, rfl⟩

/-- Checks one after the other miss no span. -/
theorem checkAll_reports {t : TraitRef} (spans : List Span) (labelled : cx.Labelled)
    (found : cx.trait? id = some t) (mem : span ∈ spans) :
    cx.SafeAbove id ∨ ∃ supers,
      .notObjectSafe span t.name t.violations supers ∈ (t.checkAll spans cx).problems := by
  induction spans generalizing cx with
  | nil => exact absurd mem List.not_mem_nil
  | cons first rest ih =>
      show _ ∨ ∃ supers, _ ∈ (t.checkAll rest (t.checkObjectSafety true first cx).2).problems
      rcases checkObjectSafety_eq labelled found first with ⟨checked, safe⟩ | ⟨supers, checked⟩
      · exact Or.inl safe
      · rw [checked]
        have cache := cx.report_cache (.notObjectSafe first t.name t.violations supers)
        rcases List.mem_cons.1 mem with rfl | mem
        · obtain ⟨problems, eq, sub, -⟩ := Context.checkAll_eq
            (cx.report (.notObjectSafe span t.name t.violations supers)) t rest
          rw [eq]
          exact Or.inr ⟨supers, sub ((cx.mem_problems_report _).2 (Or.inr rfl))⟩
        · rw [← safeAbove_congr cache]
          exact ih (labelled.congr cache) (by rwa [trait?, cache]) mem

/-- The deferred checks of a trait are all made. -/
theorem checkDeferred_watched (labelled : cx.Labelled) {t : TraitRef}
    (found : cx.trait? id = some t) (waits : (id, span) ∈ cx.deferred) :
    Watched (cx.checkDeferred id t).problems (cx.checkDeferred id t) id span := by
  have taken : span ∈ (cx.takeDeferred id).1 :=
    List.mem_map.2 ⟨(id, span), List.mem_filter.2 ⟨waits, by simp⟩, rfl⟩
  have labelled : (cx.takeDeferred id).2.Labelled := labelled
  have checked := checkAll_reports (cx.takeDeferred id).1 labelled found taken
  obtain ⟨problems, eq, -⟩ := cx.checkDeferred_eq id t
  have same : (cx.checkDeferred id t).cache = cx.cache := by rw [eq]
  have here : (cx.checkDeferred id t).trait? id = some t := by rwa [trait?, same]
  rcases checked with safe | ⟨supers, reported⟩
  · exact .of_safeAbove (Table.mem_keys_of_get? here) ((safeAbove_congr same).2 safe)
  · exact .reported ⟨t, here, supers, reported⟩

end Context

open Context

namespace ItemTree

variable {tree : ItemTree} {cx cx₁ cx₂ : Context} {problems handed : List Problem} {id : DefId}
  {span : Span}

theorem Coherent.labelled (h : tree.Coherent cx) : cx.Labelled :=
  fun _ _ found => (h.cached_shape _ (Table.mem_entries_of_get? found)).1

/-! ## Moves and runs -/

/-- A deferred check goes on waiting until it is made. -/
theorem Move.deferred (move : tree.Move cx cx₁) (waits : (id, span) ∈ cx.deferred) :
    (id, span) ∈ cx₁.deferred ∨
      ∃ t, cx.trait? id = some t ∧ cx₁ = cx.checkDeferred id t := by
  cases move with
  | report => exact Or.inl (by simpa using waits)
  | reportCycle => exact Or.inl (by simpa using waits)
  | deferObjectSafety => exact Or.inl (List.mem_append_left _ waits)
  | @enterItems base other top notBelow =>
      obtain ⟨stack, eq⟩ := cx.enterItems_eq other
      rw [eq]
      exact Or.inl waits
  | @checkDeferred other t waited found =>
      by_cases same : id = other
      · subst same
        exact Or.inr ⟨t, found, rfl⟩
      · obtain ⟨problems, eq, -⟩ := cx.checkDeferred_eq other t
        rw [eq]
        exact Or.inl (List.mem_filter.2 ⟨waits, by simpa using same⟩)
  | _ => exact Or.inl waits

theorem Move.watched (move : tree.Move cx cx₁) (coherent : tree.Coherent cx)
    (h : Watched (handed ++ cx.problems) cx id span) :
    Watched (handed ++ cx₁.problems) cx₁ id span := by
  have sub : handed ++ cx.problems ⊆ handed ++ cx₁.problems :=
    List.append_subset.2 ⟨List.subset_append_left handed _,
      List.subset_append_of_subset_right handed move.problems⟩
  refine h.grow move.cache sub fun waits => ?_
  rcases move.deferred waits with waits | ⟨t, found, rfl⟩
  · exact .waits waits
  · have checked := checkDeferred_watched coherent.labelled found waits
    exact checked.grow List.prefix_rfl (List.subset_append_right _ _) fun waits => .waits waits

theorem Run.watched (run : tree.Run cx handed cx₁) (coherent : tree.Coherent cx)
    (h : Watched cx.problems cx id span) : Watched (handed ++ cx₁.problems) cx₁ id span := by
  induction run with
  | refl => exact h
  | move before move ih => exact move.watched (before.coherent coherent) ih
  | handOut before idle ih =>
      rw [List.append_nil]
      exact ih.grow List.prefix_rfl (List.Subset.refl _) fun waits => .waits waits

theorem Moves.watched (moves : tree.Moves cx cx₁) (coherent : tree.Coherent cx)
    (h : Watched cx.problems cx id span) : Watched cx₁.problems cx₁ id span :=
  (Run.moves moves).watched coherent h

end ItemTree

/-! ## Lowering the bounds -/

/-- Bounds are admitted one by one: all of them, or those before one that makes the whole
trait object an error. -/
def Screened {α : Type} (admitted refused : TypePath → Prop) (bounds : List TypePath)
    (out : Option α) : Prop :=
  ∃ good rest, bounds = good ++ rest ∧ (∀ path ∈ good, admitted path) ∧
    (rest = [] ∧ out.isSome ∨
      out.isSome = false ∧ ∃ path others, rest = path :: others ∧ refused path)

theorem Screened.mono {α : Type} {admitted refused admitted' refused' : TypePath → Prop}
    {bounds : List TypePath} {out : Option α} (h : Screened admitted refused bounds out)
    (keep : ∀ path, admitted path → admitted' path)
    (keep' : ∀ path, refused path → refused' path) :
    Screened admitted' refused' bounds out := by
  obtain ⟨good, rest, whole, fine, ends⟩ := h
  refine ⟨good, rest, whole, fun path mem => keep path (fine path mem), ends.imp_right ?_⟩
  rintro ⟨failed, path, others, first, bad⟩
  exact ⟨failed, path, others, first, keep' path bad⟩

theorem Screened.cons {α β : Type} {admitted refused : TypePath → Prop} {path : TypePath}
    {bounds : List TypePath} {out : Option α} {out' : Option β} (head : admitted path)
    (h : Screened admitted refused bounds out) (same : out'.isSome = out.isSome) :
    Screened admitted refused (path :: bounds) out' := by
  obtain ⟨good, rest, whole, fine, ends⟩ := h
  refine ⟨path :: good, rest, by rw [whole, List.cons_append], ?_, by rwa [same]⟩
  intro other mem
  rcases List.mem_cons.1 mem with rfl | mem
  · exact head
  · exact fine other mem

namespace ItemTree

variable {tree : ItemTree} {cx cx₁ cx₂ : Context} {problems handed : List Problem} {id : DefId}
  {span : Span}

/-- The bound is on a trait, and it is watched. -/
def WatchedBound (tree : ItemTree) (problems : List Problem) (cx : Context) (path : TypePath) :
    Prop :=
  ∃ id, tree.resolveTraitPath path = .ok id ∧ Watched problems cx id path.span

/-- If the bound is on a trait, then the trait is reported there as one that cannot stand
behind `dyn`, or as one that cannot be had. -/
def RefusedBound (tree : ItemTree) (problems : List Problem) (cx : Context) (path : TypePath) :
    Prop :=
  ∀ id, tree.resolveTraitPath path = .ok id →
    cx.ReportsUnsafe problems id path.span ∨ tree.Refused problems path id

end ItemTree

namespace Lowering

open ItemTree

variable {tree : ItemTree} {resolve : Resolver} {cx : Context} {depth : Nat}

/-- A bound is admitted to a trait object with its check made or deferred. -/
theorem admitDynBound_watched (coherent : tree.Coherent cx) {path : TypePath} {p : Predicate}
    (known : tree.LoweredBound cx false path p) :
    Ends tree.Faults (admitDynBound p path.span) cx fun out cx' =>
      if out.isSome then tree.WatchedBound cx'.problems cx' path
      else tree.RefusedBound cx'.problems cx' path := by
  cases failed : p.failed with
  | true =>
      simp only [admitDynBound, failed, if_true, ends_pure]
      exact fun id named => Or.inr (known.refused failed id named)
  | false =>
      obtain ⟨id, named, own, -, place⟩ := known.lowered failed
      simp only [admitDynBound, failed, own, Bool.false_eq_true, if_false, ends_bind, ends_get]
      -- A trait that is not cached has its check deferred; one that is cached is checked at
      -- once.
      cases found : cx.trait? id with
      | none =>
          have missing : (p.get? cx).isSome = false := by
            simp [Predicate.get?, own, found]
          rw [if_neg (by simp [missing])]
          simp only [ends_bind, ends_modify, ends_pure, Option.isSome_some, if_true]
          exact ⟨id, named, .waits (List.mem_append_right _ (List.mem_singleton.2 rfl))⟩
      | some t =>
          have cached : (p.get? cx).isSome := by simp [Predicate.get?, own, found]
          have check : p.checkObjectSafety true path.span cx =
              t.checkObjectSafety true path.span cx := by
            simp [Predicate.checkObjectSafety, Predicate.getChecked?, Predicate.get?, failed, own,
              found]
          rw [if_pos cached]
          simp only [ends_bind, ends_modifyGet, ends_pure, check]
          rcases checkObjectSafety_eq coherent.labelled found path.span with
            ⟨checked, safe⟩ | ⟨supers, checked⟩
          · rw [checked]
            exact ⟨id, named, .of_safeAbove (Table.mem_keys_of_get? found) safe⟩
          · rw [checked]
            intro id' named'
            obtain rfl : id = id' := Except.ok.inj (named.symm.trans named')
            refine Or.inl ⟨t, ?_, supers, (cx.mem_problems_report _).2 (Or.inr rfl)⟩
            rwa [Context.trait?, cx.report_cache]

/-- The bounds of a trait object are screened: those that are admitted are watched, and
the one that is not is reported. -/
theorem lowerDynBounds_screened (resolves : tree.Resolves depth resolve) (scope : Scope) :
    ∀ (bounds : List TypePath) {cx : Context}, tree.Ready depth cx →
      tree.AdmitsAll cx (TypeExpr.dynMentions bounds) →
      Ends tree.Faults (lowerDynBounds tree resolve scope bounds) cx fun out cx' =>
        Screened (tree.WatchedBound cx'.problems cx') (tree.RefusedBound cx'.problems cx') bounds
          out
  | [], cx, _, _ => ⟨[], [], rfl, fun _ mem => absurd mem List.not_mem_nil, Or.inl ⟨rfl, rfl⟩⟩
  | path :: rest, cx, ready, asked => by
      have asked : tree.AdmitsAll cx (path.mentions ++ TypeExpr.dynMentions rest) := asked
      rw [lowerDynBounds, ends_bind]
      refine (lowerBound_ends scope resolves ready false path asked.left (absurd · Bool.false_ne_true)
        (.refl cx)).mono fun p cx₁ lowered => ?_
      obtain ⟨trip, known⟩ := lowered
      have coherent₁ := trip.coherent ready.coherent
      rw [ends_bind]
      refine ((admitDynBound_ends known trip path.span).and
        (admitDynBound_watched coherent₁ known)).mono fun admitted cx₂ checked => ?_
      obtain ⟨trip, head⟩ := checked
      cases admitted with
      | none =>
          exact ⟨[], path :: rest, rfl, fun _ mem => absurd mem List.not_mem_nil,
            Or.inr ⟨rfl, path, rest, rfl, by simpa using head⟩⟩
      | some _ =>
          have ready₂ := trip.ready ready
          have asked₂ := trip.admitsAll asked.right
          rw [ends_bind]
          refine ((lowerDynBounds_ends scope resolves ready₂ rest asked₂ (.refl cx₂)).and
            (lowerDynBounds_screened resolves scope rest ready₂ asked₂)).mono
            fun bounds? cx₃ lowered => ?_
          obtain ⟨later, tail⟩ := lowered
          -- What is watched after this bound is still watched after the others.
          have head : tree.WatchedBound cx₃.problems cx₃ path := by
            obtain ⟨id, named, watched⟩ := (by simpa using head :
              tree.WatchedBound cx₂.problems cx₂ path)
            exact ⟨id, named, later.moves.watched ready₂.coherent watched⟩
          cases bounds? with
          | none => exact tail.cons head rfl
          | some bounds => exact tail.cons head rfl

end Lowering

namespace ItemTree

variable {tree : ItemTree} {cx cx₁ cx₂ : Context} {problems handed later : List Problem}

/-- If the trait of the bound, or one above it along super-traits that were each cached
before the trait that keeps them, offends, then that is reported at the bound. -/
def SoundBound (tree : ItemTree) (problems : List Problem) (cx : Context) (path : TypePath) :
    Prop :=
  ∃ id, tree.resolveTraitPath path = .ok id ∧ id ∈ cx.cache.keys ∧
    ((∃ x, ReflTransGen cx.PromptEdge id x ∧ cx.Offends x) →
      cx.ReportsUnsafe problems id path.span)

/-- Between requests nothing waits, so a watched bound is reported or sound. -/
theorem Idle.soundBound (idle : tree.Idle cx) {path : TypePath}
    (h : tree.WatchedBound problems cx path) : tree.SoundBound problems cx path := by
  obtain ⟨id, named, watched⟩ := h
  cases watched with
  | reported known =>
      have ⟨t, found, _⟩ := known
      exact ⟨_, named, Table.mem_keys_of_get? found, fun _ => known⟩
  | waits deferred =>
      rw [idle.deferred] at deferred
      exact absurd deferred List.not_mem_nil
  | safe cached prompt =>
      exact ⟨id, named, cached, fun ⟨x, path, offends⟩ => absurd offends (prompt x path)⟩

theorem Idle.lowerDynBounds (idle : tree.Idle cx) (numbered : tree.Numbered) {depth : Nat}
    (few : tree.untouched cx < depth) {scope : Scope} {bounds : List TypePath}
    {out : Option (List DynBound)}
    (lowered : Lowering.lowerDynBounds tree (Lowering.resolveWithin tree depth) scope bounds cx =
      .ok (out, cx₁)) : tree.Idle cx₁ :=
  idle.trip ((Lowering.lowerDynBounds_ends scope (Lowering.resolveWithin_resolves depth)
    ⟨numbered, idle.coherent, few⟩ bounds (idle.admitsAll _) (.refl cx)).of_eq_ok lowered)

/-- Whenever the bounds of a trait object are lowered, at any moment of a run: when the
analysis is idle again, at the end of the request or later, each bound that was admitted
has its trait cached. If that trait offends, or one that is reached from it along
super-traits that were each cached before the trait that keeps them, then this has been
reported at the span of the bound. The bounds are admitted up to the end, or up to one
that is reported itself, and then there is no trait object.

The only kept super-traits that this leaves out are those with a late path back. -/
theorem dynBounds_screened (crate : String) (declarations : List Declaration) (limit : Nat)
    {tree : ItemTree} (built : tree = (empty crate).declareAll declarations)
    (before : tree.Run { limit } handed cx) {depth : Nat} (few : tree.untouched cx < depth)
    (scope : Scope) {bounds : List TypePath}
    (asked : tree.AdmitsAll cx (TypeExpr.dynMentions bounds)) {out : Option (List DynBound)}
    (lowered : Lowering.lowerDynBounds tree (Lowering.resolveWithin tree depth) scope bounds cx =
      .ok (out, cx₁))
    (after : tree.Run cx₁ later cx₂) (idle : tree.Idle cx₂) :
    Screened (tree.SoundBound (later ++ cx₂.problems) cx₂)
        (tree.RefusedBound (later ++ cx₂.problems) cx₂) bounds out ∧
      ∀ x y, cx₂.SuperEdge x y → ¬ cx₂.CachedBefore y x →
        tree.DeclaresSuper x y ∧ tree.LatePath y x := by
  have numbered : tree.Numbered := built ▸ (numbered_empty crate).declareAll declarations
  have coherent : tree.Coherent cx := before.coherent (Idle.start limit).coherent
  have ready : tree.Ready depth cx := ⟨numbered, coherent, few⟩
  have resolves : tree.Resolves depth (Lowering.resolveWithin tree depth) :=
    Lowering.resolveWithin_resolves depth
  have trip : tree.Trip cx cx₁ :=
    (Lowering.lowerDynBounds_ends scope resolves ready bounds asked (.refl cx)).of_eq_ok lowered
  have screened := (Lowering.lowerDynBounds_screened resolves scope bounds ready asked).of_eq_ok
    lowered
  have coherent₁ := trip.coherent coherent
  refine ⟨screened.mono (fun path watched => ?_) (fun path refused id named => ?_), ?_⟩
  · obtain ⟨id, named, watched⟩ := watched
    exact idle.soundBound ⟨id, named, after.watched coherent₁ watched⟩
  · exact (refused id named).imp (fun reported => reported.grow after.cache after.problems)
      fun refused => refused.mono after.problems
  · intro x y edge late
    have ranked := ((before.trans (Run.moves trip.moves)).trans after).ranked
    exact (ranked.superEdge edge).imp_right fun place => place.resolve_left late

/-- `trait A { fn g(); }`, `trait B: A {}` and `trait C {}`. -/
def unsafeSuper : ItemTree := (empty "main").declareAll [
  .trait "A" [.method "g" []],
  .trait "B" [.super (.ofText "A")],
  .trait "C" []]

/-- In `dyn C + B`, `C` is admitted and `B` is reported for its super-trait. -/
theorem dynBounds_screened_unsafeSuper :
    ∃ out cx, Lowering.lowerDynBounds unsafeSuper (Lowering.resolveWithin unsafeSuper 4) {}
        [.ofText "C", .ofText "B"] { limit := 128 } = .ok (out, cx) ∧ unsafeSuper.Idle cx ∧
      out.isSome = false ∧ cx.problems = [.notObjectSafe default "B" [] ["A"]] ∧
      Screened (unsafeSuper.SoundBound cx.problems cx) (unsafeSuper.RefusedBound cx.problems cx)
        [.ofText "C", .ofText "B"] out := by
  have observed : (Lowering.lowerDynBounds unsafeSuper (Lowering.resolveWithin unsafeSuper 4) {}
      [.ofText "C", .ofText "B"] { limit := 128 }).toOption.map
        (fun out => (out.1.isSome, out.2.problems)) =
      some (false, [.notObjectSafe default "B" [] ["A"]]) := by
    decide +kernel
  obtain ⟨⟨out, cx⟩, lowered, seen⟩ := ok_of_observed observed
  simp only [Prod.mk.injEq] at seen
  have start : unsafeSuper.Idle { limit := 128 } := .start 128
  have numbered : unsafeSuper.Numbered := (numbered_empty "main").declareAll _
  have few : unsafeSuper.untouched { limit := 128 } < 4 := by decide +kernel
  have idle : unsafeSuper.Idle cx := start.lowerDynBounds numbered few lowered
  exact ⟨out, cx, lowered, idle, seen.1, seen.2,
    (dynBounds_screened "main" _ 128 rfl .refl few {} (start.admitsAll _) lowered .refl idle).1⟩

/-- `trait A { fn f(&self, x: dyn B); fn g(); }` and `trait B: A {}`. -/
def openSuper : ItemTree := (empty "main").declareAll [
  .trait "A" [.method "f" [.self .ref, .param "x" (.traitObject [.ofText "B"])], .method "g" []],
  .trait "B" [.super (.ofText "A")]]

/-- `dyn B` is lowered while `A` is being built. `B` is cached then and keeps `A`, whose
items are not known yet, so `B` passes for safe. Nothing is reported. -/
theorem dynBounds_screened_openSuper :
    ∃ handed cx, Request.runAll openSuper [.runPasses [.traits]] { limit := 128 } =
        .ok (handed, cx) ∧ handed ++ cx.problems = [] ∧ cx.cache.keys = [⟨1⟩, ⟨0⟩] ∧
      (cx.types.get? ⟨1⟩ = some (.fn "f" (some (.ref (.param ⟨⟨0⟩, "Self"⟩)))
        [.dyn [.mk ⟨1⟩ "B" []]] .unit [])) ∧
      cx.SuperEdge ⟨1⟩ ⟨0⟩ ∧ cx.Offends ⟨0⟩ := by
  have observed : (Request.runAll openSuper [.runPasses [.traits]] { limit := 128 }).toOption.map
      (fun out => ((out.1 ++ out.2.problems, out.2.cache.keys, out.2.types.get? ⟨1⟩),
        out.2.superIds ⟨1⟩, (out.2.trait? ⟨0⟩).map TraitRef.violations)) =
      some (([], [⟨1⟩, ⟨0⟩], some (.fn "f" (some (.ref (.param ⟨⟨0⟩, "Self"⟩)))
        [.dyn [.mk ⟨1⟩ "B" []]] .unit [])), [⟨0⟩], some [⟨.noReceiver, "g", default⟩]) := by
    decide +kernel
  obtain ⟨⟨handed, cx⟩, ran, seen⟩ := ok_of_observed observed
  simp only [Prod.mk.injEq] at seen
  obtain ⟨⟨quiet, keys, lowered⟩, supers, items⟩ := seen
  obtain ⟨t, found, offends⟩ := Option.map_eq_some_iff.1 items
  exact ⟨handed, cx, ran, quiet, keys, lowered, by simp [SuperEdge, supers],
    t, found, by simp [offends]⟩

end ItemTree

end TraitEngine
