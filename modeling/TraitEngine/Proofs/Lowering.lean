import TraitEngine.Proofs.Passage.Operations
import TraitEngine.Proofs.Predicate
import TraitEngine.Proofs.Trips
/-!
# Lowering is a trip

Given a resolver whose answers are trips, lowering a type expression or a bound is
a trip as well, as long as the traits that the expression mentions may be asked
for. Nothing here faults but a missing receiver. Tours are a passage (`Serves.passage`);
trips alone are tours that keep nothing.

A lowered bound is more than a trip: a predicate that has not failed stands for a
trait that is cached or still on the stack, and a failure has its cause among the
problems (`LoweredBound`). A list of bounds loses a bound only with such a cause
(`LoweredBounds`).
-/

namespace TraitEngine

set_option autoImplicit false

open Check

namespace ItemTree

variable (tree : ItemTree)

/-- What is known of the predicate of a bound after it is lowered. -/
structure LoweredBound (cx : Context) (isSuper : Bool) (path : TypePath) (p : Predicate) :
    Prop where
  lowered : p.failed = false → ∃ id, tree.resolveTraitPath path = .ok id ∧ p.trait = some id ∧
    p.span = path.span ∧ (id ∈ cx.cache.keys ∨
      id ∈ cx.stack.keys ∧ (isSuper = true → cx.superTraitCycle? id = none))
  refused : p.failed = true → ∀ id, tree.resolveTraitPath path = .ok id →
    tree.Refused cx.problems path id

/-- What is known of the predicates of a list of bounds after it is lowered. -/
structure LoweredBounds (cx : Context) (isSuper : Bool) (paths : List TypePath)
    (ps : List Predicate) : Prop where
  kept : ∀ p ∈ ps, p.failed = false ∧ ∃ path ∈ paths, tree.LoweredBound cx isSuper path p
  all : ∀ path ∈ paths, ∀ id, tree.resolveTraitPath path = .ok id →
    (∃ p ∈ ps, p.trait = some id ∧ p.span = path.span) ∨
      tree.Refused cx.problems path id

/-- The super-trait bound `path` belongs to the trait being built, which is at its
super-traits. -/
def AtSuperBound (cx : Context) (path : TypePath) : Prop :=
  ∀ e, cx.stack.entries.getLast? = some e →
    e.2 = .supers ∧ ∃ decl, tree.trait? e.1 = some decl ∧ path ∈ decl.superPaths

variable {tree} {cx cx₁ cx₂ : Context} {depth : Nat}

theorem AtSuperBound.trip {path : TypePath} (h : tree.AtSuperBound cx path)
    (trip : tree.Trip cx cx₁) : tree.AtSuperBound cx₁ path := by
  rw [AtSuperBound, trip.stack]
  exact h

theorem LoweredBound.trip {isSuper : Bool} {path : TypePath} {p : Predicate}
    (h : tree.LoweredBound cx isSuper path p) (trip : tree.Trip cx cx₁) :
    tree.LoweredBound cx₁ isSuper path p where
  lowered := by
    intro fine
    obtain ⟨id, named, own, span, cached | ⟨open_, noCycle⟩⟩ := h.lowered fine
    · exact ⟨id, named, own, span, Or.inl (trip.mem_cache cached)⟩
    · refine ⟨id, named, own, span, Or.inr ⟨trip.stack ▸ open_, fun super => ?_⟩⟩
      simpa only [Context.superTraitCycle?, trip.stack] using noCycle super
  refused := fun failed id named => (h.refused failed id named).mono trip.moves.problems

/-! ## Lists of bounds -/

section

variable {isSuper : Bool}

theorem LoweredBound.bindReceiver {path : TypePath} {p : Predicate}
    (h : tree.LoweredBound cx isSuper path p) (self : Ty) :
    tree.LoweredBound cx isSuper path (p.bindReceiver self) where
  lowered := by simpa using h.lowered
  refused := by simpa using h.refused

theorem LoweredBounds.trip {paths : List TypePath} {ps : List Predicate}
    (h : tree.LoweredBounds cx isSuper paths ps) (trip : tree.Trip cx cx₁) :
    tree.LoweredBounds cx₁ isSuper paths ps where
  kept := by
    intro p mem
    obtain ⟨fine, path, written, lowered⟩ := h.kept p mem
    exact ⟨fine, path, written, lowered.trip trip⟩
  all := fun path written id named =>
    (h.all path written id named).imp_right fun refused => refused.mono trip.moves.problems

theorem LoweredBounds.nil : tree.LoweredBounds cx isSuper [] [] where
  kept := fun _ mem => absurd mem List.not_mem_nil
  all := fun _ mem => absurd mem List.not_mem_nil

/-- A bound that failed is left out, any other comes first. -/
theorem LoweredBounds.cons {path : TypePath} {paths : List TypePath} {p : Predicate}
    {ps : List Predicate} (head : tree.LoweredBound cx isSuper path p)
    (rest : tree.LoweredBounds cx isSuper paths ps) (self : Ty) :
    tree.LoweredBounds cx isSuper (path :: paths)
      (if p.failed then ps else p.bindReceiver self :: ps) := by
  have kept : ∀ q ∈ ps, q.failed = false ∧
      ∃ path' ∈ path :: paths, tree.LoweredBound cx isSuper path' q := by
    intro q mem
    obtain ⟨fine, path', written, lowered⟩ := rest.kept q mem
    exact ⟨fine, path', List.mem_cons_of_mem path written, lowered⟩
  cases failed : p.failed with
  | true =>
      refine ⟨kept, fun path' written id named => ?_⟩
      rcases List.mem_cons.1 written with rfl | written
      · exact Or.inr (head.refused failed id named)
      · exact rest.all path' written id named
  | false =>
      refine ⟨fun q mem => ?_, fun path' written id named => ?_⟩
      · rcases List.mem_cons.1 mem with rfl | mem
        · exact ⟨by simpa using failed, path, List.mem_cons_self, head.bindReceiver self⟩
        · exact kept q mem
      · rcases List.mem_cons.1 written with rfl | written
        · obtain ⟨id', named', own, span, -⟩ := head.lowered failed
          obtain rfl : id = id' := Except.ok.inj (named.symm.trans named')
          exact Or.inl ⟨_, List.mem_cons_self, by simpa using own, by simpa using span⟩
        · refine (rest.all path' written id named).imp_left ?_
          rintro ⟨q, mem, own⟩
          exact ⟨q, List.mem_cons_of_mem _ mem, own⟩

theorem LoweredBounds.of_each {paths : List TypePath} {all : List Predicate}
    (each : List.Forall₂ (fun path p => tree.LoweredBound cx isSuper path p) paths all)
    (self : Ty) : tree.LoweredBounds cx isSuper paths
      ((all.filter fun p => !p.failed).map fun p => p.bindReceiver self) := by
  induction each with
  | nil => exact .nil
  | @cons path p paths all head _ ih =>
      have whole := LoweredBounds.cons head ih self
      cases failed : p.failed <;> simpa [failed] using whole

end

end ItemTree

/-! ## Plain reports -/

theorem Upkeep.reporting (inv : Upkeep) :
    Reporting fun cx cx' => inv.Holds cx → inv.Holds cx' where
  refl := fun _ => id
  trans := fun first second holds => second (first holds)
  report := fun _ _ plain => inv.report (Problem.ordinary_of_isPlain plain).2

theorem ItemTree.Tour.reporting (tree : ItemTree) (inv : Upkeep) : Reporting (tree.Tour inv) where
  refl := .refl
  trans := .trans
  report := fun cx _ plain => (Tour.refl cx).report (Problem.ordinary_of_isPlain plain)

namespace Lowering

open ItemTree

variable {tree : ItemTree} {inv : Upkeep} {resolve : Resolver} {cx cx₁ : Context} {depth : Nat}

/-! ## The parts of a bound -/

/-- Before its arguments are applied, a predicate has all slots of its trait; if there is
no predicate, the refusal is reported. -/
def HeadKnown (tree : ItemTree) (path : TypePath) (id : DefId) (isSuper : Bool) (cx : Context) :
    Option Predicate → Prop
  | none => tree.Refused cx.problems path id
  | some p => p.Fresh id path.span ∧ tree.LoweredBound cx isSuper path p

theorem HeadKnown.of_fresh {path : TypePath} {id : DefId} {isSuper : Bool} {p : Predicate}
    (named : tree.resolveTraitPath path = .ok id) (fresh : p.Fresh id path.span)
    (place : id ∈ cx.cache.keys ∨
      id ∈ cx.stack.keys ∧ (isSuper = true → cx.superTraitCycle? id = none)) :
    HeadKnown tree path id isSuper cx (some p) :=
  ⟨fresh, fun _ => ⟨id, named, fresh.trait, fresh.span, place⟩,
    fun failed => absurd failed (by simp [fresh.failed])⟩

/-- A trait on the stack is used as it is known so far, unless the bound closes a cycle
of super-traits. -/
theorem boundHead?_open (coherent : tree.Coherent cx) {path : TypePath} {id : DefId}
    (named : tree.resolveTraitPath path = .ok id) (waits : id ∈ cx.stack.keys) {isSuper : Bool}
    (super : isSuper = true → tree.AtSuperBound cx path) :
    Ends tree.Faults (boundHead? tree resolve id path.span isSuper) cx fun p? cx' =>
      tree.Tour inv cx cx' ∧ HeadKnown tree path id isSuper cx' p? := by
  obtain ⟨decl, declared, receiver⟩ := coherent.stack_declared id waits
  simp only [boundHead?, ends_bind, ends_get]
  rw [if_pos (cx.isResolving_iff.2 waits)]
  split
  · rename_i ids closes
    -- Only the bound of a super-trait closes a cycle, and that is written in the trait on top.
    have isSuper : isSuper = true := by
      by_contra other
      simp [other] at closes
    rw [if_pos isSuper] at closes
    obtain ⟨e, top⟩ := cx.exists_top waits
    obtain ⟨-, bound⟩ := super isSuper e top
    have reported := (cx.mem_problems_report (.superTraitCycle path.span
      (ids.map tree.traitName))).2 (Or.inr rfl)
    simp only [ends_bind, ends_report, ends_pure]
    exact ⟨⟨(Trip.refl cx).move (.reportCycle top ⟨bound, named⟩ closes) (by simp) (by simp)
      (by simp), inv.report rfl⟩, .cycle (cx.head?_of_superTraitCycle? closes) reported⟩
  · rename_i noCycle
    have place : id ∈ cx.cache.keys ∨
        id ∈ cx.stack.keys ∧ (isSuper = true → cx.superTraitCycle? id = none) :=
      Or.inr ⟨waits, fun isSuper => by simpa [isSuper] using noCycle⟩
    split
    · rename_i params _ waiting
      have some := (coherent.pending_shape _ (Table.mem_entries_of_get? waiting)).2
      exact ⟨.refl cx, .of_fresh named (Predicate.ofParams_fresh id path.span some) place⟩
    · rename_i decl' _ found
      obtain rfl : decl' = decl := Option.some.inj (found.symm.trans declared)
      obtain ⟨split, found⟩ := Option.isSome_iff_exists.1 receiver
      have some : decl'.orderedParams.map TraitParam.ofDecl ≠ [] := by
        simp [TraitDecl.orderedParams, found]
      exact ⟨.refl cx, .of_fresh named (Predicate.ofParams_fresh id path.span some) place⟩
    · rename_i none
      rw [declared] at none
      cases none

/-- A trait that is not on the stack is asked for. -/
theorem boundHead?_asked (serves : tree.Serves inv depth resolve) (ready : tree.Ready depth cx)
    {path : TypePath} {id : DefId} (named : tree.resolveTraitPath path = .ok id)
    (notOpen : id ∉ cx.stack.keys) (asked : tree.Admits cx id) (isSuper : Bool) :
    Ends tree.Faults (boundHead? tree resolve id path.span isSuper) cx fun p? cx' =>
      tree.Tour inv cx cx' ∧ HeadKnown tree path id isSuper cx' p? := by
  simp only [boundHead?, ends_bind, ends_get]
  rw [if_neg (by rwa [cx.isResolving_iff]), ends_bind]
  refine (serves id path.span cx ready asked).mono fun t cx' ended => ?_
  obtain ⟨tour, answer⟩ := ended
  rw [ends_pure]
  refine ⟨tour, ?_⟩
  cases isError : t.isError with
  | true =>
      show tree.Refused cx'.problems path id
      obtain none | waits | ⟨name, limit, reported⟩ := answer.refused isError
      · obtain ⟨decl, declared⟩ := trait?_of_resolveTraitPath named
        rw [declared] at none
        cases none
      · exact absurd (tour.trip.stack ▸ waits) notOpen
      · exact .limit reported
  | false =>
      have cached := answer.found isError
      obtain ⟨own, some⟩ := (tour.trip.coherent ready.coherent).cached_shape _
        (Table.mem_entries_of_get? cached)
      exact .of_fresh named (Predicate.ofTrait_fresh path.span own some)
        (Or.inl (Table.mem_keys_of_get? cached))

theorem boundHead?_tours (serves : tree.Serves inv depth resolve) (ready : tree.Ready depth cx)
    {path : TypePath} {id : DefId} (named : tree.resolveTraitPath path = .ok id)
    (asked : tree.Admits cx id) {isSuper : Bool}
    (super : isSuper = true → tree.AtSuperBound cx path) :
    Ends tree.Faults (boundHead? tree resolve id path.span isSuper) cx fun p? cx' =>
      tree.Tour inv cx cx' ∧ HeadKnown tree path id isSuper cx' p? := by
  by_cases waits : id ∈ cx.stack.keys
  · exact boundHead?_open ready.coherent named waits super
  · exact boundHead?_asked serves ready named waits asked isSuper

/-- Applying the arguments keeps what is known of the predicate, or fails with a
report. -/
theorem finishBound_tours {path : TypePath} {id : DefId}
    (named : tree.resolveTraitPath path = .ok id) {isSuper : Bool} {p : Predicate}
    (fresh : p.Fresh id path.span) (known : tree.LoweredBound cx isSuper path p)
    (applied : AppliedArgs) :
    Ends tree.Faults (finishBound tree id p applied) cx fun q cx₁ =>
      tree.Tour inv cx cx₁ ∧ tree.LoweredBound cx₁ isSuper path q := by
  have review (q : Predicate) (mismatch : Option ArgMismatch) (own : q.trait = some id)
      (span : q.span = path.span) (failed : q.failed = mismatch.isSome) :
      Ends tree.Faults (reviewBound tree id q applied.span mismatch) cx fun _ cx₁ =>
        tree.Tour inv cx cx₁ ∧ tree.LoweredBound cx₁ isSuper path q := by
    refine (reviewBound_goes (Tour.reporting tree inv) id q applied.span mismatch).mono
      fun _ cx₁ reviewed => ?_
    obtain ⟨tour, reported⟩ := reviewed
    refine ⟨tour, fun _ => ?_, fun isFailed id' named' => ?_⟩
    · obtain ⟨id', named', own', -, place⟩ := (known.trip tour.trip).lowered fresh.failed
      obtain rfl : id = id' := Except.ok.inj (named.symm.trans named')
      exact ⟨id, named, own, span, place⟩
    · obtain rfl : id = id' := Except.ok.inj (named.symm.trans named')
      obtain ⟨cause, some⟩ := Option.isSome_iff_exists.1 (failed.symm.trans isFailed)
      exact .args (reported cause some)
  simp only [finishBound]
  split
  · obtain ⟨q, mismatch, applies, own, span, failed⟩ := fresh.apply applied
    rw [applies]
    simp only [ends_bind, ends_liftM_ok, ends_pure]
    exact review q mismatch own span failed
  · simp only [ends_bind, ends_pure]
    exact review p none fresh.trait fresh.span fresh.failed

/-- A bound that is admitted to a trait object is checked now or on the stack. -/
theorem admitDynBound_tours {path : TypePath} {p : Predicate}
    (known : tree.LoweredBound cx false path p) (span : Span) :
    Ends tree.Faults (admitDynBound p span) cx fun _ cx₁ => tree.Tour inv cx cx₁ := by
  simp only [admitDynBound]
  split
  · exact .refl cx
  · rename_i id fine
    simp only [ends_bind, ends_get]
    split
    · simp only [ends_bind, ends_modifyGet]
      exact (Tour.reporting tree inv).checkPredicate p true span cx
    · rename_i notCached
      have unfailed : p.failed = false := by
        by_contra failed
        simp [failed] at fine
      obtain ⟨id', -, own, -, place⟩ := known.lowered unfailed
      rw [unfailed, own] at fine
      cases fine
      have waits : id ∈ cx.stack.keys := by
        refine (place.resolve_left fun cached => notCached ?_).1
        simpa [Predicate.get?, own] using cx.isSome_trait?_iff.2 cached
      simp only [ends_bind, ends_modify, ends_pure]
      exact (Tour.refl cx).deferObjectSafety span waits

end Lowering

/-! ## Tours are a passage -/

namespace ItemTree

variable {tree : ItemTree} {inv : Upkeep} {resolve : Resolver} {cx cx₁ : Context} {depth : Nat}

/-- A request needs a context that is ready for it, and the trait has to be one that the trait on
top of the stack may ask for. -/
def Serves.passage (serves : tree.Serves inv depth resolve) : Passage tree resolve where
  Goes := tree.Tour inv
  faults := tree.Faults
  reporting := Tour.reporting tree inv
  Asks := fun cx id => tree.Ready depth cx ∧ tree.Admits cx id
  AtSuper := tree.AtSuperBound
  Head := fun isSuper path cx p? => ∀ id, tree.resolveTraitPath path = .ok id →
    Lowering.HeadKnown tree path id isSuper cx p?
  Lowered := fun isSuper path cx p => tree.LoweredBound cx isSuper path p
  asks := fun tour asked => ⟨tour.trip.ready asked.1, tour.trip.admits asked.2⟩
  atSuper := fun tour super => super.trip tour.trip
  lowered := fun tour known => known.trip tour.trip
  unnamed := fun failed => ⟨nofun, fun _ id named => by rw [failed] at named; cases named⟩
  refused := fun head => ⟨nofun, fun _ => head⟩
  request := fun span asked => (serves _ span _ asked.1 asked.2).mono fun _ _ served => served.1
  head := fun named asked super =>
    (Lowering.boundHead?_tours serves asked.1 named asked.2 super).mono fun _ _ head =>
      ⟨head.1, fun _ named' => Except.ok.inj (named.symm.trans named') ▸ head.2⟩
  finish := fun applied named head tour =>
    Lowering.finishBound_tours named (head _ named).1 ((head _ named).2.trip tour.trip) applied
  admitBound := fun span known => Lowering.admitDynBound_tours known span

/-- What may be asked for at the start of a tour, may be asked for at its end. -/
theorem Serves.asksAll (serves : tree.Serves inv depth resolve) (ready : tree.Ready depth cx)
    {paths : List TypePath} (asked : tree.AdmitsAll cx paths) (tour : tree.Tour inv cx cx₁) :
    serves.passage.AsksAll cx₁ paths :=
  fun id named => ⟨tour.trip.ready ready, tour.trip.admits (asked id named)⟩

/-- A tour goes on across every record. -/
theorem Serves.records (serves : tree.Serves inv depth resolve) (n : NodeId) :
    serves.passage.Records n where
  insertType := fun cx ty => (Tour.refl cx).insertType n ty
  addBounds := fun cx ps => (Tour.refl cx).addBounds n ps

end ItemTree

namespace Lowering

open ItemTree

variable {tree : ItemTree} {inv : Upkeep} {resolve : Resolver} {cx cx₁ : Context} {depth : Nat}
  (scope : Scope)

theorem lowerBound_tours (serves : tree.Serves inv depth resolve) (ready : tree.Ready depth cx)
    (isSuper : Bool) (path : TypePath) (asked : tree.AdmitsAll cx path.mentions)
    (super : isSuper = true → tree.AtSuperBound cx path) (tour : tree.Tour inv cx cx₁) :
    Ends tree.Faults (lowerBound tree resolve scope isSuper path) cx₁ fun p cx₂ =>
      tree.Tour inv cx cx₂ ∧ tree.LoweredBound cx₂ isSuper path p :=
  (serves.passage.lowerBound_goes scope isSuper path (serves.asksAll ready asked tour)
    fun isSuper => (super isSuper).trip tour.trip).mono
    fun _ _ lowered => ⟨tour.trans lowered.1, lowered.2⟩

/-- A bound that is no super-trait may be lowered anywhere. -/
theorem lowerOtherBound_tours (serves : tree.Serves inv depth resolve) (ready : tree.Ready depth cx)
    {path : TypePath} (asked : tree.AdmitsAll cx path.mentions) (tour : tree.Tour inv cx cx₁) :
    Ends tree.Faults (lowerBound tree resolve scope false path) cx₁ fun _ cx₂ =>
      tree.Tour inv cx cx₂ :=
  (lowerBound_tours scope serves ready false path asked nofun tour).mono fun _ _ lowered => lowered.1

theorem lowerBounds_tours (serves : tree.Serves inv depth resolve) (isSuper : Bool) (self : Ty)
    (paths : List TypePath) (ready : tree.Ready depth cx)
    (asked : tree.AdmitsAll cx (paths.flatMap TypePath.mentions))
    (super : isSuper = true → ∀ path ∈ paths, tree.AtSuperBound cx path) :
    Ends tree.Faults (lowerBounds tree resolve scope isSuper self paths) cx fun ps cx' =>
      tree.Tour inv cx cx' ∧ tree.LoweredBounds cx' isSuper paths ps := by
  refine (serves.passage.lowerBounds_goes scope isSuper self paths
    (serves.asksAll ready asked (.refl cx)) super).mono fun ps cx₁ lowered => ?_
  obtain ⟨tour, all, each, rfl⟩ := lowered
  exact ⟨tour, .of_each each self⟩

/-! ## Trips alone -/

theorem lowerBound_ends (resolves : tree.Resolves depth resolve) (ready : tree.Ready depth cx)
    (isSuper : Bool) (path : TypePath) (asked : tree.AdmitsAll cx path.mentions)
    (super : isSuper = true → tree.AtSuperBound cx path) (trip : tree.Trip cx cx₁) :
    Ends tree.Faults (lowerBound tree resolve scope isSuper path) cx₁ fun p cx₂ =>
      tree.Trip cx cx₂ ∧ tree.LoweredBound cx₂ isSuper path p :=
  (lowerBound_tours scope resolves.serves ready isSuper path asked super trip.tour).mono
    fun _ _ lowered => ⟨lowered.1.trip, lowered.2⟩

theorem admitDynBound_ends {path : TypePath} {p : Predicate}
    (known : tree.LoweredBound cx₁ false path p) (trip : tree.Trip cx cx₁) (span : Span) :
    Ends tree.Faults (admitDynBound p span) cx₁ fun _ cx₂ => tree.Trip cx cx₂ := by
  have tours : Ends tree.Faults (admitDynBound p span) cx₁ fun _ cx₂ => tree.Tour .none cx₁ cx₂ :=
    admitDynBound_tours known span
  exact tours.mono fun _ _ tour => trip.trans tour.trip

theorem lowerDynBounds_ends (resolves : tree.Resolves depth resolve) (ready : tree.Ready depth cx)
    (bounds : List TypePath) (asked : tree.AdmitsAll cx (TypeExpr.dynMentions bounds))
    (trip : tree.Trip cx cx₁) :
    Ends tree.Faults (lowerDynBounds tree resolve scope bounds) cx₁ fun _ cx₂ =>
      tree.Trip cx cx₂ :=
  (resolves.serves.passage.lowerDynBounds_goes scope bounds
    (resolves.serves.asksAll ready asked trip.tour)).mono fun _ _ tour => trip.trans tour.trip

end Lowering

end TraitEngine
