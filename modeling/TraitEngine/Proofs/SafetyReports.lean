import TraitEngine.Proofs.Resolved.Violations
import TraitEngine.Proofs.TraitObjects
/-!
# Checks of object safety between two steps

Between two steps of a session, a cached trait is refused behind `dyn` exactly if a trait that is
reachable from it along kept super-traits has an item that offends. The check ends on every graph
of super-traits, and reports one problem at most (`performAll_objectSafe_iff`).

The report names some of the direct super-traits that are refused themselves, not all of them
(`performAll_unsafeSupers_omits`): what one super-trait has visited is not searched again for the
next. It accounts for every offending trait above a direct super-trait. So it names all of those
that are refused if no offending trait is above two of them (`performAll_unsafeSupers`).
-/

namespace TraitEngine

set_option autoImplicit false

open Relation

namespace Context

/-- A cached trait offends by one of its items. -/
theorem offends_iff_item {cx : Context} {id : DefId} {t : TraitRef} (found : cx.trait? id = some t) :
    cx.Offends id ↔ ∃ i ∈ t.items, i.Offends :=
  (offends_iff found).trans t.violations_ne_nil_iff

end Context

namespace TraitRef

open Context

variable {cx : Context} {id : DefId} {t : TraitRef}

/-- A check is a run over the direct super-traits. Without an offending item and with no
super-trait named it leaves the context, and otherwise it reports at most. -/
theorem lists_checkObjectSafety (labelled : cx.Labelled) (t : TraitRef) :
    ∃ listed, Lists cx t.supers [] listed ∧ ∀ emit span, t.checkObjectSafety emit span cx =
      if t.violations = [] ∧ listed = [] then (true, cx)
      else (false, if emit then
        cx.report (.notObjectSafe span t.name t.violations (listed.map TraitRef.name)) else cx) := by
  obtain ⟨listed, run, decided⟩ := lists_objectSafetyProblem? labelled t
  refine ⟨listed, run, fun emit span => ?_⟩
  rw [checkObjectSafety, decided span]
  by_cases fine : t.violations = [] ∧ listed = []
  · rw [if_pos fine, if_pos fine]
  · rw [if_neg fine, if_neg fine]

theorem checkObjectSafety_iff (labelled : cx.Labelled) (found : cx.trait? id = some t) (emit : Bool)
    (span : Span) : (t.checkObjectSafety emit span cx).1 = true ↔ cx.SafeAbove id := by
  rw [← objectSafetyProblem?_eq_none_iff labelled found span, checkObjectSafety]
  cases t.objectSafetyProblem? cx span with
  | none => simp
  | some problem => simp

theorem checkObjectSafety_false_iff (labelled : cx.Labelled) (found : cx.trait? id = some t)
    (emit : Bool) (span : Span) : (t.checkObjectSafety emit span cx).1 = false ↔
      ∃ x, ReflTransGen cx.SuperEdge id x ∧ cx.Offends x := by
  rw [← Bool.not_eq_true, checkObjectSafety_iff labelled found]
  simp only [SafeAbove, not_forall, not_not, exists_prop]

end TraitRef

namespace Session

open Context TraitRef

variable {config : Config} {steps : List Step} {handed : List Problem} {s : Session}

theorem labelled_of_performAll (ran : (ofConfig config).performAll steps = .ok (handed, s)) :
    s.context.Labelled :=
  (performAll_mirroring steps (mirroring_ofConfig config) ran).settled.idle.coherent.labelled

/-- Whether a cached trait offends is seen from its declaration. -/
theorem offends_iff_declared (ran : (ofConfig config).performAll steps = .ok (handed, s))
    {id : DefId} {t : TraitRef} (found : s.context.trait? id = some t) {decl : TraitDecl}
    (declared : s.tree.trait? id = some decl) :
    s.context.Offends id ↔ ∃ item ∈ TraitItem.firsts decl.items, item.Offends := by
  obtain ⟨decl', declared', same⟩ := performAll_violations ran found
  obtain rfl : decl' = decl := Option.some.inj (declared'.symm.trans declared)
  rw [offends_iff found, same, TraitDecl.violations_ne_nil_iff]

/-- After any declarations and requests, a check of a cached trait succeeds exactly if no cached
trait that is reachable from it along super-traits has an offending item: a constant, a function
without a receiver or a method with type parameters of its own. That is seen from the declarations.
The check is a finite run over the direct super-traits, whatever cycles there are. If it succeeds,
or is to be silent, it leaves the context; and otherwise it reports one problem, which is there
once. -/
theorem performAll_objectSafe_iff (config : Config) (steps : List Step) (handed : List Problem)
    (s : Session) (ran : (ofConfig config).performAll steps = .ok (handed, s)) :
    let cx := s.context
    ∀ id t, cx.trait? id = some t →
      (∀ emit span, (t.checkObjectSafety emit span cx).1 = true ↔
        ∀ x u, ReflTransGen cx.SuperEdge id x → cx.trait? x = some u →
          ∀ i ∈ u.items, ¬ i.Offends) ∧
      (∀ emit span, (t.checkObjectSafety emit span cx).1 = true ↔
        ∀ x decl, ReflTransGen cx.SuperEdge id x → x ∈ cx.cache.keys →
          s.tree.trait? x = some decl → ∀ item ∈ TraitItem.firsts decl.items, ¬ item.Offends) ∧
      (∀ span, (t.checkObjectSafety false span cx).2 = cx) ∧
      ∃ listed, Lists cx t.supers [] listed ∧ ∀ emit span,
        ((t.checkObjectSafety emit span cx).1 = true ↔ t.violations = [] ∧ listed = []) ∧
        ((t.checkObjectSafety emit span cx).1 = true →
          (t.checkObjectSafety emit span cx).2 = cx) ∧
        ((t.checkObjectSafety true span cx).1 = false → (t.checkObjectSafety true span cx).2 =
          cx.report (.notObjectSafe span t.name t.violations (listed.map TraitRef.name))) := by
  intro cx id t found
  have labelled : cx.Labelled := labelled_of_performAll ran
  refine ⟨fun emit span => ?_, fun emit span => ?_, fun span => ?_, ?_⟩
  · rw [checkObjectSafety_iff labelled found]
    constructor
    · intro safe x u path found' i mem offends
      exact safe x path ((offends_iff_item found').2 ⟨i, mem, offends⟩)
    · intro fine x path offends
      obtain ⟨u, found'⟩ := cx.exists_trait? offends.mem_cache
      obtain ⟨i, mem, refused⟩ := (offends_iff_item found').1 offends
      exact fine x u path found' i mem refused
  · rw [checkObjectSafety_iff labelled found]
    constructor
    · intro safe x decl path cached declared item mem offends
      obtain ⟨u, found'⟩ := cx.exists_trait? cached
      exact safe x path ((offends_iff_declared ran found' declared).2 ⟨item, mem, offends⟩)
    · intro fine x path offends
      obtain ⟨u, found'⟩ := cx.exists_trait? offends.mem_cache
      obtain ⟨decl, declared, -⟩ := performAll_violations ran found'
      obtain ⟨item, mem, refused⟩ := (offends_iff_declared ran found' declared).1 offends
      exact fine x decl path offends.mem_cache declared item mem refused
  · rw [checkObjectSafety]
    cases t.objectSafetyProblem? cx span <;> rfl
  · obtain ⟨listed, run, decided⟩ := lists_checkObjectSafety labelled t
    refine ⟨listed, run, fun emit span => ?_⟩
    rw [decided emit span, decided true span]
    by_cases fine : t.violations = [] ∧ listed = []
    · simp [fine]
    · simp [fine]

/-- `trait B: M + A {}`, `trait M { fn f<T: A>(&self); }`, `trait A: B {}`, `trait Fine: Finer {}`
and `trait Finer { fn g(&self); }`. `A` and `B` keep each other, and `M` is above both. -/
def guarded : List Step := [
  .declare (.trait "B" [.super (.ofText "M"), .super (.ofText "A")]),
  .declare (.trait "M" [.method "f" [.self .ref, .typeParam "T" [.ofText "A"]]]),
  .declare (.trait "A" [.super (.ofText "B")]),
  .declare (.trait "Fine" [.super (.ofText "Finer")]),
  .declare (.trait "Finer" [.method "g" [.self .ref]]),
  .request (.runPasses [.traits])]

theorem performAll_objectSafe_iff_guarded :
    ∃ handed s a fine, (ofConfig {}).performAll guarded = .ok (handed, s) ∧
      s.context.trait? ⟨2⟩ = some a ∧ s.context.trait? ⟨3⟩ = some fine ∧
      (∀ x u, ReflTransGen s.context.SuperEdge ⟨3⟩ x → s.context.trait? x = some u →
        ∀ i ∈ u.items, ¬ i.Offends) ∧
      (∃ x decl, ReflTransGen s.context.SuperEdge ⟨2⟩ x ∧ s.tree.trait? x = some decl ∧
        ∃ item ∈ TraitItem.firsts decl.items, item.Offends) ∧
      (a.checkObjectSafety false default s.context).2 = s.context ∧
      ∃ listed, Lists s.context a.supers [] listed ∧
        (a.checkObjectSafety true default s.context).2 = s.context.report
          (.notObjectSafe default a.name a.violations (listed.map TraitRef.name)) := by
  have observed : ((ofConfig {}).performAll guarded).toOption.map (fun out => do
      let a ← out.2.context.trait? ⟨2⟩
      let fine ← out.2.context.trait? ⟨3⟩
      return ((a.checkObjectSafety true default out.2.context).1,
        (fine.checkObjectSafety true default out.2.context).1)) = some (some (false, true)) := by
    decide +kernel
  obtain ⟨⟨handed, s⟩, ran, seen⟩ := ok_of_observed observed
  simp only [bind, Option.bind_eq_some_iff, pure, Option.some.injEq, Prod.mk.injEq] at seen
  obtain ⟨a, foundA, fine, foundFine, refused, accepted⟩ := seen
  have checked := performAll_objectSafe_iff {} guarded handed s ran
  obtain ⟨-, declared, silent, listed, run, verdict⟩ := checked ⟨2⟩ a foundA
  refine ⟨handed, s, a, fine, ran, foundA, foundFine, ?_, ?_, silent default, listed, run, ?_⟩
  · exact ((checked ⟨3⟩ fine foundFine).1 true default).1 accepted
  · by_contra none
    have safe := (declared true default).2 fun x decl path _ known item mem offends =>
      none ⟨x, decl, path, known, item, mem, offends⟩
    rw [refused] at safe
    cases safe
  · exact (verdict true default).2.2 refused

/-! ## The super-traits that a report names -/

/-- The report on a cached trait names direct super-traits that are refused themselves, in order.
Every offending trait above a direct super-trait is above one that is named. If no offending trait
is above two of them, a direct super-trait is named exactly if it is refused. -/
theorem performAll_unsafeSupers (config : Config) (steps : List Step) (handed : List Problem)
    (s : Session) (ran : (ofConfig config).performAll steps = .ok (handed, s)) :
    let cx := s.context
    ∀ id t, cx.trait? id = some t → ∃ listed : List TraitRef,
      (∀ span, (t.checkObjectSafety false span cx).1 = false →
        t.checkObjectSafety true span cx = (false, cx.report
          (.notObjectSafe span t.name t.violations (listed.map TraitRef.name)))) ∧
      listed.Sublist (t.supers.filterMap (·.get? cx)) ∧
      (∀ u ∈ listed, ∀ emit span, (u.checkObjectSafety emit span cx).1 = false) ∧
      (∀ a x, TraitsOf t.supers a → ReflTransGen cx.SuperEdge a x → cx.Offends x →
        ∃ b u, u ∈ listed ∧ cx.trait? b = some u ∧ ReflTransGen cx.SuperEdge b x) ∧
      ((∀ a b x, TraitsOf t.supers a → TraitsOf t.supers b → ReflTransGen cx.SuperEdge a x →
          ReflTransGen cx.SuperEdge b x → cx.Offends x → a = b) →
        ∀ u ∈ t.supers.filterMap (·.get? cx),
          u ∈ listed ↔ ∀ emit span, (u.checkObjectSafety emit span cx).1 = false) := by
  intro cx id t found
  have labelled : cx.Labelled := labelled_of_performAll ran
  obtain ⟨listed, run, decided⟩ := lists_checkObjectSafety labelled t
  have refused : ∀ u ∈ listed, ∀ emit span, (u.checkObjectSafety emit span cx).1 = false := by
    intro u mem emit span
    obtain ⟨b, x, -, found, path, offends⟩ := run.offends labelled u mem
    exact (checkObjectSafety_false_iff labelled found emit span).2 ⟨x, path, offends⟩
  have accounts : ∀ a x, TraitsOf t.supers a → ReflTransGen cx.SuperEdge a x → cx.Offends x →
      ∃ b u, u ∈ listed ∧ cx.trait? b = some u ∧ ReflTransGen cx.SuperEdge b x := by
    intro a x root path offends
    have covered : cx.Covered (fun _ => False) [] := fun _ mem => absurd mem List.not_mem_nil
    obtain ⟨b, blame | ⟨u, mem, found⟩, below⟩ := run.accounts labelled covered root path offends
    · exact blame.elim
    · exact ⟨b, u, mem, found, below⟩
  refine ⟨listed, fun span refusal => ?_, run.sublist, refused, accounts, ?_⟩
  · rw [decided] at refusal ⊢
    by_cases fine : t.violations = [] ∧ listed = []
    · rw [if_pos fine] at refusal
      cases refusal
    · rw [if_neg fine]
      rfl
  · intro apart u direct
    refine ⟨fun mem => refused u mem, fun refused => ?_⟩
    obtain ⟨p, written, cached⟩ := List.mem_filterMap.1 direct
    obtain ⟨a, own, found⟩ := Option.bind_eq_some_iff.1 cached
    have root : TraitsOf t.supers a := ⟨p, written, own⟩
    obtain ⟨x, path, offends⟩ :=
      (checkObjectSafety_false_iff labelled found true default).1 (refused true default)
    -- The super-trait that accounts for the offending trait is this one.
    obtain ⟨b, v, mem, found', below⟩ := accounts a x root path offends
    obtain ⟨b', -, root', found'', -⟩ := run.offends labelled v mem
    obtain rfl : b' = b := by
      have first := labelled b' v found''
      rw [labelled b v found'] at first
      exact (Option.some.inj first).symm
    obtain rfl := apart a b' x root root' path below offends
    cases found.symm.trans found'
    exact mem

/-- `trait M { const N: u8; }`, `trait P: M {}`, `trait Q { fn make(); }`, `trait R {}` and
`trait S: P + R + Q {}`. -/
def apart : List Step := [
  .declare (.trait "M" [.assocConst "N" (.path (.ofText "u8")) none]),
  .declare (.trait "P" [.super (.ofText "M")]),
  .declare (.trait "Q" [.method "make" []]),
  .declare (.trait "R" []),
  .declare (.trait "S" [.super (.ofText "P"), .super (.ofText "R"), .super (.ofText "Q")]),
  .request (.runPasses [.traits])]

/-- `M` is above `P` only, and `Q` offends by itself. -/
theorem performAll_unsafeSupers_apart :
    ∃ handed s t p q, ∃ listed : List TraitRef, (ofConfig {}).performAll apart = .ok (handed, s) ∧
      s.context.trait? ⟨4⟩ = some t ∧ s.context.trait? ⟨1⟩ = some p ∧
      s.context.trait? ⟨2⟩ = some q ∧ p ∈ listed ∧ q ∈ listed ∧
      t.checkObjectSafety true default s.context = (false, s.context.report
        (.notObjectSafe default t.name t.violations (listed.map TraitRef.name))) := by
  have graph : ((ofConfig {}).performAll apart).toOption.map (fun out => do
      let t ← out.2.context.trait? ⟨4⟩
      return (t.supers.map Predicate.trait,
        [⟨0⟩, ⟨1⟩, ⟨2⟩, ⟨3⟩].map out.2.context.superIds)) =
      some (some ([some ⟨1⟩, some ⟨3⟩, some ⟨2⟩], [[], [⟨0⟩], [], []])) := by
    decide +kernel
  have verdicts : ((ofConfig {}).performAll apart).toOption.map (fun out => do
      let t ← out.2.context.trait? ⟨4⟩
      let p ← out.2.context.trait? ⟨1⟩
      let q ← out.2.context.trait? ⟨2⟩
      return ([t, p, q].map fun u => (u.checkObjectSafety false default out.2.context).1,
        [p, q].map fun u => decide (u ∈ t.supers.filterMap (·.get? out.2.context)))) =
      some (some ([false, false, false], [true, true])) := by
    decide +kernel
  obtain ⟨⟨handed, s⟩, ran, seen⟩ := ok_of_observed graph
  simp only [ran, Except.toOption, Option.map_some, bind, Option.bind_eq_some_iff, pure,
    Option.some.injEq, Prod.mk.injEq] at seen verdicts
  obtain ⟨t, foundT, supers, above⟩ := seen
  obtain ⟨t', foundT', p, foundP, q, foundQ, verdicts, direct⟩ := verdicts
  cases foundT.symm.trans foundT'
  simp only [List.map_cons, List.map_nil, List.cons.injEq, and_true, decide_eq_true_eq]
    at above verdicts direct
  obtain ⟨above₀, above₁, above₂, above₃⟩ := above
  obtain ⟨listed, reported, -, -, -, named⟩ :=
    performAll_unsafeSupers {} apart handed s ran ⟨4⟩ t foundT
  have start : ∀ a, TraitsOf t.supers a → a = ⟨1⟩ ∨ a = ⟨3⟩ ∨ a = ⟨2⟩ := by
    intro a root
    have mem : some a ∈ t.supers.map Predicate.trait := List.mem_map.2 root
    simpa [supers] using mem
  -- Only `M` is above one of them, and it is above `P`.
  have reached : ∀ a x, TraitsOf t.supers a → ReflTransGen s.context.SuperEdge a x →
      x = a ∨ x = ⟨0⟩ ∧ a = ⟨1⟩ := by
    intro a x root path
    induction path with
    | refl => exact Or.inl rfl
    | tail path edge ih =>
        rw [SuperEdge] at edge
        rcases ih with rfl | ⟨rfl, -⟩
        · rcases start _ root with rfl | rfl | rfl <;> simp_all
        · simp [above₀] at edge
  have apart : ∀ a b x, TraitsOf t.supers a → TraitsOf t.supers b →
      ReflTransGen s.context.SuperEdge a x → ReflTransGen s.context.SuperEdge b x →
      s.context.Offends x → a = b := by
    intro a b x rootA rootB pathA pathB _
    have outside : ¬ TraitsOf t.supers ⟨0⟩ := fun root => by simpa using start _ root
    rcases reached a x rootA pathA with rfl | ⟨rfl, rfl⟩
    · rcases reached b _ rootB pathB with same | ⟨rfl, -⟩
      · exact same
      · exact absurd rootA outside
    · rcases reached b _ rootB pathB with rfl | ⟨-, rfl⟩
      · exact absurd rootB outside
      · rfl
  have refused {id : DefId} {u : TraitRef} (found : s.context.trait? id = some u)
      (verdict : (u.checkObjectSafety false default s.context).1 = false) (emit : Bool)
      (span : Span) : (u.checkObjectSafety emit span s.context).1 = false := by
    have labelled := labelled_of_performAll ran
    rw [checkObjectSafety_false_iff labelled found] at verdict ⊢
    exact verdict
  refine ⟨handed, s, t, p, q, listed, ran, foundT, foundP, foundQ, ?_, ?_,
    reported default verdicts.1⟩
  · exact (named apart p direct.1).2 (refused foundP verdicts.2.1)
  · exact (named apart q direct.2).2 (refused foundQ verdicts.2.2)

/-- `trait M { const N: u8; }`, `trait P: M {}`, `trait Q: M {}` and `trait S: P + Q {}`. -/
def shared : List Step := [
  .declare (.trait "M" [.assocConst "N" (.path (.ofText "u8")) none]),
  .declare (.trait "P" [.super (.ofText "M")]),
  .declare (.trait "Q" [.super (.ofText "M")]),
  .declare (.trait "S" [.super (.ofText "P"), .super (.ofText "Q")]),
  .request (.runPasses [.traits])]

/-- `Q` is a direct super-trait of `S` and refused on its own, but the report names `P` only: the
search above `P` has visited `M` already. -/
theorem performAll_unsafeSupers_omits :
    ∃ handed s t q, (ofConfig {}).performAll shared = .ok (handed, s) ∧
      s.context.trait? ⟨3⟩ = some t ∧ s.context.trait? ⟨2⟩ = some q ∧
      q ∈ t.supers.filterMap (·.get? s.context) ∧
      (q.checkObjectSafety false default s.context).1 = false ∧
      t.checkObjectSafety true default s.context =
        (false, s.context.report (.notObjectSafe default "S" [] ["P"])) := by
  have observed : ((ofConfig {}).performAll shared).toOption.map (fun out => do
      let t ← out.2.context.trait? ⟨3⟩
      let q ← out.2.context.trait? ⟨2⟩
      return (decide (q ∈ t.supers.filterMap (·.get? out.2.context)),
        (q.checkObjectSafety false default out.2.context).1,
        t.objectSafetyProblem? out.2.context default)) =
      some (some (true, false, some (.notObjectSafe default "S" [] ["P"]))) := by
    decide +kernel
  obtain ⟨⟨handed, s⟩, ran, seen⟩ := ok_of_observed observed
  simp only [bind, Option.bind_eq_some_iff, pure, Option.some.injEq, Prod.mk.injEq] at seen
  obtain ⟨t, foundT, q, foundQ, direct, refused, reported⟩ := seen
  refine ⟨handed, s, t, q, ran, foundT, foundQ, of_decide_eq_true direct, refused, ?_⟩
  simp only [checkObjectSafety, reported, if_true]

end Session

end TraitEngine
