import TraitEngine.Proofs.SuperSearch
/-!
# Object safety along super-traits

The check of object safety is a search for an offending trait along the cached super-traits.

* `TraitRef.Sweeps` is the search above one trait without a bound on its depth: a derivation is a
  finite run of it. The bounded search follows one (`sweeps_safeAbove`), so the bound cuts nothing
  off and the search ends, on cycles too.
* `TraitRef.Lists` is the run of a check over the direct super-traits. What one of them visits is
  not searched again for the next, also if the search stopped in the middle of it. So not every
  super-trait that leads to an offending trait is named, but each offending trait above one of them
  is above one that is named (`Lists.accounts`).
* Hence a trait is refused exactly if an offending trait is reachable from it, whatever cycles and
  shared ancestors there are (`objectSafetyProblem?_eq_none_iff`).
-/

namespace TraitEngine

set_option autoImplicit false

open Relation

namespace Context

/-- The cached trait has items that keep it from standing behind `dyn`. -/
def Offends (cx : Context) (id : DefId) : Prop :=
  ∃ t, cx.trait? id = some t ∧ t.violations ≠ []

/-- No trait at or above `id` offends. -/
def SafeAbove (cx : Context) (id : DefId) : Prop :=
  ∀ x, ReflTransGen cx.SuperEdge id x → ¬ cx.Offends x

variable {cx : Context} {seen : List DefId}

theorem Offends.mem_cache {id : DefId} (h : cx.Offends id) : id ∈ cx.cache.keys := by
  obtain ⟨t, found, -⟩ := h
  exact Table.mem_keys_of_get? found

theorem offends_iff {id : DefId} {t : TraitRef} (found : cx.trait? id = some t) :
    cx.Offends id ↔ t.violations ≠ [] := by
  constructor
  · rintro ⟨t', found', offends⟩
    cases found.symm.trans found'
    exact offends
  · intro offends
    exact ⟨t, found, offends⟩

end Context

/-! ## Runs -/

namespace TraitRef

section

variable (cx : Context)

mutual

/-- A run of the search for an offending trait at or above a trait: the traits visited before,
whether there was none, and the traits visited in the end. -/
inductive Sweeps : TraitRef → List DefId → Bool × List DefId → Prop where
  | visited {t : TraitRef} {id : DefId} {seen : List DefId} (own : t.id = some id)
      (mem : id ∈ seen) : Sweeps t seen (true, seen)
  | offends {t : TraitRef} {id : DefId} {seen : List DefId} (own : t.id = some id)
      (new : id ∉ seen) (offends : t.violations ≠ []) : Sweeps t seen (false, id :: seen)
  | above {t : TraitRef} {id : DefId} {seen : List DefId} {out : Bool × List DefId}
      (own : t.id = some id) (new : id ∉ seen) (fine : t.violations = [])
      (supers : SweepsAll t.supers (id :: seen) out) : Sweeps t seen out

/-- A run of the search from some super-traits, up to the first that leads to an offending
trait. -/
inductive SweepsAll : List Predicate → List DefId → Bool × List DefId → Prop where
  | nil {seen : List DefId} : SweepsAll [] seen (true, seen)
  | skip {p : Predicate} {ps : List Predicate} {seen : List DefId} {out : Bool × List DefId}
      (missing : p.get? cx = none) (rest : SweepsAll ps seen out) : SweepsAll (p :: ps) seen out
  | stop {p : Predicate} {ps : List Predicate} {s : TraitRef} {seen seen' : List DefId}
      (cached : p.get? cx = some s) (first : Sweeps s seen (false, seen')) :
      SweepsAll (p :: ps) seen (false, seen')
  | next {p : Predicate} {ps : List Predicate} {s : TraitRef} {seen seen' : List DefId}
      {out : Bool × List DefId} (cached : p.get? cx = some s)
      (first : Sweeps s seen (true, seen')) (rest : SweepsAll ps seen' out) :
      SweepsAll (p :: ps) seen out

end

/-- A run of a check over the direct super-traits, and those that it names. -/
inductive Lists : List Predicate → List DefId → List TraitRef → Prop where
  | nil {seen : List DefId} : Lists [] seen []
  | skip {p : Predicate} {ps : List Predicate} {seen : List DefId} {listed : List TraitRef}
      (missing : p.get? cx = none) (rest : Lists ps seen listed) : Lists (p :: ps) seen listed
  | clear {p : Predicate} {ps : List Predicate} {s : TraitRef} {seen seen' : List DefId}
      {listed : List TraitRef} (cached : p.get? cx = some s)
      (sweep : Sweeps cx s seen (true, seen')) (rest : Lists ps seen' listed) :
      Lists (p :: ps) seen listed
  | named {p : Predicate} {ps : List Predicate} {s : TraitRef} {seen seen' : List DefId}
      {listed : List TraitRef} (cached : p.get? cx = some s)
      (sweep : Sweeps cx s seen (false, seen')) (rest : Lists ps seen' listed) :
      Lists (p :: ps) seen (s :: listed)

end

open Context

variable {cx : Context}

mutual

theorem Sweeps.grows : ∀ {t : TraitRef} {seen : List DefId} {out : Bool × List DefId},
    Sweeps cx t seen out → seen ⊆ out.2
  | _, _, _, .visited .. => List.Subset.refl _
  | _, _, _, .offends .. => List.subset_cons_self _ _
  | _, _, _, .above _ _ _ supers => List.Subset.trans (List.subset_cons_self _ _) supers.grows

theorem SweepsAll.grows : ∀ {ps : List Predicate} {seen : List DefId} {out : Bool × List DefId},
    SweepsAll cx ps seen out → seen ⊆ out.2
  | _, _, _, .nil => List.Subset.refl _
  | _, _, _, .skip _ rest => rest.grows
  | _, _, _, .stop _ first => first.grows
  | _, _, _, .next _ first rest => List.Subset.trans first.grows rest.grows

end

mutual

/-- What a run visits is above the trait that it starts from. -/
theorem Sweeps.visits (labelled : cx.Labelled) : ∀ {t : TraitRef} {id : DefId} {seen : List DefId}
    {out : Bool × List DefId}, Sweeps cx t seen out → cx.trait? id = some t →
    ∀ y ∈ out.2, y ∈ seen ∨ ReflTransGen cx.SuperEdge id y
  | _, _, _, _, .visited .., _, _, mem => Or.inl mem
  | t, id, _, _, .offends own _ _, found, y, mem => by
      cases own.symm.trans (labelled id t found)
      rcases List.mem_cons.1 mem with rfl | mem
      · exact Or.inr .refl
      · exact Or.inl mem
  | t, id, _, _, .above own _ _ supers, found, y, mem => by
      have above := supers.visits labelled y mem
      cases own.symm.trans (labelled id t found)
      rcases above with mem | ⟨b, root, path⟩
      · rcases List.mem_cons.1 mem with rfl | mem
        · exact Or.inr .refl
        · exact Or.inl mem
      · exact Or.inr (.head (superEdge_iff.2 ⟨t, found, root⟩) path)

theorem SweepsAll.visits (labelled : cx.Labelled) : ∀ {ps : List Predicate}
    {seen : List DefId} {out : Bool × List DefId}, SweepsAll cx ps seen out →
    ∀ y ∈ out.2, y ∈ seen ∨ ∃ b, TraitsOf ps b ∧ ReflTransGen cx.SuperEdge b y
  | _, _, _, .nil, _, mem => Or.inl mem
  | p :: ps, _, _, .skip _ rest, y, mem =>
      (rest.visits labelled y mem).imp_right fun ⟨b, root, path⟩ =>
        ⟨b, traitsOf_cons.1 (Or.inr root), path⟩
  | p :: ps, _, _, .stop cached first, y, mem => by
      obtain ⟨id, own, found⟩ := Option.bind_eq_some_iff.1 cached
      exact (first.visits labelled found y mem).imp_right fun path =>
        ⟨id, traitsOf_cons.1 (Or.inl own), path⟩
  | p :: ps, _, _, .next cached first rest, y, mem => by
      obtain ⟨id, own, found⟩ := Option.bind_eq_some_iff.1 cached
      rcases rest.visits labelled y mem with mem | ⟨b, root, path⟩
      · exact (first.visits labelled found y mem).imp_right fun path =>
          ⟨id, traitsOf_cons.1 (Or.inl own), path⟩
      · exact Or.inr ⟨b, traitsOf_cons.1 (Or.inr root), path⟩

end

mutual

theorem Sweeps.searched (labelled : cx.Labelled) : ∀ {t : TraitRef} {id : DefId} {seen : List DefId}
    {out : Bool × List DefId}, Sweeps cx t seen out → cx.trait? id = some t →
    cx.Searched cx.Offends (· = id) seen out
  | t, id, seen, _, .visited own mem, found => by
      cases own.symm.trans (labelled id t found)
      exact .clear (fun other _ same => same ▸ mem) (.refl seen)
  | _, _, _, _, .offends _ _ offends, found => .found rfl .refl ((offends_iff found).2 offends)
  | t, id, _, _, .above own _ fine supers, found => by
      have above := supers.searched labelled
      cases own.symm.trans (labelled id t found)
      refine .visit found ?_ above
      rw [offends_iff found]
      exact not_not_intro fine

theorem SweepsAll.searched (labelled : cx.Labelled) : ∀ {ps : List Predicate} {seen : List DefId}
    {out : Bool × List DefId}, SweepsAll cx ps seen out →
    cx.Searched cx.Offends (TraitsOf ps) seen out
  | _, seen, _, .nil => .nil seen
  | _, seen, _, .skip missing rest => .cons (.skip missing seen) (rest.searched labelled)
  | p :: ps, _, _, .stop cached first => by
      obtain ⟨id, own, found⟩ := Option.bind_eq_some_iff.1 cached
      cases first.searched labelled found with
      | found root path here =>
          subst root
          exact .found (traitsOf_cons.1 (Or.inl own)) path here
  | p :: ps, _, _, .next cached first rest => by
      obtain ⟨id, own, found⟩ := Option.bind_eq_some_iff.1 cached
      exact .cons ((first.searched labelled found).congr fun other => by simp [own, eq_comm])
        (rest.searched labelled)

end

/-! ## The bounded search -/

/-- A list is searched by runs from its elements. -/
theorem sweepsAll_allVisiting {f : Predicate → List DefId → Bool × List DefId} {depth : Nat}
    (skip : ∀ p seen, p.get? cx = none → f p seen = (true, seen))
    (step : ∀ p s seen, p.get? cx = some s → cx.unseen seen < depth → Sweeps cx s seen (f p seen)) :
    ∀ (ps : List Predicate) (seen : List DefId), cx.unseen seen < depth →
      SweepsAll cx ps seen (allVisiting f ps seen)
  | [], _, _ => .nil
  | p :: ps, seen, few => by
      rw [allVisiting]
      cases cached : p.get? cx with
      | none =>
          rw [skip p seen cached]
          exact .skip cached (sweepsAll_allVisiting skip step ps seen few)
      | some s =>
          have first := step p s seen cached few
          generalize f p seen = out at first
          obtain ⟨safe, seen'⟩ := out
          cases safe with
          | false => exact .stop cached first
          | true =>
              have few' : cx.unseen seen' < depth := by
                have less := cx.unseen_anti first.grows
                simp only at less
                omega
              exact .next cached first (sweepsAll_allVisiting skip step ps seen' few')

/-- As long as the bound on the depth is above the number of cached traits that are not yet
visited, the search is the one without a bound. -/
theorem sweeps_safeAbove (labelled : cx.Labelled) (depth : Nat) :
    ∀ {id : DefId} {t : TraitRef} (seen : List DefId), cx.trait? id = some t →
      cx.unseen seen < depth → Sweeps cx t seen (t.safeAbove cx depth seen) := by
  induction depth with
  | zero =>
      intro id t seen _ few
      omega
  | succ depth ih =>
      intro id t seen found few
      have own : t.id = some id := labelled id t found
      simp only [safeAbove, own, Option.any_some, decide_eq_true_eq, Option.toList_some,
        List.singleton_append]
      by_cases mem : id ∈ seen
      · rw [if_pos mem]
        exact .visited own mem
      · rw [if_neg mem]
        by_cases fine : t.violations = []
        · -- A new trait takes one off the depth, and one off those not yet visited.
          have few' : cx.unseen (id :: seen) < depth := by
            have := unseen_cons_lt (Table.mem_keys_of_get? found) mem
            omega
          simp only [fine, List.isEmpty_nil, Bool.not_true, Bool.false_eq_true, if_false]
          refine .above own mem fine (sweepsAll_allVisiting ?_ ?_ t.supers _ few')
          · intro p seen missing
            rw [missing]
          · intro p s seen cached few
            obtain ⟨super, -, found⟩ := Option.bind_eq_some_iff.1 cached
            rw [cached]
            exact ih seen found few
        · rw [if_pos (by simpa using fine)]
          exact .offends own mem fine

theorem lists_unsafeSupers (labelled : cx.Labelled) : ∀ (ps : List Predicate)
    (seen : List DefId), ∃ listed, Lists cx ps seen listed ∧
      unsafeSupers cx ps seen = listed.map TraitRef.name
  | [], _ => ⟨[], .nil, rfl⟩
  | p :: ps, seen => by
      cases cached : p.get? cx with
      | none =>
          obtain ⟨listed, run, names⟩ := lists_unsafeSupers labelled ps seen
          exact ⟨listed, .skip cached run, by simpa only [unsafeSupers, cached] using names⟩
      | some s =>
          have few : cx.unseen seen < cx.cache.size + 1 := by
            have := cx.unseen_anti (List.nil_subset seen)
            rw [unseen_nil] at this
            omega
          obtain ⟨id, -, found⟩ := Option.bind_eq_some_iff.1 cached
          have sweep := sweeps_safeAbove labelled (cx.cache.size + 1) seen found few
          simp only [unsafeSupers, cached]
          generalize s.safeAbove cx (cx.cache.size + 1) seen = out at sweep
          obtain ⟨safe, seen'⟩ := out
          obtain ⟨listed, run, names⟩ := lists_unsafeSupers labelled ps seen'
          cases safe with
          | false =>
              refine ⟨s :: listed, .named cached sweep run, ?_⟩
              rw [List.map_cons, ← names]
              rfl
          | true => exact ⟨listed, .clear cached sweep run, names⟩

end TraitRef

namespace Context

variable {cx : Context} {seen seen' : List DefId}

theorem searched_safeAbove (labelled : cx.Labelled) (depth : Nat) {id : DefId} {t : TraitRef}
    (seen : List DefId) (found : cx.trait? id = some t) (few : cx.unseen seen < depth) :
    cx.Searched cx.Offends (· = id) seen (t.safeAbove cx depth seen) :=
  (TraitRef.sweeps_safeAbove labelled depth seen found few).searched labelled found

/-! ## What a report accounts for -/

/-- Each visited trait is above one that is to blame, or it does not offend and the cached traits
right above it are visited. -/
def Covered (cx : Context) (blamed : DefId → Prop) (seen : List DefId) : Prop :=
  ∀ y ∈ seen, (∃ b, blamed b ∧ ReflTransGen cx.SuperEdge b y) ∨
    ¬ cx.Offends y ∧ ∀ z, cx.SuperEdge y z → z ∈ cx.cache.keys → z ∈ seen

variable {blamed : DefId → Prop}

/-- Every offending trait above a visited one is above one that is to blame. -/
theorem Covered.blames (h : cx.Covered blamed seen) {a x : DefId} (mem : a ∈ seen)
    (path : ReflTransGen cx.SuperEdge a x) (offends : cx.Offends x) :
    ∃ b, blamed b ∧ ReflTransGen cx.SuperEdge b x := by
  induction path using ReflTransGen.head_induction_on with
  | refl => exact (h x mem).resolve_right fun fine => fine.1 offends
  | @head y z edge path ih =>
      rcases h y mem with ⟨b, blame, below⟩ | ⟨-, closed⟩
      · exact ⟨b, blame, below.trans (.head edge path)⟩
      · have cached : z ∈ cx.cache.keys := by
          cases path using ReflTransGen.head_induction_on with
          | refl => exact offends.mem_cache
          | head edge _ => exact mem_cache_of_superEdge edge
        exact ih (closed z edge cached)

/-- A search without a find leaves everything covered. -/
theorem Covered.explored (h : cx.Covered blamed seen)
    (explored : cx.Explored cx.Offends seen seen') : cx.Covered blamed seen' := by
  intro y mem
  by_cases old : y ∈ seen
  · refine (h y old).imp_right fun ⟨fine, closed⟩ => ⟨fine, fun z edge cached => ?_⟩
    exact explored.grows (closed z edge cached)
  · exact Or.inr ⟨explored.misses y mem old, explored.closed y mem old⟩

/-- For what a search has visited before it found something, its root may be blamed. -/
theorem Covered.blame (h : cx.Covered blamed seen) (grows : seen ⊆ seen') {a : DefId}
    (above : ∀ y ∈ seen', y ∈ seen ∨ ReflTransGen cx.SuperEdge a y) :
    cx.Covered (fun b => blamed b ∨ b = a) seen' := by
  intro y mem
  rcases above y mem with old | path
  · rcases h y old with ⟨b, blame, below⟩ | ⟨fine, closed⟩
    · exact Or.inl ⟨b, Or.inl blame, below⟩
    · exact Or.inr ⟨fine, fun z edge cached => grows (closed z edge cached)⟩
  · exact Or.inl ⟨a, Or.inr rfl, path⟩

end Context

namespace TraitRef

open Context

variable {cx : Context} {id : DefId} {t : TraitRef} {ps : List Predicate} {seen : List DefId}
  {listed : List TraitRef}

/-- What is named is cached and leads to an offending trait. -/
theorem Lists.offends (run : Lists cx ps seen listed) (labelled : cx.Labelled) :
    ∀ s ∈ listed, ∃ b x, TraitsOf ps b ∧ cx.trait? b = some s ∧
      ReflTransGen cx.SuperEdge b x ∧ cx.Offends x := by
  induction run with
  | nil => exact fun _ mem => absurd mem List.not_mem_nil
  | skip _ _ ih | clear _ _ _ ih =>
      intro s mem
      obtain ⟨b, x, root, known⟩ := ih s mem
      exact ⟨b, x, traitsOf_cons.1 (Or.inr root), known⟩
  | named cached sweep _ ih =>
      intro s mem
      rcases List.mem_cons.1 mem with rfl | mem
      · obtain ⟨id, own, found⟩ := Option.bind_eq_some_iff.1 cached
        cases sweep.searched labelled found with
        | found root path here =>
            subst root
            exact ⟨_, _, traitsOf_cons.1 (Or.inl own), found, path, here⟩
      · obtain ⟨b, x, root, known⟩ := ih s mem
        exact ⟨b, x, traitsOf_cons.1 (Or.inr root), known⟩

/-- What is named stands among the super-traits, in their order. -/
theorem Lists.sublist (run : Lists cx ps seen listed) :
    listed.Sublist (ps.filterMap (·.get? cx)) := by
  induction run with
  | nil => exact .slnil
  | skip missing _ ih =>
      rw [List.filterMap_cons, missing]
      exact ih
  | clear cached _ _ ih =>
      rw [List.filterMap_cons, cached]
      exact ih.cons _
  | named cached _ _ ih =>
      rw [List.filterMap_cons, cached]
      exact ih.cons_cons _

/-- Every offending trait above one of the super-traits is above one that is named, or above one
that was to blame before. -/
theorem Lists.accounts (run : Lists cx ps seen listed) (labelled : cx.Labelled) :
    ∀ {blamed : DefId → Prop}, cx.Covered blamed seen →
    ∀ {a x : DefId}, TraitsOf ps a → ReflTransGen cx.SuperEdge a x → cx.Offends x →
      ∃ b, (blamed b ∨ ∃ s ∈ listed, cx.trait? b = some s) ∧ ReflTransGen cx.SuperEdge b x := by
  induction run with
  | nil =>
      rintro _ _ a x ⟨p, mem, -⟩
      exact absurd mem List.not_mem_nil
  -- The trait is not cached, so nothing is known to be above it.
  | skip missing _ ih =>
      intro blamed covered a x root path offends
      rcases traitsOf_cons.2 root with own | root
      · have cached : a ∈ cx.cache.keys := by
          cases path using ReflTransGen.head_induction_on with
          | refl => exact offends.mem_cache
          | head edge _ => exact mem_cache_of_superEdge edge
        have uncached : cx.trait? a = none := by simpa [Predicate.get?, own] using missing
        exact absurd cached (Table.get?_eq_none_iff.1 uncached)
      · exact ih covered root path offends
  -- All that the search has reached is expanded, or is accounted for by one that was to blame.
  | clear cached sweep _ ih =>
      intro blamed covered a x root path offends
      obtain ⟨id, own, found⟩ := Option.bind_eq_some_iff.1 cached
      cases sweep.searched labelled found with
      | clear reached explored =>
          have covered' := covered.explored explored
          rcases traitsOf_cons.2 root with own' | root
          · obtain rfl : id = a := Option.some.inj (own.symm.trans own')
            have mem := reached id (Table.mem_keys_of_get? found) rfl
            obtain ⟨b, blame, below⟩ := covered'.blames mem path offends
            exact ⟨b, Or.inl blame, below⟩
          · exact ih covered' root path offends
  -- What a search that finds something leaves unexpanded is above the trait that it names.
  | named cached sweep _ ih =>
      intro blamed covered a x root path offends
      obtain ⟨id, own, found⟩ := Option.bind_eq_some_iff.1 cached
      rcases traitsOf_cons.2 root with own' | root
      · obtain rfl : id = a := Option.some.inj (own.symm.trans own')
        exact ⟨id, Or.inr ⟨_, List.mem_cons_self, found⟩, path⟩
      · have covered' := covered.blame sweep.grows (sweep.visits labelled found)
        obtain ⟨b, blame, below⟩ := ih covered' root path offends
        rcases blame with (blame | rfl) | ⟨s, mem, found'⟩
        · exact ⟨b, Or.inl blame, below⟩
        · exact ⟨b, Or.inr ⟨_, List.mem_cons_self, found⟩, below⟩
        · exact ⟨b, Or.inr ⟨s, List.mem_cons_of_mem _ mem, found'⟩, below⟩

/-! ## The check -/

/-- The check is a run over the direct super-traits, and its report names what the run names. -/
theorem lists_objectSafetyProblem? (labelled : cx.Labelled) (t : TraitRef) :
    ∃ listed, Lists cx t.supers [] listed ∧ ∀ span, t.objectSafetyProblem? cx span =
      if t.violations = [] ∧ listed = [] then none
      else some (.notObjectSafe span t.name t.violations (listed.map TraitRef.name)) := by
  obtain ⟨listed, run, names⟩ := lists_unsafeSupers labelled t.supers []
  refine ⟨listed, run, fun span => ?_⟩
  simp only [objectSafetyProblem?, names, Bool.and_eq_true, List.isEmpty_iff, List.map_eq_nil_iff]

/-- From a trait without offending items an offending trait is reached through a super-trait. -/
theorem superEdge_of_offends (found : cx.trait? id = some t) (fine : t.violations = [])
    {x : DefId} (path : ReflTransGen cx.SuperEdge id x) (offends : cx.Offends x) :
    ∃ b, TraitsOf t.supers b ∧ ReflTransGen cx.SuperEdge b x := by
  cases path using ReflTransGen.head_induction_on with
  | refl => exact absurd fine ((offends_iff found).1 offends)
  | @head _ b edge path =>
      obtain ⟨t', found', root⟩ := superEdge_iff.1 edge
      cases found.symm.trans found'
      exact ⟨b, root, path⟩

/-- A trait is refused behind `dyn` exactly if it or a trait above it offends. -/
theorem objectSafetyProblem?_eq_none_iff (labelled : cx.Labelled) (found : cx.trait? id = some t)
    (span : Span) : t.objectSafetyProblem? cx span = none ↔ cx.SafeAbove id := by
  obtain ⟨listed, run, decided⟩ := lists_objectSafetyProblem? labelled t
  have silent : t.objectSafetyProblem? cx span = none ↔ t.violations = [] ∧ listed = [] := by
    rw [decided span]
    split <;> simp_all
  rw [silent]
  constructor
  · rintro ⟨fine, rfl⟩ x path offends
    obtain ⟨b, root, path⟩ := superEdge_of_offends found fine path offends
    have covered : cx.Covered (fun _ => False) [] := fun _ mem => absurd mem List.not_mem_nil
    obtain ⟨b, blame | ⟨s, mem, -⟩, -⟩ := run.accounts labelled covered root path offends
    · exact blame
    · exact List.not_mem_nil mem
  · intro above
    constructor
    · by_contra offends
      exact above id .refl ((offends_iff found).2 offends)
    · refine List.eq_nil_iff_forall_not_mem.2 fun s mem => ?_
      obtain ⟨b, x, root, -, path, offends⟩ := run.offends labelled s mem
      exact above x (.head (superEdge_iff.2 ⟨t, found, root⟩) path) offends

/-- The report carries the trait's own offending items. -/
theorem objectSafetyProblem?_some {span : Span} {problem : Problem}
    (h : t.objectSafetyProblem? cx span = some problem) :
    ∃ supers, problem = .notObjectSafe span t.name t.violations supers := by
  simp only [objectSafetyProblem?] at h
  split at h <;> cases h
  exact ⟨_, rfl⟩

end TraitRef

end TraitEngine
