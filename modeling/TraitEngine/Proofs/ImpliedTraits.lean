import TraitEngine.Proofs.Resolved.Sessions
import TraitEngine.Proofs.TraitObjects
/-!
# Implied traits

A trait implies another one if that is reachable along the super-traits which the cached traits
have kept. `TraitRef.satisfies` decides it by a depth-first search that shares its list of
visited traits between all branches, and whose depth is bounded by the size of the cache.

* `TraitRef.Seeks` is the same search without a bound: a derivation is a finite run of it. The
  bounded search follows one from every cached trait (`seeks_reaches`), so the bound cuts
  nothing off and the search ends, on cycles too.
* A run from a cached trait is a search in the sense of `Context.Searched` (`Seeks.searched`),
  so what was visited earlier hides nothing.
-/

namespace TraitEngine

set_option autoImplicit false

open Relation

namespace TraitRef

section

variable (cx : Context) (goal : TraitRef)

mutual

/-- A run of the search for `goal` from a trait: the traits visited before, the answer and the
traits visited in the end. -/
inductive Seeks : TraitRef → List DefId → Bool × List DefId → Prop where
  | here {t : TraitRef} {seen : List DefId} (same : t.isEqual goal = true) :
      Seeks t seen (true, seen)
  | unnamed {t : TraitRef} {seen : List DefId} (other : t.isEqual goal = false)
      (nameless : t.id = none) : Seeks t seen (false, seen)
  | visited {t : TraitRef} {id : DefId} {seen : List DefId} (other : t.isEqual goal = false)
      (own : t.id = some id) (mem : id ∈ seen) : Seeks t seen (false, seen)
  | above {t : TraitRef} {id : DefId} {seen : List DefId} {out : Bool × List DefId}
      (other : t.isEqual goal = false) (own : t.id = some id) (new : id ∉ seen)
      (supers : SeeksAny t.supers (id :: seen) out) : Seeks t seen out

/-- A run of the search from some super-traits, up to the first that leads to the goal. -/
inductive SeeksAny : List Predicate → List DefId → Bool × List DefId → Prop where
  | nil {seen : List DefId} : SeeksAny [] seen (false, seen)
  | skip {p : Predicate} {ps : List Predicate} {seen : List DefId} {out : Bool × List DefId}
      (missing : p.get? cx = none) (rest : SeeksAny ps seen out) : SeeksAny (p :: ps) seen out
  | found {p : Predicate} {ps : List Predicate} {s : TraitRef} {seen seen' : List DefId}
      (cached : p.get? cx = some s) (first : Seeks s seen (true, seen')) :
      SeeksAny (p :: ps) seen (true, seen')
  | next {p : Predicate} {ps : List Predicate} {s : TraitRef} {seen seen' : List DefId}
      {out : Bool × List DefId} (cached : p.get? cx = some s)
      (first : Seeks s seen (false, seen')) (rest : SeeksAny ps seen' out) :
      SeeksAny (p :: ps) seen out

end

end

variable {cx : Context} {goal : TraitRef}

theorem isEqual_iff {t : TraitRef} {id : DefId} (own : t.id = some id) :
    t.isEqual goal = true ↔ goal.id = some id := by
  simp only [isEqual, isError, own, Option.isNone_some, Bool.not_false, Bool.true_and, beq_iff_eq]
  exact eq_comm

/-! ## What a run finds -/

mutual

theorem Seeks.grows : ∀ {t : TraitRef} {seen : List DefId} {out : Bool × List DefId},
    Seeks cx goal t seen out → seen ⊆ out.2
  | _, _, _, .here _ | _, _, _, .unnamed .. | _, _, _, .visited .. => List.Subset.refl _
  | _, _, _, .above _ _ _ supers => List.Subset.trans (List.subset_cons_self _ _) supers.grows

theorem SeeksAny.grows : ∀ {ps : List Predicate} {seen : List DefId} {out : Bool × List DefId},
    SeeksAny cx goal ps seen out → seen ⊆ out.2
  | _, _, _, .nil => List.Subset.refl _
  | _, _, _, .skip _ rest => rest.grows
  | _, _, _, .found _ first => first.grows
  | _, _, _, .next _ first rest => List.Subset.trans first.grows rest.grows

end

mutual

theorem Seeks.searched (labelled : cx.Labelled) : ∀ {t : TraitRef} {id : DefId} {seen : List DefId}
    {out : Bool × List DefId}, Seeks cx goal t seen out → cx.trait? id = some t →
    cx.Searched (fun x => goal.id = some x) (· = id) seen (!out.1, out.2)
  | t, id, _, _, .here same, found => .found rfl .refl ((isEqual_iff (labelled id t found)).1 same)
  | t, id, _, _, .unnamed _ nameless, found => by
      rw [labelled id t found] at nameless
      cases nameless
  | t, id, seen, _, .visited _ own mem, found => by
      rw [labelled id t found] at own
      cases own
      exact .clear (fun other _ same => same ▸ mem) (.refl seen)
  | t, id, _, _, .above other own _ supers, found => by
      have above := supers.searched labelled
      rw [labelled id t found] at own
      cases own
      have fine : ¬ goal.id = some id := by
        rw [← isEqual_iff (labelled id t found), other]
        exact Bool.false_ne_true
      exact .visit found fine above

theorem SeeksAny.searched (labelled : cx.Labelled) : ∀ {ps : List Predicate}
    {seen : List DefId} {out : Bool × List DefId}, SeeksAny cx goal ps seen out →
    cx.Searched (fun x => goal.id = some x) (Context.TraitsOf ps) seen (!out.1, out.2)
  | _, seen, _, .nil => .nil seen
  | _, seen, _, .skip missing rest => .cons (.skip missing seen) (rest.searched labelled)
  | p :: ps, _, _, .found cached first => by
      obtain ⟨id, own, found⟩ := Option.bind_eq_some_iff.1 cached
      cases first.searched labelled found with
      | found root path here =>
          subst root
          exact .found ⟨p, List.mem_cons_self, own⟩ path here
  | p :: ps, _, _, .next cached first rest => by
      obtain ⟨id, own, found⟩ := Option.bind_eq_some_iff.1 cached
      exact .cons ((first.searched labelled found).congr fun other => by simp [own, eq_comm])
        (rest.searched labelled)

end

/-! ## The bounded search -/

/-- A list is searched by runs from its elements. -/
theorem seeksAny_anyVisiting {f : Predicate → List DefId → Bool × List DefId} {depth : Nat}
    (skip : ∀ p seen, p.get? cx = none → f p seen = (false, seen))
    (step : ∀ p s seen, p.get? cx = some s → cx.unseen seen < depth →
      Seeks cx goal s seen (f p seen)) :
    ∀ (ps : List Predicate) (seen : List DefId), cx.unseen seen < depth →
      SeeksAny cx goal ps seen (anyVisiting f ps seen)
  | [], _, _ => .nil
  | p :: ps, seen, few => by
      rw [anyVisiting]
      cases cached : p.get? cx with
      | none =>
          rw [skip p seen cached]
          exact .skip cached (seeksAny_anyVisiting skip step ps seen few)
      | some s =>
          have first := step p s seen cached few
          generalize f p seen = out at first
          obtain ⟨answer, seen'⟩ := out
          cases answer with
          | true => exact .found cached first
          | false =>
              have few' : cx.unseen seen' < depth :=
                Nat.lt_of_le_of_lt (cx.unseen_anti first.grows) few
              exact .next cached first (seeksAny_anyVisiting skip step ps seen' few')

/-- As long as the bound on the depth is above the number of cached traits that are not yet
visited, the search is the one without a bound. -/
theorem seeks_reaches (labelled : cx.Labelled) (depth : Nat) :
    ∀ {id : DefId} {t : TraitRef} (seen : List DefId),
    cx.trait? id = some t → cx.unseen seen < depth →
    Seeks cx goal t seen (reaches cx goal depth t seen) := by
  induction depth with
  | zero => exact fun _ _ few => absurd few (Nat.not_lt_zero _)
  | succ depth ih =>
      intro id t seen found few
      have own : t.id = some id := labelled id t found
      simp only [reaches, own]
      split
      · rename_i same
        exact .here same
      · rename_i other
        rw [Bool.not_eq_true] at other
        -- A new trait takes one off the depth, and one off those not yet visited.
        split
        · rename_i mem
          exact .visited other own mem
        · rename_i new
          have few' : cx.unseen (id :: seen) < depth := by
            have := Context.unseen_cons_lt (Table.mem_keys_of_get? found) new
            omega
          refine .above other own new (seeksAny_anyVisiting ?_ ?_ t.supers _ few')
          · intro p seen missing
            rw [missing]
          · intro p s seen cached few
            obtain ⟨super, -, found⟩ := Option.bind_eq_some_iff.1 cached
            rw [cached]
            exact ih seen found few

theorem seeks_satisfies (labelled : cx.Labelled) {id : DefId} {t : TraitRef}
    (found : cx.trait? id = some t) :
    ∃ seen, Seeks cx goal t [] (t.satisfies cx goal, seen) := by
  have few : cx.unseen [] < cx.cache.size + 2 := by
    rw [Context.unseen_nil]
    omega
  exact ⟨_, seeks_reaches labelled _ [] found few⟩

/-- A cached trait implies another one exactly if that is reachable along super-traits. -/
theorem satisfies_iff (labelled : cx.Labelled) {a b : DefId} {t u : TraitRef}
    (found : cx.trait? a = some t) (found' : cx.trait? b = some u) :
    t.satisfies cx u = true ↔ ReflTransGen cx.SuperEdge a b := by
  have ended : ∃ seen, Seeks cx u t [] (t.satisfies cx u, seen) := seeks_satisfies labelled found
  obtain ⟨seen, run⟩ := ended
  have searched := run.searched labelled found
  have own : u.id = some b := labelled b u found'
  generalize t.satisfies cx u = answer at searched
  cases answer with
  | true =>
      cases searched with
      | found root path here =>
          cases root
          cases own.symm.trans here
          exact iff_of_true rfl path
  | false =>
      cases searched with
      | clear reached explored =>
          refine iff_of_false Bool.false_ne_true fun path => ?_
          have visited := reached a (Table.mem_keys_of_get? found) rfl
          exact explored.not_hit path (Table.mem_keys_of_get? found') visited own

/-! ## The error reference -/

theorem anyVisiting_false {α : Type} {f : α → List DefId → Bool × List DefId}
    (never : ∀ x seen, (f x seen).1 = false) :
    ∀ (xs : List α) (seen : List DefId), (anyVisiting f xs seen).1 = false
  | [], _ => rfl
  | x :: xs, seen => by
      have first := never x seen
      rw [anyVisiting]
      generalize f x seen = out at first
      obtain ⟨answer, seen'⟩ := out
      cases first
      exact anyVisiting_false never xs seen'

theorem reaches_isError (error : goal.isError = true) (depth : Nat) :
    ∀ (t : TraitRef) (seen : List DefId), (reaches cx goal depth t seen).1 = false := by
  have unnamed : goal.id = none := by simpa [isError] using error
  induction depth with
  | zero => exact fun _ _ => rfl
  | succ depth ih =>
      intro t seen
      cases own : t.id with
      | none => simp [reaches, isEqual, isError, own]
      | some id =>
          have other : ¬ t.isEqual goal = true := by
            rw [isEqual_iff own, unnamed]
            exact Option.some_ne_none id ∘ Eq.symm
          simp only [reaches, own, if_neg other]
          split
          · rfl
          · refine anyVisiting_false (fun p seen => ?_) t.supers _
            cases p.get? cx with
            | none => rfl
            | some s => exact ih s seen

/-- The error reference neither implies a trait nor is implied by one. -/
theorem satisfies_isError {t : TraitRef} (error : t.isError = true ∨ goal.isError = true) :
    t.satisfies cx goal = false := by
  rcases error with error | error
  · have unnamed : t.id = none := by simpa [isError] using error
    simp [satisfies, reaches, isEqual, isError, unnamed]
  · exact reaches_isError error _ t []

end TraitRef

namespace Session

open TraitRef

/-- After any declarations and requests, a cached trait implies another one exactly if there is
a path of kept super-traits from it to the other. The search has a finite run, whatever cycles
there are. So every cached trait implies itself and what is implied by those it implies; and
the error reference neither implies a trait nor is implied by one. -/
theorem performAll_satisfies_iff (config : Config) (steps : List Step) (handed : List Problem)
    (s : Session) (ran : (ofConfig config).performAll steps = .ok (handed, s)) :
    let cx := s.context
    (∀ a t b u, cx.trait? a = some t → cx.trait? b = some u →
      (t.satisfies cx u = true ↔ ReflTransGen cx.SuperEdge a b) ∧
        ∃ seen, Seeks cx u t [] (t.satisfies cx u, seen)) ∧
    (∀ a t, cx.trait? a = some t → t.satisfies cx t = true) ∧
    (∀ a t b u c v, cx.trait? a = some t → cx.trait? b = some u → cx.trait? c = some v →
      t.satisfies cx u = true → u.satisfies cx v = true → t.satisfies cx v = true) ∧
    ∀ t u : TraitRef, t.isError = true ∨ u.isError = true → t.satisfies cx u = false := by
  intro cx
  have settled := (performAll_mirroring steps (mirroring_ofConfig config) ran).settled
  have labelled : cx.Labelled := settled.idle.coherent.labelled
  refine ⟨fun a t b u found found' => ?_, fun a t found => ?_, ?_, fun t u => satisfies_isError⟩
  · exact ⟨satisfies_iff labelled found found', seeks_satisfies labelled found⟩
  · exact (satisfies_iff labelled found found).2 .refl
  · intro a t b u c v first second third up further
    have path := (satisfies_iff labelled first second).1 up
    exact (satisfies_iff labelled first third).2
      (path.trans ((satisfies_iff labelled second third).1 further))

/-- `trait B: M + A {}`, `trait M { fn f<T: A>(&self); }`, `trait A: B {}` and
`trait C: A + M {}`. `A` and `B` keep each other, and both ways from `C` lead to `M`. -/
def looped : List Step := [
  .declare (.trait "B" [.super (.ofText "M"), .super (.ofText "A")]),
  .declare (.trait "M" [.method "f" [.self .ref, .typeParam "T" [.ofText "A"]]]),
  .declare (.trait "A" [.super (.ofText "B")]),
  .declare (.trait "C" [.super (.ofText "A"), .super (.ofText "M")]),
  .request (.runPasses [.traits])]

theorem performAll_satisfies_iff_looped :
    ∃ handed s b m a c, (ofConfig {}).performAll looped = .ok (handed, s) ∧
      s.context.trait? ⟨0⟩ = some b ∧ s.context.trait? ⟨1⟩ = some m ∧
      s.context.trait? ⟨2⟩ = some a ∧ s.context.trait? ⟨3⟩ = some c ∧
      ReflTransGen s.context.SuperEdge ⟨2⟩ ⟨0⟩ ∧ ReflTransGen s.context.SuperEdge ⟨0⟩ ⟨2⟩ ∧
      c.satisfies s.context m = true ∧ ¬ ReflTransGen s.context.SuperEdge ⟨2⟩ ⟨3⟩ ∧
      ∃ seen, Seeks s.context c a [] (false, seen) := by
  have observed : ((ofConfig {}).performAll looped).toOption.map (fun out => do
      let b ← out.2.context.trait? ⟨0⟩
      let m ← out.2.context.trait? ⟨1⟩
      let a ← out.2.context.trait? ⟨2⟩
      let c ← out.2.context.trait? ⟨3⟩
      return (a.satisfies out.2.context b, b.satisfies out.2.context a,
        b.satisfies out.2.context m, c.satisfies out.2.context b,
        a.satisfies out.2.context c)) = some (some (true, true, true, true, false)) := by
    decide +kernel
  obtain ⟨⟨handed, s⟩, ran, seen⟩ := ok_of_observed observed
  simp only [bind, Option.bind_eq_some_iff, pure, Option.some.injEq, Prod.mk.injEq] at seen
  obtain ⟨b, foundB, m, foundM, a, foundA, c, foundC, up, down, aside, back, refusal⟩ := seen
  obtain ⟨reaches, -, trans, -⟩ := performAll_satisfies_iff {} looped handed s ran
  obtain ⟨refused, run⟩ := reaches ⟨2⟩ a ⟨3⟩ c foundA foundC
  rw [refusal] at refused run
  refine ⟨handed, s, b, m, a, c, ran, foundB, foundM, foundA, foundC, ?_, ?_, ?_, ?_, run⟩
  · exact (reaches ⟨2⟩ a ⟨0⟩ b foundA foundB).1.1 up
  · exact (reaches ⟨0⟩ b ⟨2⟩ a foundB foundA).1.1 down
  · exact trans ⟨3⟩ c ⟨0⟩ b ⟨1⟩ m foundC foundB foundM back aside
  · exact fun path => Bool.false_ne_true (refused.2 path)

end Session

end TraitEngine
