import TraitEngine.Proofs.Projections
import TraitEngine.Proofs.Resolved.Violations
/-!
# The search for an associated type is depth first

The search of `P::Name` keeps the traits to visit on a stack. It marks a trait as visited when it
takes it off, so the stack may hold a trait many times, and the super-traits of a trait that is
taken off go on top.

* `Context.Visits` is the recursive search, without a bound and without a stack: a trait, then its
  super-traits from left to right, up to the first one that declares the type. A derivation is a
  finite run. There is one from every list of traits (`exists_visitsAll`): each trait that is
  expanded puts no more on the list than the super-traits that are still to come.
* The loop visits in that order (`VisitsAll.search`): what lies below on the stack is what the
  recursion comes back to.
* So the loop finds what the recursive search finds, and it finds nothing exactly if no trait that
  declares the type is reachable (`lowerProjection_depthFirst`).
-/

namespace TraitEngine

set_option autoImplicit false

open Relation

namespace Context

section

variable (cx : Context) (tree : ItemTree) (name : String)

mutual

/-- A run of the recursive search from a trait: the traits visited before, the declaration that is
found and the traits visited in the end. -/
inductive Visits : DefId → List DefId → Option TraitDecl × List DefId → Prop where
  | visited {id : DefId} {seen : List DefId} (old : id ∈ seen) : Visits id seen (none, seen)
  | undeclared {id : DefId} {seen : List DefId} (new : id ∉ seen) (unknown : tree.trait? id = none) :
      Visits id seen (none, id :: seen)
  | found {id : DefId} {seen : List DefId} {decl : TraitDecl} (new : id ∉ seen)
      (declared : tree.trait? id = some decl) (declares : decl.declaresType name = true) :
      Visits id seen (some decl, id :: seen)
  | above {id : DefId} {seen : List DefId} {decl : TraitDecl} {out : Option TraitDecl × List DefId}
      (new : id ∉ seen) (declared : tree.trait? id = some decl)
      (absent : decl.declaresType name = false)
      (supers : VisitsAll (cx.superIds id) (id :: seen) out) : Visits id seen out

/-- A run of the search from some traits, up to the first from which one is found. -/
inductive VisitsAll : List DefId → List DefId → Option TraitDecl × List DefId → Prop where
  | nil {seen : List DefId} : VisitsAll [] seen (none, seen)
  | stop {id : DefId} {rest seen seen' : List DefId} {decl : TraitDecl}
      (first : Visits id seen (some decl, seen')) : VisitsAll (id :: rest) seen (some decl, seen')
  | next {id : DefId} {rest seen seen' : List DefId} {out : Option TraitDecl × List DefId}
      (first : Visits id seen (none, seen')) (others : VisitsAll rest seen' out) :
      VisitsAll (id :: rest) seen out

end

/-- The loop, started with more steps than it takes. -/
def search (stack seen : List DefId) : Option TraitDecl :=
  searchAssocType tree cx name (stack.length + cx.upcoming seen + 1) stack seen

end

variable {cx : Context} {tree : ItemTree} {name : String} {seen seen' : List DefId}

/-! ## Rounds of the loop -/

theorem agree_self (cx : Context) : Agree (fun _ => True) cx cx where
  same := fun _ _ => rfl
  closed := fun _ _ _ _ => trivial

/-- With enough steps the number of steps does not matter. -/
theorem search_eq {steps : Nat} {stack : List DefId}
    (enough : stack.length + cx.upcoming seen < steps) :
    searchAssocType tree cx name steps stack seen = cx.search tree name stack seen :=
  searchAssocType_eq (agree_self cx) tree name steps _ (fun _ _ => trivial) enough
    (Nat.lt_succ_self _)

theorem findAssocType?_eq_search (start : List DefId) :
    cx.findAssocType? tree start name = cx.search tree name start [] := by
  refine search_eq ?_
  rw [upcoming_nil]
  omega

theorem search_nil : cx.search tree name [] seen = none := rfl

theorem search_cons_old {id : DefId} {rest : List DefId} (old : id ∈ seen) :
    cx.search tree name (id :: rest) seen = cx.search tree name rest seen := by
  rw [search, searchAssocType, if_pos old]
  refine search_eq ?_
  rw [List.length_cons]
  omega

theorem search_cons_undeclared {id : DefId} {rest : List DefId} (new : id ∉ seen)
    (unknown : tree.trait? id = none) :
    cx.search tree name (id :: rest) seen = cx.search tree name rest (id :: seen) := by
  rw [search, searchAssocType, if_neg new, unknown]
  refine search_eq ?_
  have less := cx.upcoming_cons new
  rw [List.length_cons]
  omega

theorem search_cons_found {id : DefId} {rest : List DefId} {decl : TraitDecl} (new : id ∉ seen)
    (declared : tree.trait? id = some decl) (declares : decl.declaresType name = true) :
    cx.search tree name (id :: rest) seen = some decl := by
  rw [search, searchAssocType, if_neg new, declared]
  exact if_pos declares

theorem search_cons_above {id : DefId} {rest : List DefId} {decl : TraitDecl} (new : id ∉ seen)
    (declared : tree.trait? id = some decl) (absent : decl.declaresType name = false) :
    cx.search tree name (id :: rest) seen =
      cx.search tree name (cx.superIds id ++ rest) (id :: seen) := by
  rw [search, searchAssocType, if_neg new, declared]
  simp only [absent, Bool.false_eq_true, if_false]
  refine search_eq ?_
  have less := cx.upcoming_cons new
  rw [List.length_append, List.length_cons]
  omega

/-! ## The loop follows the recursion -/

mutual

/-- The loop does what a run does, and goes on with the rest of the stack if nothing is found. -/
theorem Visits.search : ∀ {id : DefId} {seen : List DefId} {out : Option TraitDecl × List DefId},
    cx.Visits tree name id seen out → ∀ rest : List DefId,
    cx.search tree name (id :: rest) seen = out.1.or (cx.search tree name rest out.2)
  | _, _, _, .visited old, rest => by
      rw [search_cons_old old]
      rfl
  | _, _, _, .undeclared new unknown, rest => by
      rw [search_cons_undeclared new unknown]
      rfl
  | _, _, _, .found new declared declares, rest => by
      rw [search_cons_found new declared declares]
      rfl
  | _, _, _, .above new declared absent supers, rest => by
      rw [search_cons_above new declared absent]
      exact supers.search rest

theorem VisitsAll.search : ∀ {ids seen : List DefId} {out : Option TraitDecl × List DefId},
    cx.VisitsAll tree name ids seen out → ∀ rest : List DefId,
    cx.search tree name (ids ++ rest) seen = out.1.or (cx.search tree name rest out.2)
  | _, _, _, .nil, rest => rfl
  | id :: ids, _, _, .stop first, rest => by
      rw [List.cons_append]
      exact first.search (ids ++ rest)
  | id :: ids, _, _, .next first others, rest => by
      have here := first.search (ids ++ rest)
      rw [List.cons_append, here]
      exact others.search rest

end

/-! ## Every search ends -/

mutual

theorem Visits.grows : ∀ {id : DefId} {seen : List DefId} {out : Option TraitDecl × List DefId},
    cx.Visits tree name id seen out → seen ⊆ out.2
  | _, _, _, .visited _ => List.Subset.refl _
  | _, _, _, .undeclared .. | _, _, _, .found .. => List.subset_cons_self _ _
  | _, _, _, .above _ _ _ supers => List.Subset.trans (List.subset_cons_self _ _) supers.grows

theorem VisitsAll.grows : ∀ {ids seen : List DefId} {out : Option TraitDecl × List DefId},
    cx.VisitsAll tree name ids seen out → seen ⊆ out.2
  | _, _, _, .nil => List.Subset.refl _
  | _, _, _, .stop first => first.grows
  | _, _, _, .next first others => List.Subset.trans first.grows others.grows

end

/-- From any traits the recursive search has a finite run. -/
theorem exists_visitsAll (cx : Context) (tree : ItemTree) (name : String) (bound : Nat) :
    ∀ {ids seen : List DefId}, ids.length + cx.upcoming seen < bound →
      ∃ out, cx.VisitsAll tree name ids seen out := by
  induction bound with
  | zero => exact fun few => absurd few (Nat.not_lt_zero _)
  | succ bound ih =>
      intro ids seen few
      cases ids with
      | nil => exact ⟨_, .nil⟩
      | cons id rest =>
          rw [List.length_cons] at few
          have first : ∃ out, cx.Visits tree name id seen out := by
            by_cases old : id ∈ seen
            · exact ⟨_, .visited old⟩
            · cases declared : tree.trait? id with
              | none => exact ⟨_, .undeclared old declared⟩
              | some decl =>
                  cases declares : decl.declaresType name with
                  | true => exact ⟨_, .found old declared declares⟩
                  | false =>
                      have less := cx.upcoming_cons old
                      have fewer : (cx.superIds id).length + cx.upcoming (id :: seen) < bound := by
                        omega
                      obtain ⟨out, supers⟩ := ih fewer
                      exact ⟨out, .above old declared declares supers⟩
          obtain ⟨⟨found, seen'⟩, visits⟩ := first
          cases found with
          | some decl => exact ⟨_, .stop visits⟩
          | none =>
              have less : cx.upcoming seen' ≤ cx.upcoming seen := cx.upcoming_anti visits.grows
              have fewer : rest.length + cx.upcoming seen' < bound := by omega
              obtain ⟨out, others⟩ := ih fewer
              exact ⟨out, .next visits others⟩

/-- What the loop finds is what the recursive search finds. -/
theorem findAssocType?_eq_iff (cx : Context) (tree : ItemTree) (name : String)
    (start : List DefId) (found : Option TraitDecl) :
    cx.findAssocType? tree start name = found ↔
      ∃ seen, cx.VisitsAll tree name start [] (found, seen) := by
  have follows {out : Option TraitDecl × List DefId} (run : cx.VisitsAll tree name start [] out) :
      cx.findAssocType? tree start name = out.1 := by
    have whole := run.search []
    rw [List.append_nil, search_nil, Option.or_none] at whole
    rw [findAssocType?_eq_search, whole]
  constructor
  · rintro rfl
    obtain ⟨⟨found, seen⟩, run⟩ := cx.exists_visitsAll tree name _ (Nat.lt_succ_self _)
    have same : cx.findAssocType? tree start name = found := follows run
    rw [same]
    exact ⟨seen, run⟩
  · rintro ⟨seen, run⟩
    exact follows run

/-- Nothing is found exactly if no trait that declares the type is reachable. -/
theorem findAssocType?_eq_none_iff (cx : Context) (tree : ItemTree) (start : List DefId)
    (name : String) : cx.findAssocType? tree start name = none ↔
      ∀ root ∈ start, ∀ id, ReflTransGen (cx.UpEdge tree) root id → ¬ tree.DeclaresType name id := by
  have searched := cx.findAssocType?_searched tree start name
  generalize cx.findAssocType? tree start name = found at searched
  cases searched with
  | @found root id decl mem path declared declares =>
      refine iff_of_false (Option.some_ne_none decl) fun none => ?_
      exact none root mem id path ⟨decl, declared, declares⟩
  | none exhausted =>
      refine iff_of_true rfl fun root mem id path => ?_
      refine exhausted.barren id ?_ List.not_mem_nil
      induction path with
      | refl => exact exhausted.reached mem
      | tail _ edge ih => exact exhausted.closed _ ih List.not_mem_nil _ edge

end Context

/-- Between two steps of a session only declared traits keep super-traits, whatever is declared in
between. In the middle of a run that is `ItemTree.Run.superEdge_declared`. -/
theorem Session.superEdge_declared {config : Config} {steps : List Step} {handed : List Problem}
    {s : Session} (ran : (ofConfig config).performAll steps = .ok (handed, s)) (x y : DefId)
    (edge : s.context.SuperEdge x y) : ∃ decl, s.tree.trait? x = some decl := by
  obtain ⟨t, found, -⟩ := Context.superEdge_iff.1 edge
  obtain ⟨decl, declared, -⟩ := performAll_violations ran found
  exact ⟨decl, declared⟩

namespace Lowering

open Context

/-- In every tree and every context, the search from any bounds ends with what the recursive
search finds: the first trait, depth first and from left to right, whose declaration has an
associated type as its first item of that name. It finds nothing exactly if no such trait is
reachable through declared traits, that is, along the super-traits that are kept, where only
declared traits keep some. A projection is lowered to what is found from the bounds of its
parameter, in order, or reported. -/
theorem lowerProjection_depthFirst (tree : ItemTree) (cx : Context) (param : Param)
    (name : String) (span : Span) :
    (∀ (bounds : List DefId) (found : Option TraitDecl),
      cx.findAssocType? tree bounds name = found ↔
        ∃ seen, cx.VisitsAll tree name bounds [] (found, seen)) ∧
    (∀ bounds : List DefId, cx.findAssocType? tree bounds name = none ↔ ∀ root ∈ bounds, ∀ id,
      ReflTransGen (cx.UpEdge tree) root id → ¬ tree.DeclaresType name id) ∧
    ((∀ x y, cx.SuperEdge x y → ∃ decl, tree.trait? x = some decl) →
      ∀ bounds : List DefId, cx.findAssocType? tree bounds name = none ↔ ∀ root ∈ bounds, ∀ id,
        ReflTransGen cx.SuperEdge root id → ¬ tree.DeclaresType name id) ∧
    ∃ found seen, cx.VisitsAll tree name ((cx.attached param.node).filterMap Predicate.trait) []
        (found, seen) ∧
      lowerProjection tree param name span cx = match found with
        | some decl => .ok (.projection (.param param) decl.id decl.name name, cx)
        | none => .ok (.error, cx.report (.unknownAssocType span param.name name)) := by
  refine ⟨cx.findAssocType?_eq_iff tree name, fun bounds => cx.findAssocType?_eq_none_iff tree bounds
    name, fun edges bounds => ?_, ?_⟩
  · rw [← upEdge_eq edges]
    exact cx.findAssocType?_eq_none_iff tree bounds name
  · obtain ⟨seen, run⟩ := (cx.findAssocType?_eq_iff tree name _ _).1 rfl
    exact ⟨_, seen, run, tree.lowerProjection_eq cx param name span⟩

/-- `trait L { type X; }`, `trait R { type X; }` and `trait A: L {}`. -/
def forked : List Step := [
  .declare (.trait "L" [.assocType "X" [] none]),
  .declare (.trait "R" [.assocType "X" [] none]),
  .declare (.trait "A" [.super (.ofText "L")]),
  .request (.runPasses [.traits])]

/-- From the bounds `A` and `R`, the super-trait `L` of `A` comes before `R`. -/
theorem lowerProjection_depthFirst_forked :
    ∃ handed s decl, (Session.ofConfig {}).performAll forked = .ok (handed, s) ∧
      decl.id = ⟨0⟩ ∧
      (∃ seen, s.context.VisitsAll s.tree "X" [⟨2⟩, ⟨1⟩] [] (some decl, seen)) ∧
      ∀ root ∈ [⟨2⟩, ⟨1⟩], ∀ id, ReflTransGen s.context.SuperEdge root id →
        ¬ s.tree.DeclaresType "Y" id := by
  have observed : ((Session.ofConfig {}).performAll forked).toOption.map (fun out =>
      ((out.2.context.findAssocType? out.2.tree [⟨2⟩, ⟨1⟩] "X").map TraitDecl.id,
        (out.2.context.findAssocType? out.2.tree [⟨2⟩, ⟨1⟩] "Y").isNone)) =
      some (some ⟨0⟩, true) := by
    decide +kernel
  obtain ⟨⟨handed, s⟩, ran, seen⟩ := ok_of_observed observed
  obtain ⟨own, missed⟩ := Prod.mk.inj seen
  obtain ⟨decl, found, own⟩ := Option.map_eq_some_iff.1 own
  obtain ⟨recursive, -, -, -⟩ := lowerProjection_depthFirst s.tree s.context ⟨⟨9⟩, "T"⟩ "X" default
  obtain ⟨-, -, reachable, -⟩ := lowerProjection_depthFirst s.tree s.context ⟨⟨9⟩, "T"⟩ "Y" default
  refine ⟨handed, s, decl, ran, own, (recursive _ _).1 found, ?_⟩
  exact (reachable (Session.superEdge_declared ran) [⟨2⟩, ⟨1⟩]).1
    (Option.isNone_iff_eq_none.1 missed)

end Lowering

end TraitEngine
