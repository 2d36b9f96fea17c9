import TraitEngine.Proofs.Order.Search
import TraitEngine.Proofs.SuperGraph
/-!
# Projections see the bounds that are lowered

`P::Name` is looked up among the bounds that are attached to `P` and upwards along the
super-traits that cached traits have kept, and the search misses nothing there
(`findAssocType?_spec`). What it can miss is not there yet: the bounds of a list are
attached parameter by parameter, and a trait that is still on the stack has no super-traits
to be seen.

So once the list of a parameter is lowered, a projection on it is found, or a trait on each
way to the associated type is on the stack, or a bound on the way was refused with a report
(`projection_lowered`).
-/

namespace TraitEngine

set_option autoImplicit false

open Relation Check

/-! ## The search -/

namespace ItemTree

variable (tree : ItemTree)

/-- The trait declares an associated type of that name. -/
def DeclaresType (name : String) (id : DefId) : Prop :=
  ∃ decl, tree.trait? id = some decl ∧ decl.declaresType name = true

end ItemTree

namespace Context

/-- The search goes from a declared trait to the super-traits that are kept of it. -/
def UpEdge (cx : Context) (tree : ItemTree) (a b : DefId) : Prop :=
  (∃ decl, tree.trait? a = some decl) ∧ cx.SuperEdge a b

/-- A search along `edge` went on from `seen` to `seen'`: it got to all roots, and of the traits
that it visited on the way none declares the associated type and all super-traits are visited. -/
structure Exhausted (edge : DefId → DefId → Prop) (tree : ItemTree) (name : String)
    (roots seen seen' : List DefId) : Prop where
  grows : seen ⊆ seen'
  reached : roots ⊆ seen'
  barren : ∀ x ∈ seen', x ∉ seen → ¬tree.DeclaresType name x
  closed : ∀ x ∈ seen', x ∉ seen → ∀ y, edge x y → y ∈ seen'

/-- How a search for an associated type ends. -/
inductive SearchedType (edge : DefId → DefId → Prop) (tree : ItemTree) (name : String)
    (roots seen : List DefId) : Option TraitDecl → Prop where
  | found {root id : DefId} {decl : TraitDecl} (start : root ∈ roots)
      (path : ReflTransGen edge root id) (declared : tree.trait? id = some decl)
      (declares : decl.declaresType name = true) : SearchedType edge tree name roots seen (some decl)
  | none {seen' : List DefId} (exhausted : Exhausted edge tree name roots seen seen') :
      SearchedType edge tree name roots seen none

variable {cx : Context} {edge : DefId → DefId → Prop} {tree : ItemTree} {name : String}
  {roots seen : List DefId}

/-- Roots may be added that are visited already. -/
theorem SearchedType.skip {id : DefId} {out : Option TraitDecl}
    (h : SearchedType edge tree name roots seen out) (old : id ∈ seen) :
    SearchedType edge tree name (id :: roots) seen out := by
  cases h with
  | found start path declared declares =>
      exact .found (List.mem_cons_of_mem id start) path declared declares
  | none exhausted =>
      exact .none { exhausted with
        reached := List.cons_subset.2 ⟨exhausted.grows old, exhausted.reached⟩ }

/-- A trait that does not declare the type is replaced by its super-traits. -/
theorem SearchedType.expand {id : DefId} {above : List DefId} {out : Option TraitDecl}
    (h : SearchedType edge tree name (above ++ roots) (id :: seen) out)
    (absent : ¬tree.DeclaresType name id) (supers : ∀ y, edge id y ↔ y ∈ above) :
    SearchedType edge tree name (id :: roots) seen out := by
  cases h with
  | found start path declared declares =>
      rcases List.mem_append.1 start with mem | mem
      · exact .found List.mem_cons_self (.head ((supers _).2 mem) path) declared declares
      · exact .found (List.mem_cons_of_mem id mem) path declared declares
  | @none seen' exhausted =>
      obtain ⟨own, grows⟩ := List.cons_subset.1 exhausted.grows
      obtain ⟨reached, others⟩ := List.append_subset.1 exhausted.reached
      refine .none ⟨grows, List.cons_subset.2 ⟨own, others⟩, fun x mem new => ?_,
        fun x mem new => ?_⟩
      · by_cases same : x = id
        · exact same ▸ absent
        · exact exhausted.barren x mem (by simp [same, new])
      · by_cases same : x = id
        · subst same
          exact fun y edge => reached ((supers y).1 edge)
        · exact exhausted.closed x mem (by simp [same, new])

/-- The search is complete as long as its steps are not used up, which expanding a trait
does not bring about. -/
theorem searchAssocType_spec (steps : Nat) : ∀ {roots seen : List DefId},
    roots.length + cx.upcoming seen < steps → SearchedType (cx.UpEdge tree) tree name roots seen
      (searchAssocType tree cx name steps roots seen) := by
  induction steps with
  | zero => exact fun few => absurd few (Nat.not_lt_zero _)
  | succ steps ih =>
      intro roots seen few
      cases roots with
      | nil =>
          exact .none ⟨List.Subset.refl seen, List.nil_subset seen,
            fun x mem new => absurd mem new, fun x mem new => absurd mem new⟩
      | cons id rest =>
          rw [List.length_cons] at few
          rw [searchAssocType]
          split
          · rename_i old
            exact (ih (by omega)).skip old
          · rename_i new
            have less := cx.upcoming_cons new
            split
            · rename_i undeclared
              -- A trait that is not declared has no super-traits and declares no type.
              have alone : ∀ y, cx.UpEdge tree id y ↔ y ∈ ([] : List DefId) := by
                intro y
                simp only [List.not_mem_nil, iff_false]
                rintro ⟨⟨decl, declared⟩, -⟩
                cases undeclared.symm.trans declared
              refine SearchedType.expand (ih (by rw [List.nil_append]; omega)) ?_ alone
              rintro ⟨decl, declared, -⟩
              cases undeclared.symm.trans declared
            · rename_i decl declared
              split
              · rename_i declares
                exact .found List.mem_cons_self .refl declared declares
              · rename_i absent
                refine SearchedType.expand (ih (by rw [List.length_append]; omega)) ?_
                  fun y => and_iff_right ⟨decl, declared⟩
                rintro ⟨decl', declared', declares⟩
                cases declared.symm.trans declared'
                exact absent declares

/-- The search from the bounds of a parameter finds a declaring trait exactly if one is
reachable. -/
theorem findAssocType?_searched (cx : Context) (tree : ItemTree) (start : List DefId)
    (name : String) :
    SearchedType (cx.UpEdge tree) tree name start [] (cx.findAssocType? tree start name) := by
  refine searchAssocType_spec _ ?_
  rw [upcoming_nil]
  omega

/-- Where only declared traits have super-traits, every way counts. -/
theorem upEdge_eq (edges : ∀ x y, cx.SuperEdge x y → ∃ decl, tree.trait? x = some decl) :
    cx.UpEdge tree = cx.SuperEdge := by
  funext x y
  exact propext (and_iff_right_of_imp (edges x y))

theorem findAssocType?_spec
    (edges : ∀ x y, cx.SuperEdge x y → ∃ decl, tree.trait? x = some decl) (start : List DefId)
    (name : String) :
    SearchedType cx.SuperEdge tree name start [] (cx.findAssocType? tree start name) := by
  rw [← upEdge_eq edges]
  exact cx.findAssocType?_searched tree start name

/-! ## What stays -/

/-- The predicates that are attached to a node. -/
def attached (cx : Context) (node : NodeId) : List Predicate :=
  ((cx.bounds.get? node).getD {}).toList

/-- The trait is on the stack or in the cache. -/
def Begun (cx : Context) (id : DefId) : Prop := id ∈ cx.stack.keys ∨ id ∈ cx.cache.keys

theorem mem_attached_addBounds {node node' : NodeId} {ps : List Predicate} {p : Predicate} :
    p ∈ (cx.addBounds node ps).attached node' ↔
      p ∈ cx.attached node' ∨ node' = node ∧ p ∈ ps := by
  unfold attached addBounds
  rw [Table.get?_insert]
  split
  · rename_i same
    subst same
    simp [Bounds.mem_addAll_iff]
  · rename_i other
    simp [other]

end Context

namespace ItemTree

open Context

variable {tree : ItemTree} {cx cx' : Context} {handed later : List Problem}

theorem Move.attached (move : tree.Move cx cx') (node : NodeId) :
    cx.attached node ⊆ cx'.attached node := by
  have same (eq : cx'.bounds = cx.bounds) : cx.attached node ⊆ cx'.attached node := by
    unfold Context.attached
    rw [eq]
    exact List.Subset.refl _
  cases move with
  | @report p plain => exact same (by rcases cx.report_cases p with ⟨h, -⟩ | h <;> rw [h])
  | @reportCycle e path id ids top bound cycle =>
      refine same ?_
      rcases cx.report_cases (.superTraitCycle path.span (ids.map tree.traitName)) with
        ⟨h, -⟩ | h <;> rw [h]
  | addBounds other ps => exact fun p mem => mem_attached_addBounds.2 (Or.inl mem)
  | @enterItems base id top notBelow =>
      obtain ⟨stack, eq⟩ := cx.enterItems_eq id
      exact same (by rw [eq])
  | @checkDeferred id t waited found =>
      obtain ⟨problems, eq, -⟩ := cx.checkDeferred_eq id t
      exact same (by rw [eq])
  | _ => exact same rfl

theorem Move.begun (move : tree.Move cx cx') {id : DefId} (h : cx.Begun id) : cx'.Begun id := by
  cases move with
  | report plain => simpa [Begun] using h
  | reportCycle top bound cycle => simpa [Begun] using h
  | beginResolving declared receiver notOpen notCached room asked =>
      exact h.imp_left fun waits => Table.mem_keys_insert.2 (Or.inr waits)
  | @enterItems base other top notBelow =>
      have keys := cx.enterItems_keys other
      obtain ⟨stack, eq⟩ := cx.enterItems_eq other
      rw [eq] at keys ⊢
      exact h.imp_left fun waits => keys ▸ waits
  | @insertTrait base other t top notBelow notCached own params kept all =>
      show id ∈ (cx.stack.erase other).keys ∨ id ∈ (cx.cache.insert other t).keys
      rw [Table.keys_erase, Table.mem_keys_insert, List.mem_filter]
      by_cases same : id = other
      · exact Or.inr (Or.inl same)
      · exact h.imp (fun waits => ⟨waits, by simpa using same⟩) Or.inr
  | @checkDeferred other t waited found =>
      obtain ⟨problems, eq, -⟩ := cx.checkDeferred_eq other t
      rw [eq]
      exact h
  | _ => exact h

theorem Run.attached (run : tree.Run cx later cx') (node : NodeId) :
    cx.attached node ⊆ cx'.attached node := by
  induction run with
  | refl => exact List.Subset.refl _
  | move _ move ih => exact List.Subset.trans ih (move.attached node)
  | handOut _ _ ih => exact ih

theorem Run.begun (run : tree.Run cx later cx') {id : DefId} (h : cx.Begun id) :
    cx'.Begun id := by
  induction run with
  | refl => exact h
  | move _ move ih => exact move.begun ih
  | handOut _ _ ih => exact ih

/-- The super-traits that a cached trait keeps have been begun. -/
theorem Move.superEdge_begun (move : tree.Move cx cx')
    (h : ∀ x y, cx.SuperEdge x y → cx.Begun y) : ∀ x y, cx'.SuperEdge x y → cx'.Begun y := by
  have same (eq : cx'.cache = cx.cache) : ∀ x y, cx'.SuperEdge x y → cx'.Begun y := by
    intro x y edge
    refine move.begun (h x y ?_)
    rwa [SuperEdge, superIds, Context.trait?, ← eq]
  cases move with
  | report plain => exact same (by simp)
  | reportCycle top bound cycle => exact same (by simp)
  | @enterItems base id top notBelow =>
      obtain ⟨stack, eq⟩ := cx.enterItems_eq id
      exact same (by rw [eq])
  | @insertTrait base id t top notBelow notCached own params kept all =>
      intro x y edge
      obtain ⟨t', found, p, written, super⟩ := superEdge_iff.1 edge
      replace found : (cx.cache.insert id t).get? x = some t' := found
      rw [Table.get?_insert_of_new notCached] at found
      split at found
      · cases found
        obtain ⟨path, b, -, own', -, place⟩ := kept p written
        obtain rfl : y = b := Option.some.inj (super.symm.trans own')
        rcases place with cached | ⟨below, stage, above, rfl, -⟩
        · exact Or.inr (Table.mem_keys_insert.2 (Or.inr cached))
        · refine Or.inl (Table.mem_keys_iff.2 ⟨stage, ?_⟩)
          show _ ∈ (cx.stack.erase id).entries
          rw [Table.entries_erase_last top notBelow]
          simp
      · exact Move.begun (.insertTrait top notBelow notCached own params kept all)
          (h x y (superEdge_iff.2 ⟨t', found, p, written, super⟩))
  | @checkDeferred id t waited found =>
      obtain ⟨problems, eq, -⟩ := cx.checkDeferred_eq id t
      exact same (by rw [eq])
  | _ => exact same rfl

theorem Run.superEdge_begun (run : tree.Run cx handed cx')
    (h : ∀ x y, cx.SuperEdge x y → cx.Begun y) : ∀ x y, cx'.SuperEdge x y → cx'.Begun y := by
  induction run with
  | refl => exact h
  | move _ move ih => exact move.superEdge_begun ih
  | handOut _ _ ih => exact ih

/-- In a new context there are no edges. -/
theorem superEdge_begun_start (limit : Nat) (x y : DefId)
    (edge : ({ limit } : Context).SuperEdge x y) : ({ limit } : Context).Begun y :=
  absurd (mem_cache_of_superEdge edge) List.not_mem_nil

/-! ## Attached lists -/

/-- Each bound of the list is attached to the node and its trait begun, or its refusal is
reported. -/
def AllAttached (tree : ItemTree) (problems : List Problem) (cx : Context) (node : NodeId)
    (paths : List TypePath) : Prop :=
  ∀ path ∈ paths, ∀ b, tree.resolveTraitPath path = .ok b → tree.Refused problems path b ∨
    cx.Begun b ∧ ∃ p ∈ cx.attached node, p.trait = some b

theorem AllAttached.run {node : NodeId} {paths : List TypePath}
    (h : tree.AllAttached cx.problems cx node paths) (run : tree.Run cx later cx') :
    tree.AllAttached (later ++ cx'.problems) cx' node paths := by
  intro path written b named
  refine (h path written b named).imp (fun refused => refused.mono run.problems) ?_
  rintro ⟨begun, p, mem, own⟩
  exact ⟨run.begun begun, p, run.attached node mem, own⟩

theorem AllAttached.trip {node : NodeId} {paths : List TypePath}
    (h : tree.AllAttached cx.problems cx node paths) (trip : tree.Trip cx cx') :
    tree.AllAttached cx'.problems cx' node paths :=
  h.run (Run.moves trip.moves)

theorem LoweredBounds.allAttached {isSuper : Bool} {node : NodeId} {paths : List TypePath}
    {ps : List Predicate} (h : tree.LoweredBounds cx isSuper paths ps)
    (mem : ∀ p ∈ ps, p ∈ cx.attached node) : tree.AllAttached cx.problems cx node paths := by
  intro path written b named
  rcases h.all path written b named with ⟨p, there, own, -⟩ | refused
  · obtain ⟨fine, path', -, lowered⟩ := h.kept p there
    obtain ⟨b', -, own', -, place⟩ := lowered.lowered fine
    obtain rfl : b = b' := Option.some.inj (own.symm.trans own')
    exact Or.inr ⟨place.symm.imp_left And.left, p, mem p there, own⟩
  · exact Or.inl refused

end ItemTree

namespace Lowering

open ItemTree Context

variable {tree : ItemTree} {resolve : Resolver} {cx : Context} {depth : Nat}

section

variable (resolves : tree.Resolves depth resolve)

include resolves

theorem lowerParamBounds_attaches (ready : tree.Ready depth cx) (scope : Scope) (p : TypeParam)
    (asked : tree.AdmitsAll cx p.mentions) :
    Ends tree.Faults (lowerParamBounds tree resolve scope p) cx fun _ cx' =>
      tree.Trip cx cx' ∧ tree.AllAttached cx'.problems cx' p.node p.boundPaths := by
  rw [lowerParamBounds, ends_bind]
  refine (lowerBounds_tours scope resolves.serves false _ _ ready asked
    (absurd · Bool.false_ne_true)).mono fun ps cx₁ lowered => ?_
  obtain ⟨tour, bounds⟩ := lowered
  have attach := (Trip.refl cx₁ : tree.Trip cx₁ cx₁).addBounds p.node ps
  rw [ends_modify]
  refine ⟨tour.trip.trans attach, (bounds.trip attach).allAttached fun q mem => ?_⟩
  exact mem_attached_addBounds.2 (Or.inr ⟨rfl, mem⟩)

/-- The bounds of a list of parameters are all attached in the end. -/
theorem lowerGenerics_attaches (ready : tree.Ready depth cx) (scope : Scope)
    (generics : List GenericParam) (asked : tree.AdmitsAll cx (genericMentions generics)) :
    Ends tree.Faults (lowerGenerics tree resolve scope generics) cx fun _ cx' =>
      tree.Trip cx cx' ∧ ∀ p ∈ generics.filterMap GenericParam.type?,
        tree.AllAttached cx'.problems cx' p.node p.boundPaths := by
  have start : tree.Trip cx cx := .refl cx
  simp only [lowerGenerics, ends_bind, ends_pure]
  refine (ends_forIn _ _ start fun p _ cx₁ trip => ?_).mono fun _ cx₁ trip => ?_
  · simp only [ends_bind, ends_modify, ends_pure]
    exact ⟨trivial, trip.insertType p.node _⟩
  · refine (ends_forIn_each (fun cx' => tree.Trip cx cx')
      (fun p cx' => tree.AllAttached cx'.problems cx' p.node p.boundPaths) _
      (generics.filterMap GenericParam.type?) trip fun p mem cx₂ trip => ?_).mono
      fun _ cx' done => ⟨done.1, done.2.1⟩
    rw [ends_bind]
    refine (lowerParamBounds_attaches resolves (trip.ready ready) _ p
      (trip.admitsAll (asked.flatMap mem))).mono fun _ cx₃ lowered => ?_
    obtain ⟨later, attached⟩ := lowered
    exact ⟨rfl, trip.trans later, attached, fun _ before => before.trip later⟩

omit resolves in
/-- The trait itself and its super-traits are attached to its receiver. -/
theorem buildSupers_attaches (scope : Scope) (decl : TraitDecl) (receiver : TypeParam)
    (declared : List TypeParam) :
    Ends AnyFault (buildSupers tree resolve scope decl receiver declared) cx fun out cx' =>
      ∀ p ∈ (Predicate.ofParams decl.id out.1 decl.span).bindReceiver
        (.param receiver.toParam) :: out.2, p ∈ cx'.attached receiver.node := by
  simp only [buildSupers, ends_bind]
  refine (ends_any _).mono fun _ _ _ => (ends_any _).mono fun params _ _ => ?_
  simp only [ends_modify, ends_pure]
  refine (ends_any _).mono fun supers _ _ p mem => ?_
  exact mem_attached_addBounds.2 (Or.inr ⟨rfl, Bounds.mem_addAll_iff.2 (Or.inr mem)⟩)

end

end Lowering

namespace ItemTree

open Context

variable (tree : ItemTree)

/-- The bounds of a parameter are lowered on the way from `cx` to `cx'`: those written in a
list of parameters, or those of the receiver of a trait, which are its super-traits and the
trait itself. -/
inductive LowersBounds (resolve : Resolver) (cx cx' : Context) :
    Param → Option DefId → List TypePath → Prop where
  | param {scope : Scope} {p : TypeParam} (asked : tree.AdmitsAll cx p.mentions)
      (ran : Lowering.lowerParamBounds tree resolve scope p cx = .ok ((), cx')) :
      LowersBounds resolve cx cx' p.toParam none p.boundPaths
  | generics {scope : Scope} {generics : List GenericParam} {out : Scope × List Param}
      {p : TypeParam} (asked : tree.AdmitsAll cx (genericMentions generics))
      (ran : Lowering.lowerGenerics tree resolve scope generics cx = .ok (out, cx'))
      (mem : p ∈ generics.filterMap GenericParam.type?) :
      LowersBounds resolve cx cx' p.toParam none p.boundPaths
  | receiver {scope : Scope} {decl : TraitDecl} {receiver : TypeParam} {others : List TypeParam}
      {out : List TraitParam × List Predicate} (declared : tree.trait? decl.id = some decl)
      (split : decl.splitReceiver? = some (receiver, others))
      (top : cx.stack.entries.getLast? = some (decl.id, .supers))
      (ran : Lowering.buildSupers tree resolve scope decl receiver (receiver :: others) cx =
        .ok (out, cx')) :
      LowersBounds resolve cx cx' receiver.toParam (some decl.id) decl.superPaths

variable {tree} {cx cx' : Context} {handed later : List Problem}

theorem LowersBounds.attached {resolve : Resolver} {param : Param} {self : Option DefId}
    {paths : List TypePath} (h : tree.LowersBounds resolve cx cx' param self paths) {depth : Nat}
    (resolves : tree.Resolves depth resolve) (ready : tree.Ready depth cx) :
    tree.Trip cx cx' ∧ tree.AllAttached cx'.problems cx' param.node paths ∧
      ∀ id, self = some id → cx'.Begun id ∧ ∃ p ∈ cx'.attached param.node, p.trait = some id := by
  cases h with
  | param asked ran =>
      obtain ⟨trip, attached⟩ :=
        (Lowering.lowerParamBounds_attaches resolves ready _ _ asked).of_eq_ok ran
      exact ⟨trip, attached, nofun⟩
  | generics asked ran mem =>
      obtain ⟨trip, attached⟩ :=
        (Lowering.lowerGenerics_attaches resolves ready _ _ asked).of_eq_ok ran
      exact ⟨trip, attached _ mem, nofun⟩
  | @receiver scope decl receiver others out declared split top ran =>
      obtain ⟨tour, some, bounds⟩ := (Lowering.buildSupers_tours resolves.serves ready declared
        split top scope).of_eq_ok ran
      have mem := (Lowering.buildSupers_attaches scope decl receiver _).of_eq_ok ran
      refine ⟨tour.trip, bounds.allAttached fun p there => mem p (List.mem_cons_of_mem _ there), ?_⟩
      rintro id ⟨⟩
      have waits : decl.id ∈ cx'.stack.keys := by
        rw [tour.trip.stack]
        exact Table.mem_keys_iff.2 ⟨_, List.mem_of_getLast? top⟩
      refine ⟨Or.inl waits, _, mem _ List.mem_cons_self, ?_⟩
      rw [Predicate.bindReceiver_trait]
      exact (Predicate.ofParams_fresh decl.id decl.span some).trait

/-! ## What a projection can miss -/

/-- On a way of declared super-traits from `b` to `d`, a trait below `d` is on the stack, or a
bound was refused with a report. -/
inductive Blocked (tree : ItemTree) (problems : List Problem) (cx : Context) (b d : DefId) :
    Prop where
  | waits {x : DefId} (below : ReflTransGen tree.DeclaresSuper b x)
      (above : TransGen tree.DeclaresSuper x d) (waits : x ∈ cx.stack.keys)
  | refused {x y : DefId} {path : TypePath} (below : ReflTransGen tree.DeclaresSuper b x)
      (bound : tree.SuperBound x path y) (above : ReflTransGen tree.DeclaresSuper y d)
      (refused : tree.Refused problems path y)

theorem Blocked.tail {problems : List Problem} {b c d : DefId}
    (h : tree.Blocked problems cx b c) (up : tree.DeclaresSuper c d) :
    tree.Blocked problems cx b d := by
  cases h with
  | waits below above waits => exact .waits below (above.tail up) waits
  | refused below bound above refused => exact .refused below bound (above.tail up) refused

/-- What is closed under kept super-traits contains all declared ones that are not blocked. -/
theorem mem_or_blocked {problems : List Problem} (accounted : tree.AllAccounted problems cx)
    (begun : ∀ x y, cx.SuperEdge x y → cx.Begun y) {visited : List DefId}
    (closed : ∀ x ∈ visited, ∀ y, cx.SuperEdge x y → y ∈ visited) {b : DefId}
    (mem : b ∈ visited) (first : cx.Begun b) {d : DefId}
    (way : ReflTransGen tree.DeclaresSuper b d) :
    d ∈ visited ∧ cx.Begun d ∨ tree.Blocked problems cx b d := by
  induction way with
  | refl => exact Or.inl ⟨mem, first⟩
  | @tail c d below up ih =>
      rcases ih with ⟨mem, waits | cached⟩ | blocked
      · exact Or.inr (.waits below (.single up) waits)
      · obtain ⟨t, found⟩ := cx.exists_trait? cached
        obtain ⟨path, bound⟩ := up
        rcases accounted _ (Table.mem_entries_of_get? found) path d bound with
          ⟨p, written, own, -⟩ | refused
        · have edge : cx.SuperEdge c d := superEdge_iff.2 ⟨t, found, p, written, own⟩
          exact Or.inl ⟨closed c mem d edge, begun c d edge⟩
        · exact Or.inr (.refused below bound .refl refused)
      · exact Or.inr (blocked.tail up)

/-- A projection is looked up in the bounds of its parameter. -/
theorem lowerProjection_eq (tree : ItemTree) (cx : Context) (param : Param) (name : String)
    (span : Span) : Lowering.lowerProjection tree param name span cx =
      match cx.findAssocType? tree ((cx.attached param.node).filterMap Predicate.trait) name with
      | some decl => .ok (.projection (.param param) decl.id decl.name name, cx)
      | none => .ok (.error, cx.report (.unknownAssocType span param.name name)) := by
  unfold Lowering.lowerProjection Context.attached
  simp only [bind, StateT.bind, Except.bind, get, getThe, MonadStateOf.get, StateT.get, pure,
    Except.pure]
  generalize cx.findAssocType? tree _ name = out
  cases out <;> rfl

theorem lowerTy_projection (cx : Context) {resolve : Resolver} {scope : Scope} {path : TypePath}
    {first name : String} {param : Param} (names : path.names = [first, name])
    (inScope : scope.lookup first = some param) :
    Lowering.lowerTy tree resolve scope (.path path) cx =
      match cx.findAssocType? tree ((cx.attached param.node).filterMap Predicate.trait) name with
      | some decl => .ok (.projection (.param param) decl.id decl.name name, cx)
      | none => .ok (.error, cx.report (.unknownAssocType path.span param.name name)) := by
  obtain ⟨segments, span⟩ := path
  have short : Lowering.lowerTy tree resolve scope (.path (.mk segments span)) =
      Lowering.lowerProjection tree param name span := by
    simp only [Lowering.lowerTy, Lowering.lowerPath, names, Lowering.lowerShort?, inScope,
      Option.map_some]
  rw [short]
  exact lowerProjection_eq tree cx param name span

/-- Whenever the bounds of a parameter have been lowered, then or at any later moment of a run:
a projection on it either is found, in a trait that is reachable from a bound, and changes
nothing. Or it is reported, and then each way of declared super-traits from a bound of the
parameter to a trait that declares the associated type is blocked: the bound itself or one on
the way was refused with a report, or a trait on the way, below the one that declares the
type, is still on the stack. -/
theorem projection_lowered (crate : String) (declarations : List Declaration) (limit : Nat)
    {tree : ItemTree} (built : tree = (empty crate).declareAll declarations)
    {cx cx₁ cx₂ : Context} {handed later : List Problem} (before : tree.Run { limit } handed cx)
    {depth : Nat} (few : tree.untouched cx < depth) {param : Param} {self : Option DefId}
    {paths : List TypePath}
    (lowered : tree.LowersBounds (Lowering.resolveWithin tree depth) cx cx₁ param self paths)
    (after : tree.Run cx₁ later cx₂) (resolve : Resolver) {scope : Scope} {path : TypePath}
    {first name : String} (names : path.names = [first, name])
    (inScope : scope.lookup first = some param) :
    (∃ root id decl, (∃ p ∈ cx₂.attached param.node, p.trait = some root) ∧
      ReflTransGen cx₂.SuperEdge root id ∧ tree.trait? id = some decl ∧
      decl.declaresType name = true ∧
      Lowering.lowerTy tree resolve scope (.path path) cx₂ =
        .ok (.projection (.param param) id decl.name name, cx₂)) ∨
    Lowering.lowerTy tree resolve scope (.path path) cx₂ =
        .ok (.error, cx₂.report (.unknownAssocType path.span param.name name)) ∧
      ∀ b d, ReflTransGen tree.DeclaresSuper b d → tree.DeclaresType name d →
        (self = some b → tree.Blocked (handed ++ later ++ cx₂.problems) cx₂ b d) ∧
        ∀ bound ∈ paths, tree.resolveTraitPath bound = .ok b →
          tree.Refused (handed ++ later ++ cx₂.problems) bound b ∨
            tree.Blocked (handed ++ later ++ cx₂.problems) cx₂ b d := by
  have numbered : tree.Numbered := built ▸ (numbered_empty crate).declareAll declarations
  have ready : tree.Ready depth cx :=
    ⟨numbered, before.coherent (Idle.start limit).coherent, few⟩
  obtain ⟨trip, attached, own⟩ := lowered.attached (Lowering.resolveWithin_resolves depth) ready
  have whole : tree.Run { limit } (handed ++ later) cx₂ := by
    simpa using (before.trans (Run.moves trip.moves)).trans after
  -- The search is over the traits of the bounds that are attached at that moment.
  have searched := findAssocType?_spec whole.superEdge_declared
    ((cx₂.attached param.node).filterMap Predicate.trait) name
  rw [lowerTy_projection cx₂ names inScope]
  generalize cx₂.findAssocType? tree _ name = out at searched ⊢
  cases searched with
  | @found root id decl start way declared declares =>
      obtain rfl := numbered id decl declared
      exact Or.inl ⟨root, _, decl, List.mem_filterMap.1 start, way, declared, declares, rfl⟩
  | @none visited exhausted =>
      refine Or.inr ⟨rfl, fun b d way declares => ?_⟩
      have accounted := whole.allAccounted
      -- A way from an attached bound is followed by the search as far as super-traits are kept.
      have reached {p : Predicate} (mem : p ∈ cx₂.attached param.node) (own : p.trait = some b)
          (begun : cx₂.Begun b) : tree.Blocked (handed ++ later ++ cx₂.problems) cx₂ b d := by
        have start := exhausted.reached (List.mem_filterMap.2 ⟨p, mem, own⟩)
        refine (mem_or_blocked accounted (whole.superEdge_begun (superEdge_begun_start _))
          (fun x mem => exhausted.closed x mem List.not_mem_nil) start begun way).resolve_left ?_
        exact fun ⟨mem, _⟩ => exhausted.barren d mem List.not_mem_nil declares
      constructor
      · intro self
        obtain ⟨begun, p, mem, own⟩ := own b self
        exact reached (after.attached _ mem) own (after.begun begun)
      · intro bound written named
        rcases attached.run after bound written b named with refused | ⟨begun, p, mem, own⟩
        · refine Or.inl (refused.mono ?_)
          rw [List.append_assoc]
          exact List.subset_append_right _ _
        · exact Or.inr (reached mem own begun)

/-- `trait Base { type Out; }` and `trait Sub: Base {}`. -/
def superLibrary : ItemTree := (empty "main").declareAll [
  .trait "Base" [.assocType "Out" [] none],
  .trait "Sub" [.super (.ofText "Base")]]

/-- For a parameter `T: Sub`, the projection `T::Out` is found in `Base`. -/
theorem projection_lowered_superLibrary :
    ∃ out cx, Lowering.lowerGenerics superLibrary (Lowering.resolveWithin superLibrary 3) {}
        [typeParam ⟨9⟩ "T" [.ofText "Sub"] none default] { limit := 128 } = .ok (out, cx) ∧
      out.1.lookup "T" = some ⟨⟨9⟩, "T"⟩ ∧ cx.problems = [] ∧ cx.stack.keys = [] ∧
      ∃ id decl, superLibrary.trait? id = some decl ∧ decl.declaresType "Out" = true ∧
        Lowering.lowerTy superLibrary superLibrary.resolveDef out.1 (.path (.ofText "T::Out")) cx =
          .ok (.projection (.param ⟨⟨9⟩, "T"⟩) id decl.name "Out", cx) := by
  have observed : (Lowering.lowerGenerics superLibrary (Lowering.resolveWithin superLibrary 3) {}
      [typeParam ⟨9⟩ "T" [.ofText "Sub"] none default] { limit := 128 }).toOption.map
        (fun out => (out.1.1.lookup "T", out.2.problems, out.2.stack.keys)) =
      some (some ⟨⟨9⟩, "T"⟩, [], []) := by
    decide +kernel
  obtain ⟨⟨out, cx⟩, ran, seen⟩ := ok_of_observed observed
  simp only [Prod.mk.injEq] at seen
  obtain ⟨inScope, quiet, idle⟩ := seen
  have few : superLibrary.untouched { limit := 128 } < 3 := by decide +kernel
  have lowered : superLibrary.LowersBounds (Lowering.resolveWithin superLibrary 3)
      { limit := 128 } cx ⟨⟨9⟩, "T"⟩ none [.ofText "Sub"] :=
    .generics ((Idle.start 128).admitsAll _) ran (List.mem_singleton_self _)
  have names : (TypePath.ofText "T::Out").names = ["T", "Out"] := by decide +kernel
  have named : superLibrary.resolveTraitPath (.ofText "Sub") = .ok ⟨1⟩ := by decide +kernel
  have way : ReflTransGen superLibrary.DeclaresSuper ⟨1⟩ ⟨0⟩ :=
    .single (declaresSuper_iff.2 ⟨_, rfl, by decide +kernel⟩)
  have declares : superLibrary.DeclaresType "Out" ⟨0⟩ := ⟨_, rfl, by decide +kernel⟩
  rcases projection_lowered "main" _ 128 rfl .refl few lowered .refl superLibrary.resolveDef names
    inScope with ⟨root, id, decl, -, -, declared, own, found⟩ | ⟨-, missed⟩
  · exact ⟨out, cx, ran, inScope, quiet, idle, id, decl, declared, own, found⟩
  · -- nothing is reported and nothing is on the stack, so no way is blocked
    have none := (missed ⟨1⟩ ⟨0⟩ way declares).2 _ (List.mem_singleton_self _) named
    simp only [List.nil_append, quiet] at none
    rcases none with refused | ⟨-, -, waits⟩ | ⟨-, -, -, refused⟩
    · cases refused <;> contradiction
    · rw [idle] at waits
      exact absurd waits List.not_mem_nil
    · cases refused <;> contradiction

/-- `trait Base { type X; }` and `trait A: Base { fn f<T: A>(&self, x: T::X); }`. -/
def openBound : ItemTree := (empty "main").declareAll [
  .trait "Base" [.assocType "X" [] none],
  .trait "A" [.super (.ofText "Base"),
    .method "f" [.self .ref, .typeParam "T" [.ofText "A"], .param "x" (.path (.ofText "T::X"))]]]

/-- While `A` is being built, its super-traits are not seen through the bound `T: A`, and `T::X`
is reported, although `A` declares `Base` and `Base` declares `X`. -/
theorem projection_missed_openBound :
    ∃ handed cx, Request.runAll openBound [.runPasses [.traits]] { limit := 128 } =
        .ok (handed, cx) ∧ handed ++ cx.problems = [.unknownAssocType default "T" "X"] ∧
      openBound.resolveTraitPath (.ofText "A") = .ok ⟨1⟩ ∧ openBound.DeclaresSuper ⟨1⟩ ⟨0⟩ ∧
      openBound.DeclaresType "X" ⟨0⟩ ∧ ∀ id, ¬TransGen openBound.DeclaresSuper id id := by
  have descends : ∀ a ∈ openBound.ids, ∀ decl ∈ openBound.trait? a,
      ∀ b ∈ openBound.named decl.superPaths, b.index < a.index := by decide +kernel
  have acyclic : ∀ id, ¬TransGen openBound.DeclaresSuper id id := by
    refine acyclic_of_descends DefId.index fun a b declares => ?_
    obtain ⟨decl, declared, mem⟩ := declaresSuper_iff.1 declares
    exact descends a (mem_ids_of_trait? declared) decl declared b mem
  have named : openBound.resolveTraitPath (.ofText "A") = .ok ⟨1⟩ := by decide +kernel
  have super : openBound.DeclaresSuper ⟨1⟩ ⟨0⟩ :=
    declaresSuper_iff.2 ⟨_, rfl, by decide +kernel⟩
  have observed : (Request.runAll openBound [.runPasses [.traits]] { limit := 128 }).toOption.map
      (fun out => out.1 ++ out.2.problems) = some [.unknownAssocType default "T" "X"] := by
    decide +kernel
  obtain ⟨⟨handed, cx⟩, ran, reported⟩ := ok_of_observed observed
  exact ⟨handed, cx, ran, reported, named, super, ⟨_, rfl, by decide +kernel⟩, acyclic⟩

end ItemTree

end TraitEngine
