import TraitEngine.Proofs.Declarations
import TraitEngine.Proofs.Ends
import TraitEngine.Proofs.Moves
import TraitEngine.Resolve.Lowering
/-!
# Trips

A trip is what happens between two moments at which the same traits are being
built at the same stages: a run of moves that leaves the stack as it was and
defers nothing but checks on traits that are on the stack. Every
request made while something is lowered is a trip.

A tour is a trip that keeps an invariant besides. Lowering does to a context by itself only
what `Upkeep` lists, so any invariant with this upkeep is kept while something is lowered,
provided that the requests keep it.

`Ready depth cx` is what a request needs: a coherent context in which fewer than
`depth` traits are neither on the stack nor in the cache. That number is what
bounds the nesting of requests: a trip never raises it and beginning a trait
lowers it.
-/

namespace TraitEngine

set_option autoImplicit false

open Journal

namespace Problem

/-- The problem is neither of a cycle nor of a default body. -/
def Ordinary (p : Problem) : Prop := p.isCycle = false ∧ p.isUnknownItem = false

theorem ordinary_of_isPlain {p : Problem} (plain : p.isPlain = true) : p.Ordinary := by
  obtain ⟨cycle, -, body, -⟩ := isPlain_iff.1 plain
  exact ⟨cycle, body⟩

theorem ordinary_of_isOfImpl {p : Problem} (strange : p.isOfImpl = true) : p.Ordinary := by
  cases p <;> first | exact ⟨rfl, rfl⟩ | cases strange

end Problem

/-- An invariant that lowering keeps by itself, between the requests that it makes. -/
structure Upkeep where
  Holds : Context → Prop
  report {cx : Context} {p : Problem} (other : p.isUnknownItem = false) :
    Holds cx → Holds (cx.report p)
  insertType {cx : Context} (node : NodeId) (ty : Ty) : Holds cx → Holds (cx.insertType node ty)
  addBounds {cx : Context} (node : NodeId) (ps : List Predicate) :
    Holds cx → Holds (cx.addBounds node ps)
  setPending {cx : Context} (id : DefId) (params : List TraitParam) :
    Holds cx → Holds (cx.setPending id params)
  deferObjectSafety {cx : Context} (id : DefId) (span : Span) :
    Holds cx → Holds (cx.deferObjectSafety id span)
  enterItems {cx : Context} (id : DefId) : Holds cx → Holds (cx.enterItems id)

/-- Nothing is to be kept. -/
def Upkeep.none : Upkeep where
  Holds := fun _ => True
  report := fun _ => id
  insertType := fun _ _ => id
  addBounds := fun _ _ => id
  setPending := fun _ _ => id
  deferObjectSafety := fun _ _ => id
  enterItems := fun _ => id

namespace ItemTree

variable (tree : ItemTree)

/-- Moves that end where they began: on the same stack, with no more waiting than it explains.
-/
structure Trip (cx cx' : Context) : Prop where
  moves : tree.Moves cx cx'
  stack : cx'.stack = cx.stack
  deferred : ∀ e ∈ cx'.deferred, e ∈ cx.deferred ∨ e.1 ∈ cx.stack.keys
  unfinished : ∀ id, cx'.states.get? id = some .cached ↔ cx.states.get? id = some .cached

/-- A trip that keeps the invariant. -/
structure Tour (inv : Upkeep) (cx cx' : Context) : Prop where
  trip : tree.Trip cx cx'
  kept : inv.Holds cx → inv.Holds cx'

/-- How many items are neither on the stack nor in the cache. -/
def untouched (cx : Context) : Nat :=
  tree.ids.countP fun id => id ∉ cx.stack.keys ∧ id ∉ cx.cache.keys

/-- A request at this depth will not run out of it. -/
structure Ready (depth : Nat) (cx : Context) : Prop where
  numbered : tree.Numbered
  coherent : tree.Coherent cx
  few : tree.untouched cx < depth

/-- The only fault: a declared trait has no receiver. -/
def Faults (f : Fault) : Prop :=
  ∃ id decl, tree.trait? id = some decl ∧ decl.splitReceiver? = none ∧
    f = .missingReceiver decl.name

/-- What a request for a trait answers: the cached trait, or the error reference
with its cause. -/
structure Answer (cx : Context) (id : DefId) (span : Span) (t : TraitRef) : Prop where
  found : t.isError = false → cx.trait? id = some t
  refused : t.isError = true → tree.trait? id = none ∨ id ∈ cx.stack.keys ∨
    ∃ name limit, Problem.recursionLimit span name limit ∈ cx.problems

/-- The requests that `resolve` answers while fewer than `depth` traits are
untouched are trips. -/
def Resolves (depth : Nat) (resolve : Resolver) : Prop :=
  ∀ id span cx, tree.Ready depth cx → tree.Admits cx id →
    Check.Ends tree.Faults (resolve id span) cx fun t cx' =>
      tree.Trip cx cx' ∧ tree.Answer cx' id span t

/-- The requests that `resolve` answers are even tours. -/
def Serves (inv : Upkeep) (depth : Nat) (resolve : Resolver) : Prop :=
  ∀ id span cx, tree.Ready depth cx → tree.Admits cx id →
    Check.Ends tree.Faults (resolve id span) cx fun t cx' =>
      tree.Tour inv cx cx' ∧ tree.Answer cx' id span t

/-- Every trait that one of the paths names may be asked for. -/
def AdmitsAll (cx : Context) (paths : List TypePath) : Prop :=
  ∀ id, tree.Names paths id → tree.Admits cx id

variable {tree} {cx cx₁ cx₂ : Context}

theorem Answer.error {id : DefId} {span : Span} (cause : tree.trait? id = none ∨
    id ∈ cx.stack.keys ∨ ∃ name limit, .recursionLimit span name limit ∈ cx.problems) :
    tree.Answer cx id span TraitRef.error where
  found := fun fine => by cases fine
  refused := fun _ => cause

/-- While traits stay on the stack or in the cache, no more become untouched. -/
theorem untouched_mono (kept : ∀ id, id ∈ cx.stack.keys ∨ id ∈ cx.cache.keys →
    id ∈ cx₁.stack.keys ∨ id ∈ cx₁.cache.keys) : tree.untouched cx₁ ≤ tree.untouched cx := by
  refine List.countP_mono_left fun id _ h => ?_
  simp only [decide_eq_true_eq, ← not_or] at h ⊢
  exact fun touched => h (kept id touched)

namespace Trip

theorem refl (cx : Context) : tree.Trip cx cx where
  moves := .refl
  stack := rfl
  deferred := fun _ mem => Or.inl mem
  unfinished := fun _ => Iff.rfl

theorem trans (first : tree.Trip cx cx₁) (second : tree.Trip cx₁ cx₂) : tree.Trip cx cx₂ where
  moves := first.moves.trans second.moves
  stack := second.stack.trans first.stack
  deferred := by
    intro e mem
    rcases second.deferred e mem with mem | waits
    · exact first.deferred e mem
    · exact Or.inr (first.stack ▸ waits)
  unfinished := fun id => (second.unfinished id).trans (first.unfinished id)

/-- A move that touches neither the stack nor what waits prolongs a trip. -/
theorem move (trip : tree.Trip cx cx₁) (step : tree.Move cx₁ cx₂) (stack : cx₂.stack = cx₁.stack)
    (deferred : cx₂.deferred = cx₁.deferred) (states : cx₂.states = cx₁.states) :
    tree.Trip cx cx₂ :=
  trip.trans {
    moves := .single step
    stack
    deferred := fun e mem => Or.inl (deferred ▸ mem)
    unfinished := fun id => by rw [states] }

theorem report (trip : tree.Trip cx cx₁) {p : Problem} (plain : p.isCycle = false) :
    tree.Trip cx (cx₁.report p) :=
  trip.move (.report plain) (by simp) (by simp) (by simp)

theorem insertType (trip : tree.Trip cx cx₁) (node : NodeId) (ty : Ty) :
    tree.Trip cx (cx₁.insertType node ty) :=
  trip.move (.insertType node ty) rfl rfl rfl

theorem addBounds (trip : tree.Trip cx cx₁) (node : NodeId) (ps : List Predicate) :
    tree.Trip cx (cx₁.addBounds node ps) :=
  trip.move (.addBounds node ps) rfl rfl rfl

theorem setPending (trip : tree.Trip cx cx₁) {id : DefId} {params : List TraitParam}
    (waits : id ∈ cx₁.stack.keys) (some : params ≠ []) :
    tree.Trip cx (cx₁.setPending id params) :=
  trip.move (.setPending waits some) rfl rfl rfl

theorem deferObjectSafety (trip : tree.Trip cx cx₁) {id : DefId} (span : Span)
    (waits : id ∈ cx₁.stack.keys) : tree.Trip cx (cx₁.deferObjectSafety id span) :=
  trip.trans {
    moves := .single (.deferObjectSafety span waits)
    stack := rfl
    deferred := by
      intro e mem
      rcases List.mem_append.1 mem with mem | mem
      · exact Or.inl mem
      · rw [List.mem_singleton.1 mem]
        exact Or.inr waits
    unfinished := fun _ => Iff.rfl }

/-! ## What a trip carries along -/

theorem coherent (trip : tree.Trip cx cx₁) (h : tree.Coherent cx) : tree.Coherent cx₁ :=
  trip.moves.coherent h

theorem mem_cache (trip : tree.Trip cx cx₁) {id : DefId} (h : id ∈ cx.cache.keys) :
    id ∈ cx₁.cache.keys :=
  trip.moves.mem_cache h

theorem limit (trip : tree.Trip cx cx₁) : cx₁.limit = cx.limit := by
  have moves := trip.moves
  clear trip
  induction moves with
  | refl => rfl
  | tail _ move ih => rw [move.limit, ih]

/-- On a trip no more traits become untouched, so the depth that was enough stays enough. -/
theorem untouched_le (trip : tree.Trip cx cx₁) : tree.untouched cx₁ ≤ tree.untouched cx :=
  untouched_mono fun _ => Or.imp (fun waits => trip.stack ▸ waits) trip.mem_cache

theorem ready (trip : tree.Trip cx cx₁) {depth : Nat} (h : tree.Ready depth cx) :
    tree.Ready depth cx₁ where
  numbered := h.numbered
  coherent := trip.coherent h.coherent
  few := Nat.lt_of_le_of_lt trip.untouched_le h.few

theorem admits (trip : tree.Trip cx cx₁) {id : DefId} (h : tree.Admits cx id) :
    tree.Admits cx₁ id := by
  rw [Admits, trip.stack]
  exact h

theorem admitsAll (trip : tree.Trip cx cx₁) {paths : List TypePath}
    (h : tree.AdmitsAll cx paths) : tree.AdmitsAll cx₁ paths :=
  fun id named => trip.admits (h id named)

end Trip

/-! ## Tours -/

/-- With nothing to keep, trips are tours. -/
theorem Trip.tour (trip : tree.Trip cx cx₁) : tree.Tour .none cx cx₁ := ⟨trip, fun _ => trivial⟩

/-- With nothing to keep, resolving is serving. -/
theorem Resolves.serves {depth : Nat} {resolve : Resolver} (h : tree.Resolves depth resolve) :
    tree.Serves .none depth resolve :=
  fun id span cx ready asked => (h id span cx ready asked).mono fun _ _ resolved =>
    ⟨resolved.1.tour, resolved.2⟩

namespace Tour

variable {inv : Upkeep}

theorem refl (cx : Context) : tree.Tour inv cx cx := ⟨.refl cx, id⟩

theorem trans (first : tree.Tour inv cx cx₁) (second : tree.Tour inv cx₁ cx₂) :
    tree.Tour inv cx cx₂ :=
  ⟨first.trip.trans second.trip, second.kept ∘ first.kept⟩

theorem report (tour : tree.Tour inv cx cx₁) {p : Problem} (ordinary : p.Ordinary) :
    tree.Tour inv cx (cx₁.report p) :=
  ⟨tour.trip.report ordinary.1, inv.report ordinary.2 ∘ tour.kept⟩

theorem insertType (tour : tree.Tour inv cx cx₁) (node : NodeId) (ty : Ty) :
    tree.Tour inv cx (cx₁.insertType node ty) :=
  ⟨tour.trip.insertType node ty, inv.insertType node ty ∘ tour.kept⟩

theorem addBounds (tour : tree.Tour inv cx cx₁) (node : NodeId) (ps : List Predicate) :
    tree.Tour inv cx (cx₁.addBounds node ps) :=
  ⟨tour.trip.addBounds node ps, inv.addBounds node ps ∘ tour.kept⟩

theorem setPending (tour : tree.Tour inv cx cx₁) {id : DefId} {params : List TraitParam}
    (waits : id ∈ cx₁.stack.keys) (some : params ≠ []) :
    tree.Tour inv cx (cx₁.setPending id params) :=
  ⟨tour.trip.setPending waits some, inv.setPending id params ∘ tour.kept⟩

theorem deferObjectSafety (tour : tree.Tour inv cx cx₁) {id : DefId} (span : Span)
    (waits : id ∈ cx₁.stack.keys) : tree.Tour inv cx (cx₁.deferObjectSafety id span) :=
  ⟨tour.trip.deferObjectSafety span waits, inv.deferObjectSafety id span ∘ tour.kept⟩

end Tour

/-- A refusal that is reported stays reported while no problem is dropped. -/
theorem Refused.mono {problems more : List Problem} {path : TypePath} {id : DefId}
    (h : tree.Refused problems path id) (sub : problems ⊆ more) : tree.Refused more path id := by
  cases h with
  | cycle closes reported => exact .cycle closes (sub reported)
  | limit reported => exact .limit (sub reported)
  | args reported => exact .args (sub reported)

/-! ## Parts of what may be asked for -/

theorem AdmitsAll.mono {xs ys : List TypePath} (h : tree.AdmitsAll cx ys)
    (sub : ∀ path ∈ xs, path ∈ ys) : tree.AdmitsAll cx xs :=
  NamesOnly.mono h sub

theorem AdmitsAll.left {xs ys : List TypePath} (h : tree.AdmitsAll cx (xs ++ ys)) :
    tree.AdmitsAll cx xs :=
  NamesOnly.left h

theorem AdmitsAll.right {xs ys : List TypePath} (h : tree.AdmitsAll cx (xs ++ ys)) :
    tree.AdmitsAll cx ys :=
  NamesOnly.right h

theorem AdmitsAll.tail {path : TypePath} {xs : List TypePath}
    (h : tree.AdmitsAll cx (path :: xs)) : tree.AdmitsAll cx xs :=
  NamesOnly.tail h

theorem AdmitsAll.head {path : TypePath} {xs : List TypePath} (h : tree.AdmitsAll cx (path :: xs))
    {id : DefId} (named : tree.resolveTraitPath path = .ok id) : tree.Admits cx id :=
  NamesOnly.head h named

theorem AdmitsAll.flatMap {α : Type} {f : α → List TypePath} {xs : List α}
    (h : tree.AdmitsAll cx (xs.flatMap f)) {x : α} (mem : x ∈ xs) : tree.AdmitsAll cx (f x) :=
  NamesOnly.flatMap h mem

/-- A trait that is being built may ask for what it mentions at its stage. -/
theorem admitsAll_of_top {id : DefId} {decl : TraitDecl} {stage : ResolveStage}
    (top : cx.stack.entries.getLast? = some (id, stage)) (declared : tree.trait? id = some decl) :
    tree.AdmitsAll cx (decl.mentionsAt stage) := by
  intro other named e last
  obtain rfl := Option.some.inj (top.symm.trans last)
  exact .named declared named

/-- Whoever may ask for a trait may ask for what its bodies mention. -/
theorem admitsAll_bodyMentions {id : DefId} {decl : TraitDecl}
    (declared : tree.trait? id = some decl) (asked : tree.Admits cx id) :
    tree.AdmitsAll cx decl.bodyMentions :=
  fun _ named e last => .body (asked e last) declared named

/-- At the top level everything may be asked for. -/
theorem admits_of_idle (idle : cx.stack.entries = []) (id : DefId) : tree.Admits cx id := by
  intro e top
  rw [idle] at top
  exact absurd top (by simp)

end ItemTree

end TraitEngine
