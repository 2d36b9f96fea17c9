import TraitEngine.Proofs.Asks.Resolution
import TraitEngine.Proofs.Sessions
/-!
# The recursion limit

A trait is on the stack while it is built, and no longer when its default bodies are checked.
So of the links of a chain of traits, each of which asks for the next one, only those made
while a trait is built count towards the recursion limit. The request behind as many of them
as the limit allows is refused and reported, and exactly the traits before it are cached
(`resolveDef_chain`). Links through default bodies nest just as deep, but they are free: a
chain with fewer building links than the limit is resolved to its end, however long it is
(`resolveDef_unlimited`).
-/

namespace TraitEngine

set_option autoImplicit false

open Check Lowering

/-! ## Chains -/

/-- Where a trait asks for the next one of a chain. -/
inductive LinkPlace where
  /-- At a default, a super-trait, a bound or an item. -/
  | building
  /-- In a default body. -/
  | body
  deriving DecidableEq, Repr

/-- A link of a chain, to the trait `next`. -/
structure ChainLink where
  place : LinkPlace
  span : Span
  next : DefId
  deriving DecidableEq, Repr

namespace ChainLink

/-- How many of the links count towards the recursion limit. -/
def depth (links : List ChainLink) : Nat := links.countP fun link => link.place = .building

/-- The request of a link, if there is one and it is made at that place. -/
def asksAt (place : LinkPlace) : Option ChainLink → List Ask
  | none => []
  | some link => if link.place = place then [⟨link.next, link.span⟩] else []

end ChainLink

namespace ItemTree

variable (tree : ItemTree)

/-- The link is the only request that the trait makes; without a link it makes none. -/
def Joins (decl : TraitDecl) (link? : Option ChainLink) : Prop :=
  decl.buildAsks tree = ChainLink.asksAt .building link? ∧
    decl.bodyAsks tree = ChainLink.asksAt .body link?

instance (decl : TraitDecl) (link? : Option ChainLink) : Decidable (tree.Joins decl link?) :=
  inferInstanceAs (Decidable (_ ∧ _))

/-- Declared traits, each of which asks for the next one and for nothing else; the last one
has the link `stop`, if it has any. -/
def Chain (stop : Option ChainLink) : DefId → List ChainLink → Prop
  | id, [] => ∃ decl ∈ tree.trait? id, tree.Joins decl stop
  | id, link :: rest => (∃ decl ∈ tree.trait? id, tree.Joins decl (some link)) ∧
      Chain stop link.next rest

/-- The report of the link at which a chain is stopped. -/
def refusals (limit : Nat) (stop : Option ChainLink) : List Problem :=
  stop.toList.map fun last => .recursionLimit last.span (tree.traitName last.next) limit

instance decidableChain (stop : Option ChainLink) :
    ∀ (id : DefId) (links : List ChainLink), Decidable (tree.Chain stop id links)
  | id, [] => inferInstanceAs (Decidable (∃ decl ∈ tree.trait? id, tree.Joins decl stop))
  | id, link :: rest =>
    have := decidableChain stop link.next rest
    inferInstanceAs (Decidable ((∃ decl ∈ tree.trait? id, tree.Joins decl (some link)) ∧
      tree.Chain stop link.next rest))

end ItemTree

/-! ## Lists of at most one request -/

/-- Nothing that counts has changed: neither what is cached, nor how deep the stack is, nor
which reports of the recursion limit there are. -/
structure Calm (cx cx' : Context) : Prop where
  limit : cx'.limit = cx.limit
  cache : cx'.cache = cx.cache
  keys : cx'.stack.keys = cx.stack.keys
  limits : ∀ p, p.isLimit = true → (p ∈ cx'.problems ↔ p ∈ cx.problems)

/-- A list of at most one request was made, and nothing else happened. -/
def Made (resolve : Resolver) : List Ask → Context → Context → Prop
  | [], cx, cx' => Calm cx cx'
  | [a], cx, cx' => ∃ cx₁ t cx₂, Calm cx cx₁ ∧ resolve a.id a.span cx₁ = .ok (t, cx₂) ∧ Calm cx₂ cx'
  | _ :: _ :: _, _, _ => True

section

variable {resolve : Resolver} {asks later : List Ask} {cx cx₁ cx₂ : Context}

namespace Calm

theorem of_eq (limit : cx₁.limit = cx.limit) (cache : cx₁.cache = cx.cache)
    (keys : cx₁.stack.keys = cx.stack.keys) (problems : cx₁.problems = cx.problems) :
    Calm cx cx₁ where
  limit := limit
  cache := cache
  keys := keys
  limits := by simp [problems]

theorem trans (first : Calm cx cx₁) (second : Calm cx₁ cx₂) : Calm cx cx₂ where
  limit := second.limit.trans first.limit
  cache := second.cache.trans first.cache
  keys := second.keys.trans first.keys
  limits := fun p limit => (second.limits p limit).trans (first.limits p limit)

end Calm

theorem Quiet.calm (quiet : Quiet cx cx₁) : Calm cx cx₁ where
  limit := quiet.limit
  cache := quiet.cache
  keys := congrArg Table.keys quiet.stack
  limits := by
    refine fun p limit => ⟨fun mem => (quiet.limits p mem).resolve_right ?_, @quiet.problems p⟩
    simp [limit]

theorem Calm.made (calm : Calm cx cx₁) (made : Made resolve asks cx₁ cx₂) :
    Made resolve asks cx cx₂ := by
  match asks, made with
  | [], done => exact calm.trans done
  | [_], ⟨cx₃, t, cx₄, before, asked, after⟩ =>
      exact ⟨cx₃, t, cx₄, calm.trans before, asked, after⟩
  | _ :: _ :: _, _ => exact trivial

theorem Made.trans (first : Made resolve asks cx cx₁) (second : Made resolve later cx₁ cx₂) :
    Made resolve (asks ++ later) cx cx₂ := by
  match asks, first with
  | [], calm => exact calm.made second
  | [_], ⟨cx₃, t, cx₄, before, asked, after⟩ =>
      match later, second with
      | [], calm => exact ⟨cx₃, t, cx₄, before, asked, after.trans calm⟩
      | _ :: _, _ => exact trivial
  | _ :: _ :: _, _ => exact trivial

/-- A single request is made, if its trait is not on the stack. -/
theorem Asked.made (asked : Asked resolve asks cx cx₁) (free : ∀ a ∈ asks, a.id ∉ cx.stack.keys) :
    Made resolve asks cx cx₁ := by
  obtain ⟨-, made, trace, sub, head⟩ := asked
  have head := head free
  match asks with
  | [] =>
      obtain rfl := List.sublist_nil.1 sub
      cases trace with
      | quiet quiet => exact quiet.calm
  | [a] =>
      cases trace with
      | quiet => cases head
      | @ask _ _ cx₂ _ b rest t before asked after =>
          obtain rfl := Option.some.inj head
          obtain rfl := List.sublist_nil.1 (List.cons_sublist_cons.1 sub)
          cases after with
          | quiet after => exact ⟨_, t, cx₂, before.calm, asked, after.calm⟩
  | _ :: _ :: _ => exact trivial

/-- The stations of a trait, told of its requests alone. -/
theorem Lowering.Course.made {tree : ItemTree} {id : DefId} {decl : TraitDecl} {cx' : Context}
    (course : Course tree resolve id decl cx cx') (keeps : resolve.KeepsStack)
    (numbered : decl.id = id) (notOpen : id ∉ cx.stack.keys)
    (free : ∀ a ∈ decl.buildAsks tree ++ decl.bodyAsks tree, a.id ∉ id :: cx.stack.keys) :
    ∃ cx₁ t, Made resolve (decl.buildAsks tree) (cx.beginResolving id) cx₁ ∧
      (cx₁.insertTrait id t).stack = cx.stack ∧
      Made resolve (decl.bodyAsks tree) (cx₁.insertTrait id t) cx' := by
  have stack := course.stack keeps numbered notOpen
  obtain ⟨begun, fallbacks, supers, items, own, -, bodies⟩ := course
  rename_i cx₁ cx₂ cx₃ cx₄ params t
  have left : (cx₄.insertTrait id t).stack = cx.stack := bodies.stack.symm.trans stack
  have keys₁ : cx₁.stack.keys = (cx.beginResolving id).stack.keys := congrArg _ begun.stack
  -- All three parts ask while the trait itself is on the stack, its bodies after it has left.
  have free₁ : ∀ a ∈ decl.buildAsks tree, a.id ∉ cx₁.stack.keys := by
    intro a mem waits
    rw [keys₁] at waits
    exact free a (List.mem_append_left _ mem)
      (List.mem_cons.2 ((Table.mem_keys_insert).1 waits))
  have lowered := ((lowerFallbacks_asked keeps decl.scope decl.orderedParams).of_eq_ok fallbacks).1
  have keys₂ : cx₂.stack.keys = cx₁.stack.keys := congrArg _ lowered.stack
  have keys₃ : (cx₃.enterItems decl.id).stack.keys = cx₁.stack.keys :=
    (cx₃.enterItems_keys decl.id).trans ((congrArg Table.keys supers.stack).trans keys₂)
  obtain ⟨entered, eq⟩ := cx₃.enterItems_eq decl.id
  have enter : Calm cx₃ (cx₃.enterItems decl.id) :=
    .of_eq (by rw [eq]) (by rw [eq]) (cx₃.enterItems_keys decl.id) (by rw [eq])
  have pend : Calm cx₂ (cx₂.setPending decl.id params) := .of_eq rfl rfl rfl rfl
  simp only [TraitDecl.buildAsks, List.mem_append] at free₁
  have first := lowered.made fun a mem => free₁ a (Or.inl (Or.inl mem))
  have second := pend.made (supers.made fun a mem =>
    (show (cx₂.setPending decl.id params).stack.keys = _ from keys₂) ▸
      free₁ a (Or.inl (Or.inr mem)))
  have third := enter.made (items.made fun a mem =>
    keys₃ ▸ free₁ a (Or.inr (List.mem_append.1 mem)))
  refine ⟨cx₄, t, begun.calm.made ((first.trans second).trans third), left, bodies.made ?_⟩
  intro a mem waits
  rw [left] at waits
  exact free a (List.mem_append_right _ mem) (List.mem_cons_of_mem _ waits)

end

/-! ## One trait of a chain -/

/-- The traits that were cached, and the reports of the recursion limit that were made. -/
structure Resolved (ids : List DefId) (refused : List Problem) (cx cx' : Context) : Prop where
  cached : ∀ id, id ∈ cx'.cache.keys ↔ id ∈ cx.cache.keys ∨ id ∈ ids
  limits : ∀ p, p.isLimit = true → (p ∈ cx'.problems ↔ p ∈ cx.problems ∨ p ∈ refused)

/-- What happens before and after the request of a trait: it is made from the stack below the
trait, with the trait on top if it is still being built. -/
structure Around (id : DefId) (place : LinkPlace) (cx cx₁ cx₂ cx' : Context) : Prop where
  limit : cx₁.limit = cx.limit
  keys : cx₁.stack.keys = cx.stack.keys ++ if place = .building then [id] else []
  before : ∀ x, x ∈ cx₁.cache.keys ↔ x ∈ cx.cache.keys ∨ place = .body ∧ x = id
  after : ∀ x, x ∈ cx'.cache.keys ↔ x ∈ cx₂.cache.keys ∨ place = .building ∧ x = id
  limitsBefore : ∀ p, p.isLimit = true → (p ∈ cx₁.problems ↔ p ∈ cx.problems)
  limitsAfter : ∀ p, p.isLimit = true → (p ∈ cx'.problems ↔ p ∈ cx₂.problems)

theorem Around.resolved {id : DefId} {place : LinkPlace} {cx cx₁ cx₂ cx' : Context}
    {ids : List DefId} {refused : List Problem} (around : Around id place cx cx₁ cx₂ cx')
    (resolved : Resolved ids refused cx₁ cx₂) : Resolved (id :: ids) refused cx cx' where
  cached := by
    intro x
    rw [around.after, resolved.cached, around.before, List.mem_cons]
    cases place <;> simp <;> tauto
  limits := fun p limit => by
    rw [around.limitsAfter p limit, resolved.limits p limit, around.limitsBefore p limit]

theorem Around.depth {id : DefId} {place : LinkPlace} {cx cx₁ cx₂ cx' : Context}
    (around : Around id place cx cx₁ cx₂ cx') :
    cx₁.depth = cx.depth + if place = .building then 1 else 0 := by
  have sized (cx : Context) : cx.depth = cx.stack.keys.length := (List.length_map Prod.fst).symm
  rw [sized, sized, around.keys, List.length_append]
  split <;> rfl

/-- What is neither on the stack nor cached, nor the trait itself, is neither when the trait
makes its request. -/
theorem Around.fresh {id : DefId} {place : LinkPlace} {cx cx₁ cx₂ cx' : Context}
    (around : Around id place cx cx₁ cx₂ cx') {x : DefId} (other : x ≠ id)
    (fresh : x ∉ cx.stack.keys ∧ x ∉ cx.cache.keys) :
    x ∉ cx₁.stack.keys ∧ x ∉ cx₁.cache.keys := by
  refine ⟨?_, fun cached => ?_⟩
  · rw [around.keys]
    cases place <;> simp [fresh.1, other]
  · rcases (around.before x).1 cached with old | ⟨-, same⟩
    · exact fresh.2 old
    · exact other same

namespace Lowering

variable {tree : ItemTree} {resolve : Resolver} {cx cx' : Context} {id : DefId}
  {decl : TraitDecl}

section

variable (course : Course tree resolve id decl cx cx') (keeps : resolve.KeepsStack)
  (numbered : decl.id = id) (notOpen : id ∉ cx.stack.keys)

include course keeps numbered notOpen

/-- A trait that makes one request. -/
theorem Course.link {link : ChainLink} (joins : tree.Joins decl (some link))
    (free : link.next ∉ id :: cx.stack.keys) :
    ∃ cx₁ t cx₂, resolve link.next link.span cx₁ = .ok (t, cx₂) ∧
      Around id link.place cx cx₁ cx₂ cx' := by
  obtain ⟨build, body⟩ := joins
  obtain ⟨cx₃, t, built, left, checked⟩ := course.made keeps numbered notOpen (by
    intro a mem
    rw [build, body] at mem
    cases place : link.place <;> simp [ChainLink.asksAt, place] at mem <;> subst mem <;> exact free)
  rw [build] at built
  rw [body] at checked
  have begun : (cx.beginResolving id).stack.keys = cx.stack.keys ++ [id] :=
    Table.keys_insert_of_new notOpen
  cases place : link.place with
  | building =>
      rw [ChainLink.asksAt, if_pos place] at built
      rw [ChainLink.asksAt, if_neg (by simp [place])] at checked
      obtain ⟨cx₁, u, cx₂, before, asked, after⟩ := built
      refine ⟨cx₁, u, cx₂, asked, before.limit, before.keys.trans begun, ?_, ?_, before.limits, ?_⟩
      · simp [before.cache, Context.beginResolving]
      · intro x
        rw [checked.cache, Context.insertTrait, Table.mem_keys_insert, after.cache]
        simp [or_comm]
      · exact fun p limit => (checked.limits p limit).trans (after.limits p limit)
  | body =>
      rw [ChainLink.asksAt, if_neg (by simp [place])] at built
      rw [ChainLink.asksAt, if_pos place] at checked
      obtain ⟨cx₁, u, cx₂, before, asked, after⟩ := checked
      refine ⟨cx₁, u, cx₂, asked, before.limit.trans built.limit, ?_, ?_, ?_, ?_, after.limits⟩
      · simp [before.keys, left]
      · intro x
        rw [before.cache, Context.insertTrait, Table.mem_keys_insert, built.cache]
        simp [or_comm, Context.beginResolving]
      · simp [after.cache]
      · exact fun p limit => (before.limits p limit).trans (built.limits p limit)

/-- A trait that makes no request. -/
theorem Course.alone (joins : tree.Joins decl none) : Resolved [id] [] cx cx' := by
  obtain ⟨build, body⟩ := joins
  obtain ⟨cx₁, t, built, left, checked⟩ := course.made keeps numbered notOpen (by
    simp [build, body, ChainLink.asksAt])
  rw [build] at built
  rw [body] at checked
  refine ⟨fun x => ?_, fun p limit => ?_⟩
  · rw [checked.cache, Context.insertTrait, Table.mem_keys_insert, built.cache]
    simp [or_comm, Context.beginResolving]
  · rw [checked.limits p limit, List.mem_nil_iff, or_false]
    exact built.limits p limit

end

/-! ## Chains of traits -/

section

variable {faults : Fault → Prop} {post : TraitRef → Context → Prop} {depth : Nat} (span : Span)
  (declared : tree.trait? id = some decl) (notOpen : id ∉ cx.stack.keys)
  (notCached : id ∉ cx.cache.keys)

include declared notOpen notCached

/-- A trait that is neither on the stack nor cached is resolved anew if the stack has room. -/
theorem ends_resolveWithin_new (room : cx.depth < cx.limit) :
    Ends faults (resolveWithin tree (depth + 1) id span) cx post ↔
      Ends faults (resolveNew tree (resolveWithin tree depth) id decl) cx post := by
  simp only [resolveWithin, ends_bind, ends_get, cx.trait?_eq_none_iff.2 notCached, declared]
  rw [if_neg (by rwa [cx.isResolving_iff]), if_neg (Nat.not_le_of_lt room)]

/-- If it has none, the trait is refused. -/
theorem ends_resolveWithin_full (full : cx.limit ≤ cx.depth) :
    Ends faults (resolveWithin tree (depth + 1) id span) cx post ↔
      post .error (cx.report (.recursionLimit span decl.name cx.limit)) := by
  simp only [resolveWithin, ends_bind, ends_get, cx.trait?_eq_none_iff.2 notCached, declared]
  rw [if_neg (by rwa [cx.isResolving_iff]), if_pos full, ends_bind, ends_report, ends_pure]

end

/-- A declared trait without room on the stack is refused. -/
theorem resolveWithin_full {depth : Nat} {span : Span} {t : TraitRef}
    (ran : resolveWithin tree depth id span cx = .ok (t, cx')) (declared : (tree.trait? id).isSome)
    (notOpen : id ∉ cx.stack.keys) (notCached : id ∉ cx.cache.keys) (full : cx.limit ≤ cx.depth) :
    Resolved [] [.recursionLimit span (tree.traitName id) cx.limit] cx cx' := by
  obtain ⟨decl, declared⟩ := Option.isSome_iff_exists.1 declared
  have named : tree.traitName id = decl.name := by simp [ItemTree.traitName, declared]
  cases depth with
  | zero => cases ran
  | succ depth =>
      have refused : Resolved [] [.recursionLimit span decl.name cx.limit] cx
          (cx.report (.recursionLimit span decl.name cx.limit)) :=
        ⟨fun x => by simp, fun p _ => by simp [cx.mem_problems_report]⟩
      have ends : Ends AnyFault (resolveWithin tree (depth + 1) id span) cx fun _ cx' =>
          Resolved [] [.recursionLimit span decl.name cx.limit] cx cx' :=
        (ends_resolveWithin_full span declared notOpen notCached full).2 refused
      rw [named]
      exact ends.of_eq_ok ran

/-- A chain can be run on a context: its traits are distinct and new there, and the stack has
room for them all, but none for the one that `stop` asks for. -/
structure Runnable (tree : ItemTree) (stop : Option ChainLink) (cx : Context) (first : DefId)
    (links : List ChainLink) : Prop where
  chain : tree.Chain stop first links
  distinct : (first :: (links ++ stop.toList).map ChainLink.next).Nodup
  fresh : ∀ x ∈ first :: (links ++ stop.toList).map ChainLink.next,
    x ∉ cx.stack.keys ∧ x ∉ cx.cache.keys
  room : cx.depth + ChainLink.depth links < cx.limit
  full : stop.isSome → cx.depth + ChainLink.depth links + 1 = cx.limit

namespace Runnable

variable {stop : Option ChainLink} {first : DefId} {link : ChainLink} {rest : List ChainLink}
  {cx₁ cx₂ : Context}

theorem ne_first (run : Runnable tree stop cx first (link :: rest)) :
    ∀ x ∈ (link :: (rest ++ stop.toList)).map ChainLink.next, x ≠ first := by
  rintro x mem rfl
  exact (List.nodup_cons.1 run.distinct).1 mem

/-- When the first trait makes its request, the rest of the chain can be run. -/
theorem next (run : Runnable tree stop cx first (link :: rest))
    (around : Around first link.place cx cx₁ cx₂ cx') : Runnable tree stop cx₁ link.next rest := by
  have counted : cx₁.depth + ChainLink.depth rest = cx.depth + ChainLink.depth (link :: rest) := by
    rw [around.depth, ChainLink.depth, ChainLink.depth, List.countP_cons]
    simp only [decide_eq_true_eq]
    omega
  refine ⟨run.chain.2, (List.nodup_cons.1 run.distinct).2, fun x mem => ?_, ?_, fun stops => ?_⟩
  · exact around.fresh (run.ne_first x mem) (run.fresh x (List.mem_cons_of_mem _ mem))
  · rw [counted, around.limit]
    exact run.room
  · rw [counted, around.limit]
    exact run.full stops

end Runnable

/-- The last trait of a chain that stops there: its request is refused. -/
theorem Course.stopped {last : ChainLink} {first : DefId} {depth : Nat}
    (course : Course tree (resolveWithin tree depth) first decl cx cx')
    (numbered : tree.Numbered) (own : tree.trait? first = some decl)
    (joins : tree.Joins decl (some last)) (building : last.place = .building)
    (known : (tree.trait? last.next).isSome) (run : Runnable tree (some last) cx first []) :
    Resolved [first] [.recursionLimit last.span (tree.traitName last.next) cx.limit] cx cx' := by
  obtain ⟨waits, cached⟩ := run.fresh last.next (by simp)
  have other : last.next ≠ first := by
    rintro same
    simpa [same] using run.distinct
  obtain ⟨cx₁, t, cx₂, asked, around⟩ := course.link (resolveWithin_keepsStack numbered depth)
    (numbered first decl own) (run.fresh first List.mem_cons_self).1 joins (by simp [other, waits])
  obtain ⟨notOpen, notCached⟩ := around.fresh other ⟨waits, cached⟩
  have deep : cx₁.limit ≤ cx₁.depth := by
    rw [around.limit, around.depth, if_pos building, ← run.full rfl]
    exact Nat.le_refl _
  have refused := resolveWithin_full asked known notOpen notCached deep
  rw [around.limit] at refused
  exact around.resolved refused

/-- A trait of a chain is resolved with all that come after it, up to the link at which the
stack has become as deep as the limit allows. -/
theorem resolveWithin_chain (numbered : tree.Numbered) {stop : Option ChainLink}
    (refusable : ∀ last ∈ stop, last.place = .building ∧ (tree.trait? last.next).isSome) :
    ∀ (links : List ChainLink) {depth : Nat} {first : DefId} {span : Span} {cx : Context},
      Runnable tree stop cx first links →
      Ends AnyFault (resolveWithin tree depth first span) cx fun _ cx' =>
        Resolved (first :: links.map ChainLink.next) (tree.refusals cx.limit stop) cx cx'
  | _, 0, _, _, _, _ => trivial
  | [], depth + 1, first, span, cx, run => by
      obtain ⟨decl, declared, joins⟩ := run.chain
      obtain ⟨notOpen, notCached⟩ := run.fresh first List.mem_cons_self
      have keeps := resolveWithin_keepsStack numbered depth
      rw [ends_resolveWithin_new span declared notOpen notCached run.room]
      refine (resolveNew_course keeps).mono fun _ cx' done => ?_
      cases stop with
      | none => exact done.1.alone keeps (numbered first decl declared) notOpen joins
      | some last =>
          obtain ⟨building, known⟩ := refusable last rfl
          exact done.1.stopped numbered declared joins building known run
  | link :: rest, depth + 1, first, span, cx, run => by
      obtain ⟨decl, declared, joins⟩ := run.chain.1
      obtain ⟨notOpen, notCached⟩ := run.fresh first List.mem_cons_self
      have keeps := resolveWithin_keepsStack numbered depth
      rw [ends_resolveWithin_new span declared notOpen notCached
        (Nat.lt_of_le_of_lt (Nat.le_add_right _ _) run.room)]
      refine (resolveNew_course keeps).mono fun _ cx' done => ?_
      have own := numbered first decl declared
      obtain ⟨cx₁, t, cx₂, asked, around⟩ := done.1.link keeps own notOpen joins
        (by simp [run.ne_first link.next (by simp), (run.fresh link.next (by simp)).1])
      have rested := (resolveWithin_chain numbered refusable rest (run.next around)).of_eq_ok asked
      rw [around.limit] at rested
      exact around.resolved rested

end Lowering

namespace ItemTree

section

variable (crate : String) (declarations : List Declaration) {tree : ItemTree}
  (built : tree = (empty crate).declareAll declarations) (receivers : tree.HasReceivers)
  {first : DefId} {links : List ChainLink} {limit : Nat} (span : Span)

include built receivers

/-- What the run of a chain does, from an empty context. -/
theorem resolveDef_along {stop : Option ChainLink} (chain : tree.Chain stop first links)
    (refusable : ∀ last ∈ stop, last.place = .building ∧ (tree.trait? last.next).isSome)
    (distinct : (first :: (links ++ stop.toList).map ChainLink.next).Nodup)
    (room : ChainLink.depth links < limit)
    (full : stop.isSome → ChainLink.depth links + 1 = limit) :
    ∃ t cx, tree.resolveDef first span { limit } = .ok (t, cx) ∧
      (∀ id, id ∈ cx.cache.keys ↔ id ∈ first :: links.map ChainLink.next) ∧
      ∀ p, p.isLimit = true → (p ∈ cx.problems ↔ p ∈ tree.refusals limit stop) := by
  have numbered : tree.Numbered := built ▸ (numbered_empty crate).declareAll declarations
  obtain ⟨t, cx, ran, -⟩ := ((resolveDef_ends numbered (Idle.start limit) (.refl _) first
    span).mono_faults fun _ fault => receivers.no_fault fault).exists_ok
  have empty : ({ limit } : Context).depth = 0 := rfl
  have run : Runnable tree stop { limit } first links := by
    refine ⟨chain, distinct, fun x _ => ⟨List.not_mem_nil, List.not_mem_nil⟩, ?_, fun stops => ?_⟩
    · rw [empty, Nat.zero_add]
      exact room
    · rw [empty, Nat.zero_add]
      exact full stops
  have resolved := (resolveWithin_chain numbered refusable links run).of_eq_ok ran
  refine ⟨t, cx, ran, fun id => (resolved.cached id).trans ?_, fun p limit =>
    (resolved.limits p limit).trans ?_⟩
  · exact or_iff_right List.not_mem_nil
  · exact or_iff_right List.not_mem_nil

/-- A chain with fewer building links than the limit is resolved to its end, however many links
there are in default bodies. -/
theorem resolveDef_unlimited (chain : tree.Chain none first links)
    (distinct : (first :: links.map ChainLink.next).Nodup) (room : ChainLink.depth links < limit) :
    ∃ t cx, tree.resolveDef first span { limit } = .ok (t, cx) ∧
      (∀ id, id ∈ cx.cache.keys ↔ id ∈ first :: links.map ChainLink.next) ∧
      ∀ p ∈ cx.problems, p.isLimit = false := by
  obtain ⟨t, cx, ran, cached, limits⟩ := resolveDef_along crate declarations built receivers span
    chain nofun (by simpa using distinct) room nofun
  refine ⟨t, cx, ran, cached, fun p mem => ?_⟩
  rw [← Bool.not_eq_true]
  exact fun limit => List.not_mem_nil ((limits p limit).1 mem)

/-- The request behind as many building links as the limit allows is refused and reported. The
traits before it are cached, and no trait behind it is. -/
theorem resolveDef_chain {last : ChainLink} (chain : tree.Chain (some last) first links)
    (declared : (tree.trait? last.next).isSome)
    (distinct : (first :: (links ++ [last]).map ChainLink.next).Nodup)
    (building : last.place = .building) (limited : ChainLink.depth (links ++ [last]) = limit) :
    ∃ t cx, tree.resolveDef first span { limit } = .ok (t, cx) ∧
      (∀ id, id ∈ cx.cache.keys ↔ id ∈ first :: links.map ChainLink.next) ∧
      ∀ p, p.isLimit = true →
        (p ∈ cx.problems ↔ p = .recursionLimit last.span (tree.traitName last.next) limit) := by
  have counted : ChainLink.depth links + 1 = limit := by
    simpa [ChainLink.depth, building] using limited
  obtain ⟨t, cx, ran, cached, limits⟩ := resolveDef_along crate declarations built receivers span
    chain (fun _ same => Option.some.inj same ▸ ⟨building, declared⟩) distinct (by omega)
    (fun _ => counted)
  exact ⟨t, cx, ran, cached, fun p limit => (limits p limit).trans List.mem_singleton⟩

end

/-- A chain with a link of every kind. -/
def mixedChain : ItemTree := (empty "main").declareAll [
  .trait "A" [.super (.ofText "B")],
  .trait "B" [.typeParam "T" [.ofText "C"] none],
  .trait "C" [.method "f" [.self .ref, .typeParam "T" [.ofText "D"]]],
  .trait "D" [.assocType "N" [.ofText "E"] none],
  .trait "E" [.method "f" [.self .ref, .param "x" (.traitObject [.ofText "F"])]],
  .trait "F" [.typeParam "T" [] (some (.traitObject [.ofText "G"]))],
  .trait "G" [.method "f" [.self .ref, .body ⟨[.bound (.ofText "H")]⟩]],
  .trait "H" [.super (.ofText "I")],
  .trait "I" []]

/-- With a limit of 7 the chain goes on to `H`; only the default body of `G` is free. -/
theorem resolveDef_chain_mixedChain :
    mixedChain.HasReceivers ∧
      ∃ t cx, mixedChain.resolveDef ⟨0⟩ default { limit := 7 } = .ok (t, cx) ∧
      (∀ id, id ∈ cx.cache.keys ↔ id ∈ [⟨0⟩, ⟨1⟩, ⟨2⟩, ⟨3⟩, ⟨4⟩, ⟨5⟩, ⟨6⟩, ⟨7⟩]) ∧
      .recursionLimit default "I" 7 ∈ cx.problems := by
  let building (next : Nat) : ChainLink := ⟨.building, default, ⟨next⟩⟩
  let links : List ChainLink := [building 1, building 2, building 3, building 4, building 5,
    building 6, ⟨.body, default, ⟨7⟩⟩]
  have receivers : mixedChain.HasReceivers := by decide +kernel
  have chain : mixedChain.Chain (some (building 8)) ⟨0⟩ links := by decide +kernel
  obtain ⟨t, cx, ran, cached, limits⟩ := resolveDef_chain "main" _ rfl receivers default chain
    (by decide +kernel) (by decide +kernel) rfl rfl
  exact ⟨receivers, t, cx, ran, cached, (limits _ rfl).2 rfl⟩

/-- `trait A { fn f(&self) { B } }` and `trait B {}`. -/
def bodyChain : ItemTree := (empty "main").declareAll [
  .trait "A" [.method "f" [.self .ref, .body ⟨[.bound (.ofText "B")]⟩]],
  .trait "B" []]

/-- A chain of two traits is resolved under a limit of 1, and nothing is reported. -/
theorem resolveDef_bodyChain :
    bodyChain.Chain none ⟨0⟩ [⟨.body, default, ⟨1⟩⟩] ∧
      ∃ t cx, bodyChain.resolveDef ⟨0⟩ default { limit := 1 } = .ok (t, cx) ∧
        cx.problems = [] ∧ cx.cache.keys = [⟨0⟩, ⟨1⟩] := by
  have observed : (bodyChain.resolveDef ⟨0⟩ default { limit := 1 }).toOption.map
      (fun out => (out.2.problems, out.2.cache.keys)) = some ([], [⟨0⟩, ⟨1⟩]) := by
    decide +kernel
  obtain ⟨⟨t, cx⟩, ran, seen⟩ := ok_of_observed observed
  obtain ⟨quiet, cached⟩ := Prod.mk.inj seen
  exact ⟨by decide +kernel, t, cx, ran, quiet, cached⟩

end ItemTree

end TraitEngine
