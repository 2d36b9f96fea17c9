import TraitEngine.Proofs.Mentions
import TraitEngine.Proofs.Reporting
import TraitEngine.Resolve.Trait
/-!
# Requests made on the way

What a piece of syntax mentions it does not always ask for: the arguments of a parameter or
of a path that names nothing are not lowered, a trait object is given up at a bound that
names no trait, and of two items with one name the second is left out. `ItemTree.asks` and
its companions list the requests that lowering makes, in order, as far as they do not
depend on the context.

Two things do depend on it. A trait on the stack is not asked for, and a trait object is given
up at a bound that it does not admit. So lowering makes some of the listed requests, in that
order; and it does make the first one, if none of the traits is on the stack (`Asked`).

Between the requests it does nothing that matters to them (`Quiet`).
-/

namespace TraitEngine

set_option autoImplicit false

/-- A trait, and the place that it is asked for from. -/
structure Ask where
  id : DefId
  span : Span
  deriving DecidableEq

/-! ## What is asked for -/

namespace ItemTree

variable (tree : ItemTree)

/-- The path names a struct or an enum. -/
def namesAdt (path : TypePath) : Bool := ((tree.resolvePath path).toOption.bind tree.adt?).isSome

section

variable (scope : Scope)

mutual

/-- The requests that lowering a type expression makes. -/
def asks : TypeExpr → List Ask
  | .path p => pathAsks p
  | .ref _ t | .ptr _ t => asks t
  | .tuple ts => listAsks ts
  | .array t _ | .slice t => asks t
  | .traitObject bounds => dynAsks bounds
  | .never | .infer => []

def listAsks : List TypeExpr → List Ask
  | [] => []
  | t :: ts => asks t ++ listAsks ts

def pathAsks : TypePath → List Ask
  | .mk segments span =>
    let path : TypePath := .mk segments span
    if (Lowering.lowerShort? tree scope path.names span).isSome then []
    else if tree.namesAdt path then lastAsks false segments
    else []

/-- A bound asks for its trait, then for what its arguments ask for. -/
def boundAsks : TypePath → List Ask
  | .mk segments span =>
    match tree.resolveTraitPath (.mk segments span) with
    | .error _ => []
    | .ok id => ⟨id, span⟩ :: lastAsks true segments

/-- The bounds of a trait object, up to one that names no trait. -/
def dynAsks : List TypePath → List Ask
  | [] => []
  | path :: rest => if (boundAsks path).isEmpty then [] else boundAsks path ++ dynAsks rest

def lastAsks (bindings : Bool) : List PathSegment → List Ask
  | [] => []
  | [.mk _ args] => optionalAsks bindings args
  | _ :: s :: rest => lastAsks bindings (s :: rest)

def optionalAsks (bindings : Bool) : Option GenericArgs → List Ask
  | none => []
  | some args => argsAsks bindings args

def argsAsks (bindings : Bool) : GenericArgs → List Ask
  | .mk args bound _ => argListAsks args ++ if bindings then bindingAsks bound else []

def argListAsks : List GenericArg → List Ask
  | [] => []
  | .lifetime _ :: rest => argListAsks rest
  | .type t :: rest => asks t ++ argListAsks rest

def bindingAsks : List TypeBinding → List Ask
  | [] => []
  | .mk _ t :: rest => asks t ++ bindingAsks rest

end

def boundsAsks (paths : List TypePath) : List Ask := paths.flatMap (tree.boundAsks scope)

def fallbackAsks (ps : List TypeParam) : List Ask :=
  ps.flatMap fun p => (p.fallback.map (tree.asks scope)).getD []

/-- The scope in which the bounds of generic parameters are lowered. -/
def inner (scope : Scope) (generics : List GenericParam) : Scope :=
  scope.pushAll ((generics.filterMap GenericParam.type?).map TypeParam.toParam)

def genericAsks (generics : List GenericParam) : List Ask :=
  (generics.filterMap GenericParam.type?).flatMap fun p =>
    tree.boundsAsks (inner scope generics) p.boundPaths

def signatureAsks (decl : FnDecl) : List Ask :=
  tree.genericAsks scope decl.generics ++
    (tree.listAsks (inner scope decl.generics) (decl.params.map FnParam.ty) ++
      (decl.ret.map (tree.asks (inner scope decl.generics))).getD [])

def itemKindAsks : TraitItemKind → List Ask
  | .type bounds fallback =>
    tree.boundsAsks scope (bounds.filterMap Bound.trait?) ++
      (fallback.map (tree.asks scope)).getD []
  | .const t _ => tree.asks scope t
  | .fn decl => tree.signatureAsks scope decl

/-- An item without a name is not lowered, nor is one whose name was there before. -/
def itemsAsks (seen : List TraitItem) : List TraitItem → List Ask
  | [] => []
  | item :: rest =>
    if (seen.find? fun first => first.name == item.name).isSome then itemsAsks seen rest
    else (if item.name.isEmpty then [] else tree.itemKindAsks scope item.kind) ++
      itemsAsks (item :: seen) rest

def bodyAsks (item : TraitItem) : List Ask :=
  ((item.kind.body?.map Body.uses).getD []).flatMap fun use =>
    tree.boundAsks (inner scope item.kind.generics) use.path

end

end ItemTree

namespace TraitDecl

/-- The scope of a trait: its type parameters, the receiver in front. -/
def scope (decl : TraitDecl) : Scope := ⟨decl.orderedParams.map TypeParam.toParam⟩

/-- The requests that a trait makes while it is built, at its super-traits and at its items. -/
def buildAsks (tree : ItemTree) (decl : TraitDecl) : List Ask :=
  (tree.fallbackAsks decl.scope decl.orderedParams ++ tree.boundsAsks decl.scope decl.superPaths) ++
    ((decl.ownParams.flatMap fun p => tree.boundsAsks decl.scope p.boundPaths) ++
      tree.itemsAsks decl.scope [] decl.items)

/-- The requests that the default bodies of a trait make, once it is cached. -/
def bodyAsks (tree : ItemTree) (decl : TraitDecl) : List Ask :=
  decl.items.flatMap (tree.bodyAsks decl.scope)

end TraitDecl

/-! ## Between the requests -/

/-- Nothing that a request depends on has changed, and no recursion limit is reported. -/
structure Quiet (cx cx' : Context) : Prop where
  limit : cx'.limit = cx.limit
  cache : cx'.cache = cx.cache
  stack : cx'.stack = cx.stack
  pending : cx'.pending = cx.pending
  problems : cx.problems ⊆ cx'.problems
  limits : ∀ p ∈ cx'.problems, p ∈ cx.problems ∨ p.isLimit = false

namespace Quiet

variable {cx cx₁ cx₂ : Context}

theorem refl (cx : Context) : Quiet cx cx where
  limit := rfl
  cache := rfl
  stack := rfl
  pending := rfl
  problems := List.Subset.refl _
  limits := fun _ => Or.inl

theorem trans (first : Quiet cx cx₁) (second : Quiet cx₁ cx₂) : Quiet cx cx₂ where
  limit := second.limit.trans first.limit
  cache := second.cache.trans first.cache
  stack := second.stack.trans first.stack
  pending := second.pending.trans first.pending
  problems := List.Subset.trans first.problems second.problems
  limits := by
    intro p mem
    rcases second.limits p mem with mem | other
    · exact first.limits p mem
    · exact Or.inr other

theorem report (cx : Context) {p : Problem} (other : p.isLimit = false) :
    Quiet cx (cx.report p) where
  limit := cx.report_limit p
  cache := cx.report_cache p
  stack := cx.report_stack p
  pending := cx.report_pending p
  problems := fun _ mem => (cx.mem_problems_report p).2 (Or.inl mem)
  limits := by
    intro q mem
    rcases (cx.mem_problems_report p).1 mem with mem | rfl
    · exact Or.inl mem
    · exact Or.inr other

/-- A change of the types, the bounds, the journal or the deferred checks is quiet. -/
theorem of_eq (limit : cx₁.limit = cx.limit) (cache : cx₁.cache = cx.cache)
    (stack : cx₁.stack = cx.stack) (pending : cx₁.pending = cx.pending)
    (problems : cx₁.problems = cx.problems) : Quiet cx cx₁ where
  limit := limit
  cache := cache
  stack := stack
  pending := pending
  problems := by rw [problems]; exact List.Subset.refl _
  limits := by rw [problems]; exact fun _ => Or.inl

/-- What only reports is quiet. -/
theorem reporting : Reporting Quiet where
  refl := refl
  trans := trans
  report := fun cx _ plain => report cx (Problem.isPlain_iff.1 plain).2.1

end Quiet

/-- Quiet steps, and between them the requests of the list, in order. -/
inductive Trace (resolve : Resolver) : List Ask → Context → Context → Prop where
  | quiet {cx cx' : Context} (quiet : Quiet cx cx') : Trace resolve [] cx cx'
  | ask {cx cx₁ cx₂ cx' : Context} {a : Ask} {rest : List Ask} {t : TraitRef}
      (before : Quiet cx cx₁) (asked : resolve a.id a.span cx₁ = .ok (t, cx₂))
      (after : Trace resolve rest cx₂ cx') : Trace resolve (a :: rest) cx cx'

/-- Some of the listed requests were made in order, and with them the first one unless a trait
of the list is on the stack, which is the same before and after. -/
structure Asked (resolve : Resolver) (asks : List Ask) (cx cx' : Context) : Prop where
  stack : cx'.stack = cx.stack
  trace : ∃ made, Trace resolve made cx cx' ∧ made.Sublist asks ∧
    ((∀ a ∈ asks, a.id ∉ cx.stack.keys) → made.head? = asks.head?)

/-- A resolver that leaves the stack as it was. -/
def Resolver.KeepsStack (resolve : Resolver) : Prop :=
  ∀ id span cx t cx', resolve id span cx = .ok (t, cx') → cx'.stack = cx.stack

section

variable {resolve : Resolver} {asks later : List Ask} {cx cx₁ cx₂ : Context}

theorem Trace.append {made more : List Ask} (first : Trace resolve made cx cx₁)
    (second : Trace resolve more cx₁ cx₂) : Trace resolve (made ++ more) cx cx₂ := by
  induction first with
  | quiet quiet =>
      cases second with
      | quiet next => exact .quiet (quiet.trans next)
      | ask before asked after => exact .ask (quiet.trans before) asked after
  | ask before asked _ ih => exact .ask before asked (ih second)

/-- What quiet steps and requests keep, a trace keeps. -/
theorem Trace.keeps {made : List Ask} {keeps : Context → Prop} (trace : Trace resolve made cx cx₁)
    (quiet : ∀ {cx cx'}, Quiet cx cx' → keeps cx → keeps cx')
    (request : ∀ {id span cx t cx'}, resolve id span cx = .ok (t, cx') → keeps cx → keeps cx')
    (start : keeps cx) : keeps cx₁ := by
  induction trace with
  | quiet step => exact quiet step start
  | ask before asked _ ih => exact ih (request asked (quiet before start))

namespace Asked

theorem quiet (quiet : Quiet cx cx₁) : Asked resolve [] cx cx₁ :=
  ⟨quiet.stack, [], .quiet quiet, List.nil_sublist _, fun _ => rfl⟩

theorem refl (cx : Context) : Asked resolve [] cx cx := quiet (.refl cx)

theorem trans (first : Asked resolve asks cx cx₁) (second : Asked resolve later cx₁ cx₂) :
    Asked resolve (asks ++ later) cx cx₂ := by
  obtain ⟨made, trace, sub, head⟩ := first.trace
  obtain ⟨more, trace', sub', head'⟩ := second.trace
  refine ⟨second.stack.trans first.stack, made ++ more, trace.append trace', sub.append sub',
    fun free => ?_⟩
  have head := head fun a mem => free a (List.mem_append_left _ mem)
  have head' := head' fun a mem => first.stack ▸ free a (List.mem_append_right _ mem)
  rw [List.head?_append, List.head?_append, head, head']

theorem quietly (first : Asked resolve asks cx cx₁) (quiet : Quiet cx₁ cx₂) :
    Asked resolve asks cx cx₂ := by
  have all := first.trans (.quiet quiet)
  rwa [List.append_nil] at all

/-- What comes later in the list may be left out. -/
theorem stop (first : Asked resolve asks cx cx₁) (some : asks ≠ []) :
    Asked resolve (asks ++ later) cx cx₁ := by
  obtain ⟨made, trace, sub, head⟩ := first.trace
  refine ⟨first.stack, made, trace, sub.trans (List.sublist_append_left _ _), fun free => ?_⟩
  obtain ⟨a, rest, rfl⟩ := List.exists_cons_of_ne_nil some
  exact head fun a mem => free a (List.mem_append_left _ mem)

end Asked

theorem Quiet.asked (quiet : Quiet cx cx₁) (later : Asked resolve asks cx₁ cx₂) :
    Asked resolve asks cx cx₂ := by
  have all := (Asked.quiet quiet).trans later
  rwa [List.nil_append] at all

end

end TraitEngine
