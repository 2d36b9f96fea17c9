import TraitEngine.Index
import TraitEngine.Trait.Reference
/-!
# The analysis context

What the analyses of one crate share: the cache of resolved traits, the stack of
traits being resolved, the types and bounds of nodes, and the problems reported
so far, each of them once. A trait is on the stack or in the cache, never both.
The states that traits come to are written into a journal.
-/

namespace TraitEngine

set_option autoImplicit false

inductive ResolveState where
  | resolving
  | cached
  | bodiesResolved
  deriving DecidableEq, Repr

/-- What a trait on the stack is doing. Only super-trait requests form cycles. -/
inductive ResolveStage where
  | supers
  | items
  deriving DecidableEq, Repr

/-- The states that traits have come to, the oldest first. -/
structure Journal where
  entries : List (DefId × ResolveState) := []

namespace Journal

/-- The latest state of a trait. -/
def get? (j : Journal) (id : DefId) : Option ResolveState :=
  (j.entries.reverse.find? fun e => e.1 = id).map Prod.snd

def record (j : Journal) (id : DefId) (state : ResolveState) : Journal :=
  ⟨j.entries ++ [(id, state)]⟩

end Journal

structure Context where
  limit : Nat
  cache : Table DefId TraitRef := {}
  states : Journal := {}
  /-- The traits being resolved, the outermost first. -/
  stack : Table DefId ResolveStage := {}
  /-- Parameters, defaults lowered, of traits on the stack. -/
  pending : Table DefId (List TraitParam) := {}
  /-- Trait objects over traits on the stack, to be checked when those are cached. -/
  deferred : List (DefId × Span) := []
  types : Table NodeId Ty := {}
  bounds : Table NodeId Bounds := {}
  problems : List Problem := []

namespace Context

def trait? (cx : Context) (id : DefId) : Option TraitRef := cx.cache.get? id

def isResolving (cx : Context) (id : DefId) : Bool := cx.stack.contains id

def depth (cx : Context) : Nat := cx.stack.size

def report (cx : Context) (p : Problem) : Context :=
  if p ∈ cx.problems then cx else { cx with problems := cx.problems ++ [p] }

def insertType (cx : Context) (node : NodeId) (ty : Ty) : Context :=
  { cx with types := cx.types.insert node ty }

def boundsOf? (cx : Context) (ty : Ty) : Option Bounds :=
  ty.param?.bind fun p => cx.bounds.get? p.node

/-- Attaches predicates to a node, after those it has. -/
def addBounds (cx : Context) (node : NodeId) (ps : List Predicate) : Context :=
  { cx with bounds := cx.bounds.insert node (((cx.bounds.get? node).getD {}).addAll ps) }

def beginResolving (cx : Context) (id : DefId) : Context :=
  { cx with
    stack := cx.stack.insert id .supers
    states := cx.states.record id .resolving }

def enterItems (cx : Context) (id : DefId) : Context :=
  if cx.isResolving id then { cx with stack := cx.stack.insert id .items } else cx

def setPending (cx : Context) (id : DefId) (params : List TraitParam) : Context :=
  { cx with pending := cx.pending.insert id params }

/-- The traits from `id` to the top of the stack and `id` again, if all of them
are still at their super-traits. -/
def superTraitCycle? (cx : Context) (id : DefId) : Option (List DefId) :=
  match cx.stack.entries.dropWhile (fun e => e.1 ≠ id) with
  | [] => none
  | chain =>
    if chain.all fun e => e.2 = .supers then some (chain.map Prod.fst ++ [id]) else none

def insertTrait (cx : Context) (id : DefId) (t : TraitRef) : Context :=
  { cx with
    stack := cx.stack.erase id
    pending := cx.pending.erase id
    cache := cx.cache.insert id t
    states := cx.states.record id .cached }

def markBodiesResolved (cx : Context) (id : DefId) : Context :=
  { cx with states := cx.states.record id .bodiesResolved }

def deferObjectSafety (cx : Context) (id : DefId) (span : Span) : Context :=
  { cx with deferred := cx.deferred ++ [(id, span)] }

/-- The spans of the deferred checks of a trait, which are dropped. -/
def takeDeferred (cx : Context) (id : DefId) : List Span × Context :=
  ((cx.deferred.filter (·.1 = id)).map Prod.snd,
    { cx with deferred := cx.deferred.filter (·.1 ≠ id) })

end Context

namespace Predicate

/-- The resolved trait behind the predicate, once it is cached. -/
def get? (p : Predicate) (cx : Context) : Option TraitRef := p.trait.bind cx.trait?

def getChecked? (p : Predicate) (cx : Context) : Option TraitRef :=
  if p.failed then none else p.get? cx

/-- The predicate failed or its trait is not cached yet. -/
def isError (p : Predicate) (cx : Context) : Bool := (p.getChecked? cx).isNone

def requiresArgs (p : Predicate) (cx : Context) : Bool :=
  !p.isError cx && 1 < p.params.length

def member? (p : Predicate) (cx : Context) (name : String) : Option Member :=
  (p.getChecked? cx).bind fun t => (t.item? name).map (Member.mk p)

def containsItem (p : Predicate) (cx : Context) (name : String) : Bool :=
  (p.member? cx name).isSome

end Predicate

/-- A step of an analysis: it works on the context and may fault. -/
abbrev Check := StateT Context (Except Fault)

namespace Check

def report (p : Problem) : Check Unit := modify (·.report p)

end Check

end TraitEngine
