import TraitEngine.Resolve.TraitItem
/-!
# Trait resolution

A trait is resolved once: its declaration becomes a reference in the cache, which
every later request returns. While it is resolved it stands on the stack, and
requests for it give the error reference. Once it is cached, the checks that had
to wait for it are made: of trait objects over it and of its default bodies.

Requests nest through super-traits, bounds, items and bodies. Each nested request
that resolves anything takes a trait that is neither on the stack nor cached, so
they nest at most as deep as there are items, and the fault at depth 0 is never
reached.
-/

namespace TraitEngine

set_option autoImplicit false

namespace Lowering

section

variable (tree : ItemTree) (resolve : Resolver)

/-- Lowers the defaults of the parameters, in the order of the parameters. -/
def lowerFallbacks (scope : Scope) : List TypeParam → Check (List TraitParam)
  | [] => return []
  | p :: rest => do
    let fallback ← match p.fallback with
      | some t => some <$> lowerTy tree resolve scope t
      | none => pure none
    return { TraitParam.ofDecl p with fallback } :: (← lowerFallbacks scope rest)

/-- Lowers the first item of each name and reports the others. -/
def lowerItems (scope : Scope) (decl : TraitDecl) (self : Ty) (params : List TraitParam)
    (seen : List TraitItem) : List TraitItem → Check (List ItemRef)
  | [] => return []
  | item :: rest => do
    match seen.find? fun first => first.name == item.name with
    | some first =>
      Check.report (.duplicateItem decl.name item.name first.span item.span)
      lowerItems scope decl self params seen rest
    | none =>
      let lowered ← lowerItem tree resolve scope decl.id self params item
      return lowered :: (← lowerItems scope decl self params (item :: seen) rest)

/-- The first stage of a trait: its parameters with their defaults, then its
super-traits. Among the bounds of the receiver the trait itself comes first, then
its super-traits. -/
def buildSupers (scope : Scope) (decl : TraitDecl) (receiver : TypeParam)
    (declared : List TypeParam) : Check (List TraitParam × List Predicate) := do
  for p in declared do
    modify (·.insertType p.node (.param p.toParam))
  let params ← lowerFallbacks tree resolve scope declared
  modify (·.setPending decl.id params)
  let self : Ty := .param receiver.toParam
  let own := (Predicate.ofParams decl.id params decl.span).bindReceiver self
  let supers ← lowerBounds tree resolve scope true self
    ((decl.supers ++ receiver.bounds).filterMap Bound.trait?)
  modify (·.addBounds receiver.node (Bounds.addAll {} (own :: supers)).toList)
  return (params, supers)

/-- The second stage: the bounds of the other parameters, then the items. -/
def buildItems (scope : Scope) (decl : TraitDecl) (receiver : TypeParam)
    (params : List TraitParam) : Check (List ItemRef) := do
  for p in decl.typeParams do
    unless p.node == receiver.node do
      lowerParamBounds tree resolve scope p
  lowerItems tree resolve scope decl (.param receiver.toParam) params [] decl.items

/-- Builds the reference of a trait. -/
def buildTrait (decl : TraitDecl) : Check TraitRef := do
  let some (receiver, others) := decl.splitReceiver?
    | throw (.missingReceiver decl.name)
  let scope : Scope := ⟨(receiver :: others).map TypeParam.toParam⟩
  let (params, supers) ← buildSupers tree resolve scope decl receiver (receiver :: others)
  modify (·.enterItems decl.id)
  let items ← buildItems tree resolve scope decl receiver params
  return { id := some decl.id, name := decl.name, span := decl.span, items, supers, params }

def checkUse (scope : Scope) : BodyUse → Check Unit
  | .bound path => do
    let _ ← lowerBound tree resolve scope false path
  | .item path name => do
    let p ← lowerBound tree resolve scope false path
    let cx ← get
    if !p.isError cx && !p.containsItem cx name then
      let traitName := (p.trait.map tree.traitName).getD ""
      Check.report (.unknownItem path.span traitName name)

/-- Checks the default bodies of a trait, each in the scope of the trait and of
the item's own parameters. -/
def checkBodies (scope : Scope) (decl : TraitDecl) : Check Unit := do
  for item in decl.items do
    if let some body := item.kind.body? then
      let own := item.kind.generics.filterMap GenericParam.type?
      for use in body.uses do
        checkUse tree resolve (scope.pushAll (own.map TypeParam.toParam)) use

/-- The checks that had to wait until the trait was cached. -/
def finishTrait (decl : TraitDecl) (t : TraitRef) : Check Unit := do
  let spans ← modifyGet (·.takeDeferred decl.id)
  for span in spans do
    let _ ← modifyGet (t.checkObjectSafety true span)
  checkBodies tree resolve ⟨t.params.map TraitParam.param⟩ decl
  modify (·.markBodiesResolved decl.id)

/-- Resolves a trait that is neither cached nor on the stack. -/
def resolveNew (id : DefId) (decl : TraitDecl) : Check TraitRef := do
  modify (·.beginResolving id)
  let t ← buildTrait tree resolve decl
  modify (·.insertTrait id t)
  finishTrait tree resolve decl t
  return ((← get).trait? id).getD .error

end

/-- Resolves a trait while requests nest at most `depth` deep. -/
def resolveWithin (tree : ItemTree) : Nat → Resolver
  | 0, _, _ => throw .exhausted
  | depth + 1, id, span => do
    let cx ← get
    if let some cached := cx.trait? id then return cached
    let some decl := tree.trait? id | return .error
    if cx.isResolving id then return .error
    if cx.limit ≤ cx.depth then
      Check.report (.recursionLimit span decl.name cx.limit)
      return .error
    resolveNew tree (resolveWithin tree depth) id decl

end Lowering

namespace ItemTree

/-- Resolves a declared trait on behalf of `span`. -/
def resolveDef (tree : ItemTree) : Resolver :=
  Lowering.resolveWithin tree (tree.items.size + 1)

/-- Resolves the trait that a path names; a failure is reported and gives the
error reference. -/
def resolveTrait (tree : ItemTree) (path : TypePath) : Check TraitRef := do
  match tree.resolveTraitPath path with
  | .ok id => tree.resolveDef id path.span
  | .error problem =>
    Check.report problem
    return .error

/-- Like `resolveTrait`, but resolves nothing: a trait that is not cached gives
the error reference. -/
def lookupTrait (tree : ItemTree) (path : TypePath) : Check TraitRef := do
  match tree.resolveTraitPath path with
  | .ok id => return ((← get).trait? id).getD .error
  | .error problem =>
    Check.report problem
    return .error

def lowerTy (tree : ItemTree) (scope : Scope) (t : TypeExpr) : Check Ty :=
  Lowering.lowerTy tree tree.resolveDef scope t

def lowerBound (tree : ItemTree) (scope : Scope) (isSuper : Bool) (path : TypePath) :
    Check Predicate :=
  Lowering.lowerBound tree tree.resolveDef scope isSuper path

def lowerGenerics (tree : ItemTree) (generics : List GenericParam) : Check Scope := do
  return (← Lowering.lowerGenerics tree tree.resolveDef {} generics).1

end ItemTree

end TraitEngine
