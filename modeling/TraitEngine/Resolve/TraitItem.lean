import TraitEngine.Resolve.Lowering
/-!
# Lowering parameters and trait items

Generic parameters come into scope together, then their bounds are lowered. An
item of a trait is lowered in the scope of the trait; its type is recorded for
its node.
-/

namespace TraitEngine

set_option autoImplicit false

namespace Lowering

section

variable (tree : ItemTree) (resolve : Resolver)

/-- The predicates of written bounds for the type they are on; a bound that fails
is left out. -/
def lowerBounds (scope : Scope) (isSuper : Bool) (self : Ty) :
    List TypePath → Check (List Predicate)
  | [] => return []
  | path :: rest => do
    let p ← lowerBound tree resolve scope isSuper path
    let ps ← lowerBounds scope isSuper self rest
    return if p.failed then ps else p.bindReceiver self :: ps

/-- Attaches the bounds written on a parameter to it. -/
def lowerParamBounds (scope : Scope) (p : TypeParam) : Check Unit := do
  let ps ← lowerBounds tree resolve scope false (.param p.toParam)
    (p.bounds.filterMap Bound.trait?)
  modify (·.addBounds p.node ps)

/-- Brings parameters into scope, records their types and lowers their bounds. -/
def lowerGenerics (scope : Scope) (generics : List GenericParam) :
    Check (Scope × List Param) := do
  let typeParams := generics.filterMap GenericParam.type?
  let params := typeParams.map TypeParam.toParam
  let scope := scope.pushAll params
  for p in params do
    modify (·.insertType p.node (.param p))
  for p in typeParams do
    lowerParamBounds tree resolve scope p
  return (scope, params)

def receiverTy (self : Ty) : SelfParam → Ty
  | .value => self
  | .ref => self.ref
  | .refMut => self.refMut

def lowerSignature (scope : Scope) (self : Ty) (name : String) (decl : FnDecl) : Check Ty := do
  let (scope, own) ← lowerGenerics tree resolve scope decl.generics
  let params ← lowerTys tree resolve scope (decl.params.map FnParam.ty)
  let ret ← match decl.ret with
    | some ret => lowerTy tree resolve scope ret
    | none => pure .unit
  return .fn name (decl.self.map (receiverTy self)) params ret own

/-- The kind and type of an item of the trait `id`. The bounds and the default of
an associated type are lowered for what they report. -/
def lowerItemKind (scope : Scope) (id : DefId) (self : Ty) (name : String) :
    TraitItemKind → Check (ItemKind × Ty)
  | .type bounds fallback => do
    for path in bounds.filterMap Bound.trait? do
      let _ ← lowerBound tree resolve scope false path
    if let some t := fallback then
      let _ ← lowerTy tree resolve scope t
    return (.type, .placeholder id name)
  | .const t _ => return (.const, ← lowerTy tree resolve scope t)
  | .fn decl => return (.fn, ← lowerSignature tree resolve scope self name decl)

def lowerItem (scope : Scope) (id : DefId) (self : Ty) (params : List TraitParam)
    (item : TraitItem) : Check ItemRef := do
  if item.name.isEmpty || params.isEmpty then return .error item.name item.span
  let (kind, ty) ← lowerItemKind tree resolve scope id self item.name item.kind
  modify (·.insertType item.node ty)
  return {
    name := item.name, optional := item.kind.hasDefault, kind, node := some item.node
    ty, self, params, span := item.span }

end

end Lowering

end TraitEngine
