import TraitEngine.NameResolution
import TraitEngine.Trait.Hierarchy
/-!
# Lowering type expressions

A scope holds the generic parameters visible at a place, the innermost last.
Type expressions become types and written bounds become predicates, by recursion
on what is written. A bound asks for its trait to be resolved; how that is done
is a parameter here, `resolve`. A bound on a trait that is still being resolved
gives a predicate over the parameters known so far, and a trait object over such
a trait has its safety checked later. Whatever cannot be lowered is reported and
becomes the error type or the error predicate.
-/

namespace TraitEngine

set_option autoImplicit false

structure Scope where
  params : List Param := []
  deriving DecidableEq

namespace Scope

def push (s : Scope) (p : Param) : Scope := ⟨s.params ++ [p]⟩

def pushAll (s : Scope) (ps : List Param) : Scope := ⟨s.params ++ ps⟩

/-- The innermost parameter of that name. -/
def lookup (s : Scope) (name : String) : Option Param :=
  s.params.reverse.find? fun p => p.name == name

end Scope

/-- How a trait is resolved on behalf of a place in the sources. -/
abbrev Resolver := DefId → Span → Check TraitRef

namespace Lowering

def mutability (unique : Bool) : Mutability := if unique then .unique else .shared

/-- `P::Name`, searched through the bounds of `P` in the order they are written. -/
def lowerProjection (tree : ItemTree) (param : Param) (name : String) (span : Span) :
    Check Ty := do
  let cx ← get
  let start := ((cx.bounds.get? param.node).getD {}).toList.filterMap Predicate.trait
  match cx.findAssocType? tree start name with
  | some decl => return .projection (.param param) decl.id decl.name name
  | none =>
    Check.report (.unknownAssocType span param.name name)
    return .error

/-- Paths that name no item: parameters, primitive types and projections. -/
def lowerShort? (tree : ItemTree) (scope : Scope) (names : List String) (span : Span) :
    Option (Check Ty) :=
  match names with
  | [name] =>
    match scope.lookup name with
    | some param => some (pure (.param param))
    | none => (Ty.ofPrimitiveName? name).map pure
  | [first, name] => (scope.lookup first).map fun p => lowerProjection tree p name span
  | _ => none

/-- The struct or enum that a path names. -/
def adtOf? (tree : ItemTree) (path : TypePath) : Check (Option AdtDecl) :=
  match tree.resolvePath path with
  | .error e => do
    Check.report (e.toProblem tree path)
    return none
  | .ok id =>
    match tree.adt? id with
    | some adt => return some adt
    | none => do
      Check.report (.expectedType path.span path.plain)
      return none

def finishAdt (adt : AdtDecl) (args : List Ty) (span : Span) : Check Ty := do
  let expected := adt.typeParams.length
  if args.length == expected then return .adt adt.id adt.name args
  else
    Check.report (.adtArgCount span adt.name expected args.length)
    return .error

/-- The predicate of a bound before its arguments are applied; `none` if the
trait cannot be had. A super-trait bound that closes a cycle is reported. -/
def boundHead? (tree : ItemTree) (resolve : Resolver) (id : DefId) (span : Span)
    (isSuper : Bool) : Check (Option Predicate) := do
  let cx ← get
  if cx.isResolving id then
    match if isSuper then cx.superTraitCycle? id else none with
    | some cycle =>
      Check.report (.superTraitCycle span (cycle.map tree.traitName))
      return none
    | none =>
      match cx.pending.get? id, tree.trait? id with
      | some params, _ => return some (.ofParams id params span)
      | none, some decl => return some (.ofParams id (decl.orderedParams.map .ofDecl) span)
      | none, none => return none
  else
    let t ← resolve id span
    return if t.isError then none else some (.ofTrait t span)

/-- Reports the arguments that do not fit, or else the bindings that the trait does
not declare. -/
def reviewBound (tree : ItemTree) (id : DefId) (p : Predicate) (span : Span) :
    Option ArgMismatch → Check Unit
  | some cause => Check.report (.argMismatch span (tree.traitName id) cause)
  | none => do
    if let some decl := tree.trait? id then
      for (name, _) in p.bindings do
        unless decl.declaresType name do
          Check.report (.unknownBinding span decl.name name)

/-- Applies the lowered arguments of a bound and checks its bindings. -/
def finishBound (tree : ItemTree) (id : DefId) (p : Predicate) (applied : AppliedArgs) :
    Check Predicate := do
  let (p, mismatch) ←
    if 1 < p.params.length || !applied.isEmpty then liftM (p.apply applied)
    else pure (p, none)
  reviewBound tree id p applied.span mismatch
  return p

/-- Admits one bound of a trait object: `none` if it makes the whole type an error. -/
def admitDynBound (p : Predicate) (span : Span) : Check (Option DefId) := do
  match if p.failed then none else p.trait with
  | none => return none
  | some id =>
    if (p.get? (← get)).isSome then
      let safe ← modifyGet (p.checkObjectSafety true span)
      return if safe then some id else none
    else
      modify (·.deferObjectSafety id span)
      return some id

section

variable (tree : ItemTree) (resolve : Resolver) (scope : Scope)

mutual

def lowerTy : TypeExpr → Check Ty
  | .path p => lowerPath p
  | .ref mutable t => return .pointer .reference (mutability mutable) (← lowerTy t)
  | .ptr mutable t => return .pointer .raw (mutability mutable) (← lowerTy t)
  | .tuple ts => return .tuple (← lowerTys ts)
  | .array t length => return .array (← lowerTy t) length
  | .slice t => return .slice (← lowerTy t)
  | .traitObject bounds => return ((← lowerDynBounds bounds).map Ty.dyn).getD .error
  | .never => return .never
  | .infer => return .infer .any

def lowerTys : List TypeExpr → Check (List Ty)
  | [] => return []
  | t :: ts => return (← lowerTy t) :: (← lowerTys ts)

def lowerPath : TypePath → Check Ty
  | .mk segments span =>
    let path : TypePath := .mk segments span
    match lowerShort? tree scope path.names span with
    | some lowered => lowered
    | none => do
      let some adt ← adtOf? tree path | return .error
      let applied ← lowerLastArgs false span segments
      finishAdt adt (applied.args.filterMap AppliedArg.type?) span

/-- The predicate of a written bound; `isSuper` marks the bounds on a trait's own
receiver. -/
def lowerBound (isSuper : Bool) : TypePath → Check Predicate
  | .mk segments span => do
    let path : TypePath := .mk segments span
    match tree.resolveTraitPath path with
    | .error problem =>
      Check.report problem
      return .error
    | .ok id =>
      let some p ← boundHead? tree resolve id span isSuper | return .error
      let applied ← lowerLastArgs true span segments
      finishBound tree id p applied

def lowerDynBounds : List TypePath → Check (Option (List DynBound))
  | [] => return some []
  | path :: rest => do
    let p ← lowerBound false path
    let some _ ← admitDynBound p path.span | return none
    let some bounds ← lowerDynBounds rest | return none
    return some ((p.dynBound? tree).toList ++ bounds)

/-- The arguments on the last segment; `bindings` says whether bindings count. -/
def lowerLastArgs (bindings : Bool) (span : Span) : List PathSegment → Check AppliedArgs
  | [] => return .none span
  | [.mk _ args] => lowerOptionalArgs bindings span args
  | _ :: s :: rest => lowerLastArgs bindings span (s :: rest)

def lowerOptionalArgs (bindings : Bool) (span : Span) :
    Option GenericArgs → Check AppliedArgs
  | none => return .none span
  | some args => lowerArgs bindings args

def lowerArgs (bindings : Bool) : GenericArgs → Check AppliedArgs
  | .mk args bound span => do
    let args ← lowerArgList args
    let bound ← if bindings then lowerBindings bound else pure []
    return { args, bindings := bound, span }

def lowerArgList : List GenericArg → Check (List AppliedArg)
  | [] => return []
  | .lifetime name :: rest => return .lifetime name :: (← lowerArgList rest)
  | .type t :: rest => return .type (← lowerTy t) :: (← lowerArgList rest)

def lowerBindings : List TypeBinding → Check (List (String × Ty))
  | [] => return []
  | .mk name t :: rest => return (name, ← lowerTy t) :: (← lowerBindings rest)

end

end

end Lowering

end TraitEngine
