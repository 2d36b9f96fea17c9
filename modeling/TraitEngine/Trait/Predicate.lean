import TraitEngine.Problem
import TraitEngine.Trait.Param
/-!
# Bounds

A predicate is a trait applied to a receiver and to arguments that may still be
unbound: the lowered form of `T: Trait<Arg>`. Applying arguments keeps the
receiver, fills missing trailing arguments from the parameters' defaults, and on
a mismatch changes nothing but the error flag.
-/

namespace TraitEngine

set_option autoImplicit false

inductive AppliedArg where
  | lifetime (name : String)
  | type (ty : Ty)
  deriving DecidableEq

namespace AppliedArg

def type? : AppliedArg → Option Ty
  | .type ty => some ty
  | .lifetime _ => none

def lifetime? : AppliedArg → Option String
  | .type _ => none
  | .lifetime name => some name

end AppliedArg

/-- The lowered generic arguments of a bound. -/
structure AppliedArgs where
  args : List AppliedArg
  bindings : List (String × Ty)
  span : Span
  deriving DecidableEq

namespace AppliedArgs

def none (span : Span) : AppliedArgs := ⟨[], [], span⟩

def isEmpty (a : AppliedArgs) : Bool := a.args.isEmpty && a.bindings.isEmpty

/-- The type arguments. A lifetime after one of them is misplaced. -/
def types (a : AppliedArgs) : Except ArgMismatch (List Ty) :=
  let rest := a.args.dropWhile fun arg => arg.lifetime?.isSome
  match rest.findSome? AppliedArg.lifetime? with
  | some lifetime => .error (.misplacedLifetime lifetime)
  | Option.none => .ok (rest.filterMap AppliedArg.type?)

end AppliedArgs

structure Predicate where
  trait : Option DefId
  params : List TraitParam
  args : ArgList
  bindings : List (String × Ty)
  span : Span
  failed : Bool
  deriving DecidableEq

namespace Predicate

def error : Predicate where
  trait := none
  params := []
  args := .invalid
  bindings := []
  span := default
  failed := true

/-- The predicate over a trait's parameters with every slot unbound. -/
def ofParams (id : DefId) (params : List TraitParam) (span : Span) : Predicate :=
  if params.isEmpty then error
  else {
    trait := some id, params, span
    args := .of (params.map TraitParam.unbound) (some span)
    bindings := [], failed := false }

def binding? (p : Predicate) (name : String) : Option Ty := p.bindings.lookup name

def receiver? (p : Predicate) : Option Ty := (p.args.get? 0).bind ArgSlot.ty

/-- Binds the receiver, also where it occurs in the other arguments. -/
def bindReceiver (p : Predicate) (receiver : Ty) : Predicate :=
  if p.failed then p
  else { p with args := (p.args.rebind 0 receiver).specializeReceiver }

/-- How many leading arguments must be written: those up to the last parameter
without a default. -/
def requiredCount (params : List TraitParam) : Nat :=
  params.length - (params.reverse.takeWhile fun p => p.fallback.isSome).length

/-- Binds the parameters in turn to the written types, then to their defaults,
which may mention the parameters before them. -/
def fillSlots (done : List ArgSlot) : List TraitParam → List Ty → List ArgSlot
  | [], _ => done
  | p :: ps, ty :: tys => fillSlots (done ++ [p.bind ty]) ps tys
  | p :: ps, [] =>
    let ty := (p.fallback.map (·.specialize (.of done none))).getD .error
    fillSlots (done ++ [p.bind ty]) ps []

def appliedSlots (p : Predicate) (applied : AppliedArgs) : Except ArgMismatch ArgList := do
  let types ← applied.types
  let params := p.params.drop 1
  if params.length < types.length || types.length < requiredCount params then
    throw (.count params.length types.length)
  return .of (fillSlots (p.args.get? 0).toList params types) (some applied.span)

/-- Applies written arguments; the second part is the mismatch, if there is one.
A predicate without parameters takes no arguments. -/
def apply (p : Predicate) (applied : AppliedArgs) :
    Except Fault (Predicate × Option ArgMismatch) :=
  if p.args.isEmpty || p.params.isEmpty then .error .argumentsWithoutParameters
  else
    match p.appliedSlots applied with
    | .ok args => .ok ({ p with args, bindings := applied.bindings }, none)
    | .error mismatch => .ok ({ p with failed := true }, some mismatch)

/-- The canonical path of the trait. -/
def name (tree : ItemTree) (p : Predicate) : String :=
  ((p.trait.bind tree.canonicalPath?).map CanonicalPath.text).getD "<error>"

/-- The trait and the arguments after the receiver. -/
def text (tree : ItemTree) (p : Predicate) : String :=
  p.name tree ++ Ty.bracketed
    (p.args.written.map fun slot => (slot.ty.map Ty.text).getD slot.param.name)

def dynBound? (tree : ItemTree) (p : Predicate) : Option DynBound := do
  let id ← p.trait
  let decl ← tree.trait? id
  return .mk id decl.name (p.args.written.map fun slot => slot.ty.getD .error)

end Predicate

/-- The predicates attached to one type, in order. -/
structure Bounds where
  toList : List Predicate := []
  deriving DecidableEq

namespace Bounds

/-- Adds a predicate unless an identical one is there already. -/
def add (b : Bounds) (p : Predicate) : Bounds :=
  if p ∈ b.toList then b else ⟨b.toList ++ [p]⟩

def addAll (b : Bounds) (ps : List Predicate) : Bounds := ps.foldl add b

def containsTrait (b : Bounds) (id : DefId) : Bool :=
  b.toList.any fun p => p.trait == some id

def rawText (tree : ItemTree) (b : Bounds) : String :=
  " + ".intercalate (b.toList.map (Predicate.text tree))

def text (tree : ItemTree) (b : Bounds) : String := "bounds:[" ++ b.rawText tree ++ "]"

end Bounds

end TraitEngine
