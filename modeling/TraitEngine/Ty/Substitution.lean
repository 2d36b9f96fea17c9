import TraitEngine.Source
import TraitEngine.Ty.Text
/-!
# Argument lists and specialization

An argument list pairs the parameters of a declaration, in order, with the types
bound to them; the first slot is the receiver. `specialize` replaces every bound
parameter at once and keeps the others. The invalid list stands for a failed
application and turns every type into the error type.
-/

namespace TraitEngine

set_option autoImplicit false

/-- One parameter and the type bound to it, if any. -/
structure ArgSlot where
  param : Param
  ty : Option Ty
  deriving DecidableEq

inductive ArgList where
  | invalid
  | of (slots : List ArgSlot) (span : Option Span)
  deriving DecidableEq

namespace ArgList

def isInvalid : ArgList → Bool
  | .invalid => true
  | .of .. => false

def toList : ArgList → List ArgSlot
  | .invalid => []
  | .of slots _ => slots

def isEmpty (args : ArgList) : Bool := args.toList.isEmpty

def length (args : ArgList) : Nat := args.toList.length

def span? : ArgList → Option Span
  | .invalid => none
  | .of _ span => span

def get? (args : ArgList) (i : Nat) : Option ArgSlot := args.toList[i]?

/-- Changes the slots and nothing else. -/
def mapSlots (f : List ArgSlot → List ArgSlot) : ArgList → ArgList
  | .invalid => .invalid
  | .of slots span => .of (f slots) span

/-- Binds slot `i`, whose parameter stays. -/
def rebind (args : ArgList) (i : Nat) (ty : Ty) : ArgList :=
  args.mapSlots fun slots => slots.modify i fun slot => { slot with ty := some ty }

/-- The type bound to a parameter by the first slot of its node. -/
def lookup (args : ArgList) (p : Param) : Option Ty :=
  (args.toList.find? fun slot => slot.param.node == p.node).bind ArgSlot.ty

/-- Changes the types bound to the parameters after the receiver. -/
def mapArgs (f : Ty → Ty) (args : ArgList) : ArgList :=
  args.mapSlots fun
    | [] => []
    | receiver :: rest => receiver :: rest.map fun slot => { slot with ty := slot.ty.map f }

/-- The arguments after the receiver. -/
def written (args : ArgList) : List ArgSlot := args.toList.drop 1

def slotText (slot : ArgSlot) : String :=
  slot.param.name ++ "=" ++ (slot.ty.map Ty.text).getD "_"

def text (args : ArgList) : String :=
  if args.isInvalid then "<error>"
  else "<" ++ ", ".intercalate (args.toList.map slotText) ++ ">"

end ArgList

namespace Ty

mutual

/-- Replaces each parameter by what `lookup` finds for it. -/
def replace (lookup : Param → Option Ty) : Ty → Ty
  | .param p => (lookup p).getD (.param p)
  | .tuple ts => .tuple (replaceList lookup ts)
  | .adt d n ts => .adt d n (replaceList lookup ts)
  | .pointer k m t => .pointer k m (replace lookup t)
  | .array t n => .array (replace lookup t) n
  | .slice t => .slice (replace lookup t)
  | .fn n r ps t own =>
    .fn n (replaceOption lookup r) (replaceList lookup ps) (replace lookup t) own
  | .projection t d u n => .projection (replace lookup t) d u n
  | .dyn bs => .dyn (replaceBounds lookup bs)
  | .prim p => .prim p
  | .never => .never
  | .placeholder d n => .placeholder d n
  | .infer c => .infer c
  | .error => .error

def replaceList (lookup : Param → Option Ty) : List Ty → List Ty
  | [] => []
  | t :: ts => replace lookup t :: replaceList lookup ts

def replaceOption (lookup : Param → Option Ty) : Option Ty → Option Ty
  | none => none
  | some t => some (replace lookup t)

def replaceBounds (lookup : Param → Option Ty) : List DynBound → List DynBound
  | [] => []
  | b :: bs => replaceBound lookup b :: replaceBounds lookup bs

def replaceBound (lookup : Param → Option Ty) : DynBound → DynBound
  | .mk d n ts => .mk d n (replaceList lookup ts)

end

/-- The type with every bound parameter replaced by its argument. -/
def specialize (t : Ty) (args : ArgList) : Ty :=
  if args.isInvalid then .error else t.replace args.lookup

end Ty

namespace ArgList

/-- Replaces the receiver parameter inside the other arguments by the type in the
receiver's own slot. -/
def specializeReceiver (args : ArgList) : ArgList :=
  args.mapArgs fun t => t.specialize (.of (args.toList.take 1) none)

end ArgList

end TraitEngine
