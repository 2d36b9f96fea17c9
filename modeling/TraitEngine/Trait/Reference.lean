import TraitEngine.Trait.Predicate
/-!
# Resolved traits

A trait after resolution: its parameters, its items with their types, and the
bounds on its receiver other than itself. The error reference stands for every
failed resolution.
-/

namespace TraitEngine

set_option autoImplicit false

inductive ItemKind where
  | type
  | const
  | fn
  | error
  deriving DecidableEq, Repr

/-- One resolved item. Its type is in terms of the parameters of its trait. -/
structure ItemRef where
  name : String
  optional : Bool
  kind : ItemKind
  node : Option NodeId
  ty : Ty
  self : Ty
  params : List TraitParam
  span : Span
  deriving DecidableEq

namespace ItemRef

def error (name : String) (span : Span) : ItemRef where
  name
  span
  optional := false
  kind := .error
  node := none
  ty := .error
  self := .error
  params := []

def isError (i : ItemRef) : Bool := i.kind == .error

/-- What keeps the item from being used behind `dyn`. -/
def violation? (i : ItemRef) : Option Violation :=
  match i.kind, i.ty with
  | .const, _ => some ⟨.assocConst, i.name, i.span⟩
  | .fn, .fn _ none _ _ _ => some ⟨.noReceiver, i.name, i.span⟩
  | .fn, .fn _ (some _) _ _ (_ :: _) => some ⟨.genericMethod, i.name, i.span⟩
  | _, _ => none

end ItemRef

structure TraitRef where
  id : Option DefId
  name : String
  span : Span
  items : List ItemRef
  supers : List Predicate
  params : List TraitParam
  deriving DecidableEq

namespace TraitRef

def error : TraitRef where
  id := none
  name := "<error>"
  span := default
  items := []
  supers := []
  params := []

def isError (t : TraitRef) : Bool := t.id.isNone

/-- The first item of that name. -/
def item? (t : TraitRef) (name : String) : Option ItemRef :=
  t.items.find? fun item => item.name == name

def itemOfKind? (t : TraitRef) (name : String) (kind : ItemKind) : Option ItemRef :=
  t.items.find? fun item => item.name == name && item.kind == kind

def receiver? (t : TraitRef) : Option Param := t.params.head?.map TraitParam.param

/-- Both are references to one trait; the error reference is not one. -/
def isEqual (a b : TraitRef) : Bool := !a.isError && a.id == b.id

/-- The offending items of the trait itself. -/
def violations (t : TraitRef) : List Violation := t.items.filterMap ItemRef.violation?

end TraitRef

namespace Predicate

/-- The predicate over a resolved trait. -/
def ofTrait (t : TraitRef) (span : Span) : Predicate :=
  match t.id with
  | some id => ofParams id t.params span
  | none => error

end Predicate

/-- An item of a trait, seen through a predicate. -/
structure Member where
  bound : Predicate
  item : ItemRef

namespace Member

/-- An implementation has to provide the item. -/
def isRequired (m : Member) : Bool := !m.item.isError && !m.item.optional

/-- The item's type for a receiver. The declared type of an associated type stays
as it is; any other is specialized to the predicate's arguments, the receiver's
slot bound anew. -/
def typeFor (m : Member) (receiver : Ty) : Ty :=
  if m.item.isError then .error
  else if m.bound.args.isEmpty || m.item.kind == .type then m.item.ty
  else m.item.ty.specialize (m.bound.args.rebind 0 receiver).specializeReceiver

end Member

end TraitEngine
