import TraitEngine.Decl.Tree
import TraitEngine.Ty.Substitution
/-!
# Parameters of a trait

The type parameters of a trait as predicates use them: the receiver first, then
the others in order of declaration, each with its default if that is lowered.
-/

namespace TraitEngine

set_option autoImplicit false

structure TraitParam where
  param : Param
  fallback : Option Ty
  span : Span
  deriving DecidableEq

namespace TraitParam

/-- A parameter straight from its declaration, its default not yet lowered. -/
def ofDecl (p : TypeParam) : TraitParam := ⟨p.toParam, none, p.span⟩

def ty (p : TraitParam) : Ty := .param p.param

def isReceiver (p : TraitParam) : Bool := p.param.isReceiver

/-- The slot of the parameter with `ty` bound to it. -/
def bind (p : TraitParam) (ty : Ty) : ArgSlot := ⟨p.param, some ty⟩

def unbound (p : TraitParam) : ArgSlot := ⟨p.param, none⟩

end TraitParam

namespace TraitDecl

/-- The receiver and the other type parameters, or `none` if no type parameter is
called `Self`. -/
def splitReceiver? (t : TraitDecl) : Option (TypeParam × List TypeParam) :=
  let named (p : TypeParam) : Bool := p.toParam.isReceiver
  (t.typeParams.find? named).map fun receiver => (receiver, t.typeParams.eraseP named)

/-- The type parameters, the receiver in front. -/
def orderedParams (t : TraitDecl) : List TypeParam :=
  match t.splitReceiver? with
  | some (receiver, others) => receiver :: others
  | none => t.typeParams

end TraitDecl

end TraitEngine
