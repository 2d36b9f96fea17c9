import TraitEngine.Ty.Basic
/-!
# Acceptance

`accepts a b coerce` says whether a value of type `b` can stand where `a` is
expected. A generic parameter on the right stands for anything, one on the left
only for a parameter; inference variables stand for any type of their class;
the error type is never accepted. With `coerce`, and at the top level only, a
unique reference or pointer is accepted for a shared one, and `!` for any type but
a parameter and a variable of the integers or floats, which are decided before.
-/

namespace TraitEngine

set_option autoImplicit false

namespace Ty

def isInteger : Ty → Bool
  | .prim (.int _) | .prim (.uint _) | .infer .integer => true
  | _ => false

def isFloat : Ty → Bool
  | .prim (.float _) | .infer .float => true
  | _ => false

def acceptsMutability (expected found : Mutability) (coerce : Bool) : Bool :=
  expected == found || (coerce && expected == .shared && found == .unique)

/-- Acceptance where the two sides are not built alike. -/
def acceptsOpen : Ty → Ty → Bool → Bool
  | .error, _, _ | _, .error, _ => false
  | _, .param _, _ => true
  | .infer .any, _, _ | _, .infer .any, _ => true
  | .infer .integer, t, _ | t, .infer .integer, _ => t.isInteger
  | .infer .float, t, _ | t, .infer .float, _ => t.isFloat
  | .param _, _, _ => false
  | _, .never, coerce => coerce
  | _, _, _ => false

mutual

def accepts : Ty → Ty → Bool → Bool
  | .prim p, .prim q, _ => p == q
  | .never, .never, _ => true
  | .tuple xs, .tuple ys, _ => acceptsList xs ys
  | .adt d _ xs, .adt e _ ys, _ => d == e && acceptsList xs ys
  | .pointer k m x, .pointer l n y, coerce =>
    k == l && acceptsMutability m n coerce && accepts x y false
  | .array x n, .array y m, _ => n == m && accepts x y false
  | .slice x, .slice y, _ => accepts x y false
  | .fn _ r ps t _, .fn _ s qs u _, _ =>
    acceptsReceiver r s && acceptsList ps qs && accepts t u false
  | .placeholder d n, .placeholder e m, _ => d == e && n == m
  | .projection x d _ n, .projection y e _ m, _ => d == e && n == m && accepts x y false
  | .dyn xs, .dyn ys, _ => acceptsBounds xs ys
  | a, b, coerce => acceptsOpen a b coerce

def acceptsList : List Ty → List Ty → Bool
  | [], [] => true
  | x :: xs, y :: ys => accepts x y false && acceptsList xs ys
  | _, _ => false

def acceptsReceiver : Option Ty → Option Ty → Bool
  | none, none => true
  | some x, some y => accepts x y false
  | _, _ => false

def acceptsBounds : List DynBound → List DynBound → Bool
  | [], [] => true
  | x :: xs, y :: ys => acceptsBound x y && acceptsBounds xs ys
  | _, _ => false

def acceptsBound : DynBound → DynBound → Bool
  | .mk d _ xs, .mk e _ ys => d == e && acceptsList xs ys

end

/-- Acceptance in at least one direction, without coercions. -/
def compatible (a b : Ty) : Bool := accepts a b false || accepts b a false

end Ty

end TraitEngine
