import TraitEngine.Index
/-!
# Types

The lowered form of types. `Ty.text` prints the surface form, which the
fingerprint of legacy symbols is taken from. Equality is decidable although
types contain lists of types: `beq_iff` ties the structural test to equality.
-/

namespace TraitEngine

set_option autoImplicit false

inductive IntWidth where
  | w8 | w16 | w32 | w64 | w128 | size
  deriving DecidableEq, Repr

inductive FloatWidth where
  | w32 | w64
  deriving DecidableEq, Repr

inductive Primitive where
  | bool
  | char
  | str
  | int (w : IntWidth)
  | uint (w : IntWidth)
  | float (w : FloatWidth)
  deriving DecidableEq, Repr

inductive PointerKind where
  | reference
  | raw
  deriving DecidableEq, Repr

inductive Mutability where
  | shared
  | unique
  deriving DecidableEq, Repr

/-- What is known of an inference variable. -/
inductive InferClass where
  | any
  | integer
  | float
  deriving DecidableEq, Repr

/-- A generic parameter. Its node tells it apart from others of its name. -/
structure Param where
  node : NodeId
  name : String
  deriving DecidableEq, Repr

/-- The name of the implicit receiver parameter of every trait. -/
def receiverName : String := "Self"

namespace Param

def isReceiver (p : Param) : Bool := p.name == receiverName

end Param

mutual

/-- A lowered type. The unit type is the empty tuple; the receiver of a function
is kept apart from its other parameters; a placeholder is the declared type of
an associated type within its trait. -/
inductive Ty where
  | prim (p : Primitive)
  | never
  | tuple (elems : List Ty)
  | adt (id : DefId) (name : String) (args : List Ty)
  | pointer (kind : PointerKind) (m : Mutability) (inner : Ty)
  | array (elem : Ty) (length : Nat)
  | slice (elem : Ty)
  | fn (name : String) (receiver : Option Ty) (params : List Ty) (ret : Ty)
      (own : List Param)
  | param (p : Param)
  | placeholder (id : DefId) (name : String)
  | projection (self : Ty) (id : DefId) (traitName name : String)
  | dyn (bounds : List DynBound)
  | infer (c : InferClass)
  | error

/-- One bound of a trait object, with the arguments after the receiver. -/
inductive DynBound where
  | mk (id : DefId) (name : String) (args : List Ty)

end

namespace Ty

mutual

def beq : Ty → Ty → Bool
  | .prim p, .prim q => p == q
  | .never, .never => true
  | .tuple xs, .tuple ys => beqList xs ys
  | .adt d n xs, .adt e m ys => d == e && n == m && beqList xs ys
  | .pointer k m x, .pointer l n y => k == l && m == n && beq x y
  | .array x n, .array y m => n == m && beq x y
  | .slice x, .slice y => beq x y
  | .fn n r ps t own, .fn m s qs u own' =>
    n == m && own == own' && beqOption r s && beqList ps qs && beq t u
  | .param p, .param q => p == q
  | .placeholder d n, .placeholder e m => d == e && n == m
  | .projection x d t n, .projection y e u m => d == e && t == u && n == m && beq x y
  | .dyn xs, .dyn ys => beqBounds xs ys
  | .infer c, .infer d => c == d
  | .error, .error => true
  | _, _ => false

def beqList : List Ty → List Ty → Bool
  | [], [] => true
  | x :: xs, y :: ys => beq x y && beqList xs ys
  | _, _ => false

def beqOption : Option Ty → Option Ty → Bool
  | none, none => true
  | some x, some y => beq x y
  | _, _ => false

def beqBounds : List DynBound → List DynBound → Bool
  | [], [] => true
  | x :: xs, y :: ys => beqBound x y && beqBounds xs ys
  | _, _ => false

def beqBound : DynBound → DynBound → Bool
  | .mk d n xs, .mk e m ys => d == e && n == m && beqList xs ys

end

mutual

theorem beq_iff : (x y : Ty) → (beq x y = true ↔ x = y)
  | .prim _, y | .never, y | .error, y | .infer _, y | .param _, y | .placeholder .., y => by
    cases y <;> simp [beq]
  | .tuple xs, y => by cases y <;> simp [beq, beqList_iff xs]
  | .adt _ _ xs, y => by cases y <;> simp [beq, beqList_iff xs, and_assoc]
  | .pointer _ _ x, y => by cases y <;> simp [beq, beq_iff x, and_assoc]
  | .array x _, y => by cases y <;> simp [beq, beq_iff x, and_comm]
  | .slice x, y => by cases y <;> simp [beq, beq_iff x]
  | .fn _ r ps t _, y => by
    cases y <;> simp [beq, beqOption_iff r, beqList_iff ps, beq_iff t]
    grind
  | .projection x .., y => by
    cases y <;> simp [beq, beq_iff x]
    grind
  | .dyn xs, y => by cases y <;> simp [beq, beqBounds_iff xs]

theorem beqList_iff : (xs ys : List Ty) → (beqList xs ys = true ↔ xs = ys)
  | [], ys => by cases ys <;> simp [beqList]
  | x :: xs, ys => by cases ys <;> simp [beqList, beq_iff x, beqList_iff xs]

theorem beqOption_iff : (x y : Option Ty) → (beqOption x y = true ↔ x = y)
  | none, y => by cases y <;> simp [beqOption]
  | some x, y => by cases y <;> simp [beqOption, beq_iff x]

theorem beqBounds_iff : (xs ys : List DynBound) → (beqBounds xs ys = true ↔ xs = ys)
  | [], ys => by cases ys <;> simp [beqBounds]
  | x :: xs, ys => by cases ys <;> simp [beqBounds, beqBound_iff x, beqBounds_iff xs]

theorem beqBound_iff : (x y : DynBound) → (beqBound x y = true ↔ x = y)
  | .mk _ _ xs, .mk .. => by simp [beqBound, beqList_iff xs, and_assoc]

end

instance : DecidableEq Ty := fun x y => decidable_of_iff _ (beq_iff x y)

def unit : Ty := .tuple []

def ref (inner : Ty) : Ty := .pointer .reference .shared inner

def refMut (inner : Ty) : Ty := .pointer .reference .unique inner

def isError (t : Ty) : Bool := t == .error

def isUnit (t : Ty) : Bool := t == unit

def param? : Ty → Option Param
  | .param p => some p
  | _ => none

mutual

/-- Whether a generic parameter occurs anywhere in the type. -/
def hasParam : Ty → Bool
  | .param _ => true
  | .tuple ts | .adt _ _ ts => hasParamList ts
  | .pointer _ _ t | .array t _ | .slice t | .projection t .. => hasParam t
  | .fn _ r ps t _ => hasParamOption r || hasParamList ps || hasParam t
  | .dyn bs => hasParamBounds bs
  | .prim _ | .never | .placeholder .. | .infer _ | .error => false

def hasParamList : List Ty → Bool
  | [] => false
  | t :: ts => hasParam t || hasParamList ts

def hasParamOption : Option Ty → Bool
  | none => false
  | some t => hasParam t

def hasParamBounds : List DynBound → Bool
  | [] => false
  | b :: bs => hasParamBound b || hasParamBounds bs

def hasParamBound : DynBound → Bool
  | .mk _ _ ts => hasParamList ts

end

mutual

/-- Whether the type is or contains the error type. -/
def hasError : Ty → Bool
  | .error => true
  | .tuple ts | .adt _ _ ts => hasErrorList ts
  | .pointer _ _ t | .array t _ | .slice t | .projection t .. => hasError t
  | .fn _ r ps t _ => hasErrorOption r || hasErrorList ps || hasError t
  | .dyn bs => hasErrorBounds bs
  | .prim _ | .never | .param _ | .placeholder .. | .infer _ => false

def hasErrorList : List Ty → Bool
  | [] => false
  | t :: ts => hasError t || hasErrorList ts

def hasErrorOption : Option Ty → Bool
  | none => false
  | some t => hasError t

def hasErrorBounds : List DynBound → Bool
  | [] => false
  | b :: bs => hasErrorBound b || hasErrorBounds bs

def hasErrorBound : DynBound → Bool
  | .mk _ _ ts => hasErrorList ts

end

end Ty

end TraitEngine
