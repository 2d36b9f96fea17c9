import TraitEngine.TypeExpr
import TraitEngine.Ty.Basic
/-!
# Declarations

Traits, structs, enums and implementations as they are declared, with type
expressions still unlowered. The implicit receiver of a trait is one of its type
parameters.
-/

namespace TraitEngine

set_option autoImplicit false

/-- A bound as written, on a parameter, an associated type or a trait. -/
inductive Bound where
  | trait (path : TypePath)
  | lifetime (name : String)

namespace Bound

def trait? : Bound → Option TypePath
  | .trait path => some path
  | .lifetime _ => none

end Bound

structure TypeParam where
  node : NodeId
  name : String
  bounds : List Bound
  fallback : Option TypeExpr
  span : Span

namespace TypeParam

def toParam (p : TypeParam) : Param := ⟨p.node, p.name⟩

end TypeParam

inductive GenericParam where
  | lifetime (node : NodeId) (name : String) (span : Span)
  | type (param : TypeParam)

namespace GenericParam

def type? : GenericParam → Option TypeParam
  | .type param => some param
  | .lifetime .. => none

def withNode (node : NodeId) : GenericParam → GenericParam
  | .lifetime _ name span => .lifetime node name span
  | .type param => .type { param with node }

end GenericParam

/-- What a default body names: a bound it requires, or an item of a trait. -/
inductive BodyUse where
  | bound (path : TypePath)
  | item (path : TypePath) (name : String)

/-- The uses in a default body, in order. -/
structure Body where
  uses : List BodyUse

inductive SelfParam where
  | value
  | ref
  | refMut
  deriving DecidableEq, Repr

structure FnParam where
  name : String
  ty : TypeExpr

structure FnDecl where
  generics : List GenericParam := []
  self : Option SelfParam := none
  params : List FnParam := []
  ret : Option TypeExpr := none
  body : Option Body := none

inductive TraitItemKind where
  | type (bounds : List Bound) (fallback : Option TypeExpr)
  | const (ty : TypeExpr) (body : Option Body)
  | fn (decl : FnDecl)

namespace TraitItemKind

def hasDefault : TraitItemKind → Bool
  | .type _ fallback => fallback.isSome
  | .const _ body => body.isSome
  | .fn decl => decl.body.isSome

def body? : TraitItemKind → Option Body
  | .type .. => none
  | .const _ body => body
  | .fn decl => decl.body

def generics : TraitItemKind → List GenericParam
  | .fn decl => decl.generics
  | _ => []

def isType : TraitItemKind → Bool
  | .type .. => true
  | _ => false

end TraitItemKind

structure TraitItem where
  node : NodeId
  name : String
  kind : TraitItemKind
  span : Span

structure TraitDecl where
  id : DefId
  name : String
  params : List GenericParam
  supers : List Bound
  items : List TraitItem
  span : Span

namespace TraitDecl

def typeParams (t : TraitDecl) : List TypeParam := t.params.filterMap GenericParam.type?

/-- The first item of that name. -/
def item? (t : TraitDecl) (name : String) : Option TraitItem :=
  t.items.find? fun item => item.name == name

def declaresType (t : TraitDecl) (name : String) : Bool :=
  (t.item? name).any fun item => item.kind.isType

end TraitDecl

inductive AdtKind where
  | struct
  | enum
  deriving DecidableEq, Repr

namespace AdtKind

def text : AdtKind → String
  | .struct => "struct"
  | .enum => "enum"

end AdtKind

structure AdtDecl where
  id : DefId
  name : String
  kind : AdtKind
  params : List GenericParam
  span : Span

namespace AdtDecl

def typeParams (a : AdtDecl) : List TypeParam := a.params.filterMap GenericParam.type?

end AdtDecl

inductive Decl where
  | trait (t : TraitDecl)
  | adt (a : AdtDecl)

namespace Decl

def name : Decl → String
  | .trait t => t.name
  | .adt a => a.name

def span : Decl → Span
  | .trait t => t.span
  | .adt a => a.span

def kindText : Decl → String
  | .trait _ => "trait"
  | .adt a => a.kind.text

def trait? : Decl → Option TraitDecl
  | .trait t => some t
  | .adt _ => none

def adt? : Decl → Option AdtDecl
  | .trait _ => none
  | .adt a => some a

def params : Decl → List GenericParam
  | .trait t => t.params
  | .adt a => a.params

end Decl

/-- A declaration and the modules it lies in, outermost first. -/
structure Item where
  modules : List String
  decl : Decl

namespace Item

def name (i : Item) : String := i.decl.name

/-- The path below the crate root. -/
def path (i : Item) : String := joinNames (i.modules ++ [i.name])

end Item

inductive ImplItemKind where
  | type (ty : TypeExpr)
  | const
  | fn

structure ImplItem where
  name : String
  kind : ImplItemKind
  span : Span

/-- An implementation. An inherent one names no trait. -/
structure ImplBlock where
  id : ImplId
  params : List GenericParam
  trait : Option TypePath
  self : TypeExpr
  selfNode : NodeId
  items : List ImplItem
  span : Span

namespace ImplBlock

def typeParams (b : ImplBlock) : List TypeParam := b.params.filterMap GenericParam.type?

def item? (b : ImplBlock) (name : String) : Option ImplItem :=
  b.items.find? fun item => item.name == name

end ImplBlock

end TraitEngine
