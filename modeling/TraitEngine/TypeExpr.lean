import TraitEngine.Source
/-!
# Type expressions

Types as they are written: paths with generic arguments on any segment,
references, pointers, tuples, arrays, slices, trait objects, `!` and `_`.
`TypeExpr.text` and its companions give the surface form.
-/

namespace TraitEngine

set_option autoImplicit false

mutual

/-- A type expression. -/
inductive TypeExpr where
  | path (p : TypePath)
  | ref (mutable : Bool) (inner : TypeExpr)
  | ptr (mutable : Bool) (inner : TypeExpr)
  | tuple (elems : List TypeExpr)
  | array (elem : TypeExpr) (length : Nat)
  | slice (elem : TypeExpr)
  | traitObject (bounds : List TypePath)
  | never
  | infer

/-- A possibly qualified path such as `ops::Add<i32>` or `Self::Output`. -/
inductive TypePath where
  | mk (segments : List PathSegment) (span : Span)

inductive PathSegment where
  | mk (name : String) (args : Option GenericArgs)

/-- Arguments in angle brackets, then bindings such as `Item = u8`. -/
inductive GenericArgs where
  | mk (args : List GenericArg) (bindings : List TypeBinding) (span : Span)

inductive GenericArg where
  | lifetime (name : String)
  | type (ty : TypeExpr)

inductive TypeBinding where
  | mk (name : String) (ty : TypeExpr)

end

/-- The pieces of a text between the occurrences of `::`, read from the left. -/
def splitPath : List Char → List (List Char)
  | [] => [[]]
  | ':' :: ':' :: rest => [] :: splitPath rest
  | c :: rest =>
    match splitPath rest with
    | [] => [[c]]
    | piece :: pieces => (c :: piece) :: pieces

def pathNames (text : String) : List String :=
  (splitPath text.toList).map String.ofList

def joinNames (names : List String) : String :=
  "::".intercalate names

namespace PathSegment

def name : PathSegment → String
  | .mk name _ => name

def args? : PathSegment → Option GenericArgs
  | .mk _ args => args

end PathSegment

namespace GenericArgs

def span : GenericArgs → Span
  | .mk _ _ span => span

end GenericArgs

namespace TypePath

def segments : TypePath → List PathSegment
  | .mk segments _ => segments

def span : TypePath → Span
  | .mk _ span => span

/-- A path of bare names, read from its `::`-separated text. -/
def ofText (text : String) : TypePath :=
  .mk ((pathNames text).map (.mk · none)) default

def withSpan (p : TypePath) (span : Span) : TypePath :=
  .mk p.segments span

/-- Attaches arguments to the last segment; they carry the span of the path. -/
def withArgs (p : TypePath) (args : List GenericArg) (bindings : List TypeBinding) : TypePath :=
  match p.segments.getLast? with
  | none => p
  | some last =>
    .mk (p.segments.dropLast ++ [.mk last.name (some (.mk args bindings p.span))]) p.span

def names (p : TypePath) : List String := p.segments.map PathSegment.name

/-- The path without generic arguments. -/
def plain (p : TypePath) : String := joinNames p.names

def last? (p : TypePath) : Option PathSegment := p.segments.getLast?

/-- The arguments on the last segment. -/
def args? (p : TypePath) : Option GenericArgs := p.last?.bind PathSegment.args?

def isSingle (p : TypePath) : Bool := p.segments.length == 1

end TypePath

namespace TypeExpr

def ofText (text : String) : TypeExpr := .path (TypePath.ofText text)

def selfType : TypeExpr := ofText "Self"

def unit : TypeExpr := .tuple []

mutual

def text : TypeExpr → String
  | .path p => pathText p
  | .ref mutable inner => "&" ++ (if mutable then "mut " else "") ++ text inner
  | .ptr mutable inner => (if mutable then "*mut " else "*const ") ++ text inner
  | .tuple elems =>
    let trailing := if elems.length = 1 then "," else ""
    "(" ++ ", ".intercalate (texts elems) ++ trailing ++ ")"
  | .array elem length => "[" ++ text elem ++ "; " ++ toString length ++ "]"
  | .slice elem => "[" ++ text elem ++ "]"
  | .traitObject bounds => "dyn " ++ " + ".intercalate (pathTexts bounds)
  | .never => "!"
  | .infer => "_"

def texts : List TypeExpr → List String
  | [] => []
  | t :: ts => text t :: texts ts

def pathText : TypePath → String
  | .mk segments _ => "::".intercalate (segmentTexts segments)

def pathTexts : List TypePath → List String
  | [] => []
  | p :: ps => pathText p :: pathTexts ps

def segmentTexts : List PathSegment → List String
  | [] => []
  | .mk name args :: rest => (name ++ optionalArgsText args) :: segmentTexts rest

def optionalArgsText : Option GenericArgs → String
  | none => ""
  | some args => argsText args

def argsText : GenericArgs → String
  | .mk args bindings _ =>
    "<" ++ ", ".intercalate (argTexts args ++ bindingTexts bindings) ++ ">"

def argTexts : List GenericArg → List String
  | [] => []
  | .lifetime name :: rest => ("'" ++ name) :: argTexts rest
  | .type ty :: rest => text ty :: argTexts rest

def bindingTexts : List TypeBinding → List String
  | [] => []
  | .mk name ty :: rest => (name ++ " = " ++ text ty) :: bindingTexts rest

end

end TypeExpr

def TypePath.text (p : TypePath) : String := TypeExpr.pathText p

def GenericArgs.text (args : GenericArgs) : String := TypeExpr.argsText args

end TraitEngine
