import TraitEngine.Ty.Text
/-!
# Canonical paths

The full path of a declaration from its crate root. Segments are named, or stand
for the implementation of a trait for a type and read `<Self as Trait>`; both
kinds may carry a disambiguator and generic arguments.
-/

namespace TraitEngine

set_option autoImplicit false

inductive Namespace where
  | type
  | value
  deriving DecidableEq, Repr

mutual

inductive CanonicalPath where
  | mk (crate : String) (disambiguator : Nat) (segments : List CanonicalSegment)

/-- The disambiguator tells apart items that share a name and a parent; it is `0`
for an item without such siblings. -/
inductive CanonicalSegment where
  | named (name : String) (ns : Namespace) (disambiguator : Nat) (args : List Ty)
  | traitImpl (self : Ty) (trait : CanonicalPath) (disambiguator : Nat) (args : List Ty)

end

namespace CanonicalSegment

def withArgs (args : List Ty) : CanonicalSegment → CanonicalSegment
  | .named name ns dis _ => .named name ns dis args
  | .traitImpl self trait dis _ => .traitImpl self trait dis args

def withDisambiguator (dis : Nat) : CanonicalSegment → CanonicalSegment
  | .named name ns _ args => .named name ns dis args
  | .traitImpl self trait _ args => .traitImpl self trait dis args

def args : CanonicalSegment → List Ty
  | .named _ _ _ args => args
  | .traitImpl _ _ _ args => args

end CanonicalSegment

namespace CanonicalPath

def crateRoot (crate : String) : CanonicalPath := .mk crate 0 []

def crate : CanonicalPath → String
  | .mk crate _ _ => crate

def disambiguator : CanonicalPath → Nat
  | .mk _ dis _ => dis

def segments : CanonicalPath → List CanonicalSegment
  | .mk _ _ segments => segments

def withCrateDisambiguator (dis : Nat) (p : CanonicalPath) : CanonicalPath :=
  .mk p.crate dis p.segments

def push (p : CanonicalPath) (s : CanonicalSegment) : CanonicalPath :=
  .mk p.crate p.disambiguator (p.segments ++ [s])

def join (p : CanonicalPath) (name : String) (ns : Namespace) : CanonicalPath :=
  p.push (.named name ns 0 [])

/-- Appends `<self as trait>`. -/
def joinTraitImpl (p : CanonicalPath) (self : Ty) (trait : CanonicalPath) : CanonicalPath :=
  p.push (.traitImpl self trait 0 [])

/-- Changes the last segment, if there is one. -/
def modifyLast (f : CanonicalSegment → CanonicalSegment) (p : CanonicalPath) : CanonicalPath :=
  match p.segments.getLast? with
  | none => p
  | some last => .mk p.crate p.disambiguator (p.segments.dropLast ++ [f last])

def withArgs (args : List Ty) (p : CanonicalPath) : CanonicalPath :=
  p.modifyLast (·.withArgs args)

def withDisambiguator (dis : Nat) (p : CanonicalPath) : CanonicalPath :=
  p.modifyLast (·.withDisambiguator dis)

def isCrateRoot (p : CanonicalPath) : Bool := p.segments.isEmpty

mutual

def text : CanonicalPath → String
  | .mk crate _ segments => "::".intercalate (crate :: segmentTexts segments)

def segmentTexts : List CanonicalSegment → List String
  | [] => []
  | s :: rest => segmentText s :: segmentTexts rest

def segmentText : CanonicalSegment → String
  | .named name _ _ args => name ++ Ty.bracketed (Ty.texts args)
  | .traitImpl self trait _ args =>
    "<" ++ self.text ++ " as " ++ text trait ++ ">" ++ Ty.bracketed (Ty.texts args)

end

end CanonicalPath

namespace CanonicalSegment

/-- The segment's own text, without its generic arguments. -/
def name : CanonicalSegment → String
  | .named name _ _ _ => name
  | .traitImpl self trait _ _ => "<" ++ self.text ++ " as " ++ trait.text ++ ">"

end CanonicalSegment

namespace CanonicalPath

/-- The name of the last segment, or of the crate. -/
def name (p : CanonicalPath) : String :=
  (p.segments.getLast?.map CanonicalSegment.name).getD p.crate

end CanonicalPath

end TraitEngine
