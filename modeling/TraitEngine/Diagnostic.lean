import TraitEngine.Source
/-!
# Diagnostics

A diagnostic has a severity, a code, a message, labels that point into the
sources and notes. A code is written `E`, the number of the analysis phase, and
the phase's own number in at least three digits. Diagnostics are shown by location,
those without one first, and at one location by code. Equal neighbours are shown
once.
-/

namespace TraitEngine

set_option autoImplicit false

inductive Severity where
  | error
  | warning
  | note
  deriving DecidableEq, Repr

namespace Severity

def text : Severity → String
  | .error => "error"
  | .warning => "warning"
  | .note => "note"

end Severity

inductive LabelStyle where
  | primary
  | secondary
  deriving DecidableEq, Repr

/-- The analysis phase that a diagnostic comes from. -/
inductive Phase where
  | nameResolution
  | typeLowering
  | traitResolution
  | traitSatisfaction
  | configuration
  deriving DecidableEq, Repr

namespace Phase

def number : Phase → Nat
  | .nameResolution => 2
  | .typeLowering => 3
  | .traitResolution => 4
  | .traitSatisfaction => 5
  | .configuration => 9

end Phase

structure Code where
  phase : Phase
  number : Nat
  deriving DecidableEq, Repr

namespace Code

/-- Phases are ordered by their numbers. -/
instance : Ord Code where
  compare a b :=
    (compare a.phase.number b.phase.number).then (compare a.number b.number)

def padded (width : Nat) (n : Nat) : String :=
  let digits := Nat.toDigits 10 n
  String.ofList (List.replicate (width - digits.length) '0' ++ digits)

def text (c : Code) : String :=
  "E" ++ toString c.phase.number ++ padded 3 c.number

end Code

structure Label where
  style : LabelStyle
  message : String
  span : Option Span
  deriving DecidableEq, Repr

namespace Label

def primary (message : String) (span : Span) : Label := ⟨.primary, message, some span⟩
def secondary (message : String) (span : Span) : Label := ⟨.secondary, message, some span⟩

def isPrimary (l : Label) : Bool := l.style == .primary

end Label

structure Diagnostic where
  severity : Severity
  message : String
  labels : List Label
  notes : List String
  code : Code
  deriving DecidableEq, Repr

namespace Diagnostic

/-- The span of the first primary label that has one. -/
def primarySpan? (d : Diagnostic) : Option Span :=
  d.labels.findSome? fun l => if l.isPrimary then l.span else none

end Diagnostic

/-! ## Presentation order -/

namespace Diagnostic

/-- Where a diagnostic stands: the span of its first primary label. -/
def location (d : Diagnostic) : Option Span :=
  (d.labels.find? Label.isPrimary).bind Label.span

/-- A missing location precedes every span. -/
def compareLocation : Option Span → Option Span → Ordering
  | none, none => .eq
  | none, some _ => .lt
  | some _, none => .gt
  | some a, some b => compare a b

def order (a b : Diagnostic) : Ordering :=
  (compareLocation a.location b.location).then (compare a.code b.code)

def precedes (a b : Diagnostic) : Bool := order a b != .gt

/-- The diagnostics in presentation order. Diagnostics of equal standing keep
the order in which they were reported. -/
def arrange (ds : List Diagnostic) : List Diagnostic :=
  (ds.mergeSort precedes).eraseReps

end Diagnostic

end TraitEngine
