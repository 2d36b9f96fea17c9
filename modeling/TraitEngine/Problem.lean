import TraitEngine.Diagnostic
/-!
# Problems and faults

The causes that the analysis reports, each with the data that its message needs.
`Problem.code` numbers them within their phase and `Problem.describe` words them.

A fault is a request that breaks a promise of the caller. It ends the work on a
session; the reported problems of a program are not faults. The one fault that no
request ends with is `exhausted`: the bound on how deep requests nest is always
enough.
-/

namespace TraitEngine

set_option autoImplicit false

/-- Why generic arguments do not fit the parameters of a trait. -/
inductive ArgMismatch where
  | count (expected given : Nat)
  | misplacedLifetime (lifetime : String)
  deriving DecidableEq, Repr

namespace ArgMismatch

def misplacedText (lifetime : String) : String :=
  s!"lifetime argument `'{lifetime}` must precede type arguments"

def message : ArgMismatch → String
  | .count expected given => s!"expected {expected} generic arguments, but {given} given"
  | .misplacedLifetime lifetime => misplacedText lifetime

end ArgMismatch

inductive ViolationKind where
  | assocConst
  | noReceiver
  | genericMethod
  deriving DecidableEq, Repr

/-- An item that keeps its trait from being used behind `dyn`. -/
structure Violation where
  kind : ViolationKind
  name : String
  span : Span
  deriving DecidableEq, Repr

namespace Violation

def message (v : Violation) : String :=
  let name := v.name
  match v.kind with
  | .assocConst => s!"associated const `{name}` is not allowed"
  | .noReceiver => s!"associated function `{name}` has no `self` receiver"
  | .genericMethod => s!"method `{name}` has generic type parameters"

end Violation

inductive Problem where
  | notFound (span : Span) (path : String)
  | ambiguous (span : Span) (path : String) (candidates : List String)
  | expectedTrait (span : Span) (path found : String)
  | expectedType (span : Span) (path : String)
  | adtArgCount (span : Span) (adt : String) (expected given : Nat)
  | unknownAssocType (span : Span) (param name : String)
  | notObjectSafe (span : Span) (traitName : String) (violations : List Violation)
      (supers : List String)
  | superTraitCycle (span : Span) (cycle : List String)
  | recursionLimit (span : Span) (traitName : String) (limit : Nat)
  | duplicateItem (traitName name : String) (first duplicate : Span)
  | argMismatch (span : Span) (traitName : String) (cause : ArgMismatch)
  | unknownItem (span : Span) (traitName name : String)
  | unknownBinding (span : Span) (traitName name : String)
  | missingItems (span : Span) (traitName : String) (missing : List String)
  | notAMember (span : Span) (traitName name : String)
  deriving DecidableEq, Repr

namespace Problem

def code : Problem → Code
  | .notFound .. => ⟨.nameResolution, 1⟩
  | .ambiguous .. => ⟨.nameResolution, 2⟩
  | .expectedTrait .. => ⟨.nameResolution, 3⟩
  | .expectedType .. => ⟨.nameResolution, 4⟩
  | .adtArgCount .. => ⟨.typeLowering, 1⟩
  | .unknownAssocType .. => ⟨.typeLowering, 2⟩
  | .notObjectSafe .. => ⟨.typeLowering, 3⟩
  | .superTraitCycle .. => ⟨.traitResolution, 1⟩
  | .recursionLimit .. => ⟨.traitResolution, 2⟩
  | .duplicateItem .. => ⟨.traitResolution, 3⟩
  | .argMismatch _ _ (.count ..) => ⟨.traitResolution, 4⟩
  | .argMismatch _ _ (.misplacedLifetime _) => ⟨.traitResolution, 5⟩
  | .unknownItem .. => ⟨.traitResolution, 6⟩
  | .unknownBinding .. => ⟨.traitResolution, 7⟩
  | .missingItems .. => ⟨.traitSatisfaction, 1⟩
  | .notAMember .. => ⟨.traitSatisfaction, 2⟩

def quoted (name : String) : String := s!"`{name}`"

def message : Problem → String
  | .notFound _ path => s!"`{path}` is not found"
  | .ambiguous _ path _ => s!"`{path}` is ambiguous"
  | .expectedTrait _ path found => s!"expected trait, found {found} `{path}`"
  | .expectedType _ path => s!"expected type, found trait `{path}`"
  | .adtArgCount _ adt _ _ => s!"wrong number of generic arguments for `{adt}`"
  | .unknownAssocType _ param name => s!"associated type `{name}` not found for `{param}`"
  | .notObjectSafe _ traitName _ _ => s!"the trait `{traitName}` is not object safe"
  | .superTraitCycle .. => "cyclic super-trait relation"
  | .recursionLimit _ traitName _ => s!"recursion limit reached while resolving `{traitName}`"
  | .duplicateItem traitName name _ _ =>
    s!"`{name}` is defined multiple times in trait `{traitName}`"
  | .argMismatch _ traitName (.count ..) =>
    s!"wrong number of generic arguments for trait `{traitName}`"
  | .argMismatch _ _ (.misplacedLifetime lifetime) => ArgMismatch.misplacedText lifetime
  | .unknownItem _ traitName name => s!"no item named `{name}` in trait `{traitName}`"
  | .unknownBinding _ traitName name =>
    s!"associated type `{name}` not found in trait `{traitName}`"
  | .missingItems _ _ missing =>
    "not all trait items implemented, missing: " ++ ", ".intercalate (missing.map quoted)
  | .notAMember _ traitName name => s!"`{name}` is not a member of trait `{traitName}`"

def labels : Problem → List Label
  | .notFound span path => [.primary s!"`{path}` is not found" span]
  | .ambiguous span path _ => [.primary s!"`{path}` is ambiguous" span]
  | .expectedTrait span path found => [.primary s!"`{path}` is a {found}" span]
  | .expectedType span path => [.primary s!"`{path}` is a trait" span]
  | .adtArgCount span _ expected given =>
    [.primary s!"expected {expected} arguments, but {given} given" span]
  | .unknownAssocType span param name =>
    [.primary s!"no bound of `{param}` declares `{name}`" span]
  | .notObjectSafe span traitName violations _ =>
    .primary s!"`{traitName}` cannot be made into an object" span ::
      violations.map fun v => .secondary v.message v.span
  | .superTraitCycle span _ => [.primary "super-trait cycle detected here" span]
  | .recursionLimit span _ limit =>
    [.primary s!"more than {limit} nested trait resolutions" span]
  | .duplicateItem _ name first duplicate =>
    [.primary s!"`{name}` redefined here" duplicate,
      .secondary s!"first definition of `{name}`" first]
  | .argMismatch span _ (.count expected given) =>
    [.primary s!"expected {expected} arguments, but {given} given" span]
  | .argMismatch span traitName (.misplacedLifetime _) =>
    [.primary s!"misplaced lifetime argument for `{traitName}`" span]
  | .unknownItem span _ name => [.primary s!"`{name}` is not a member" span]
  | .unknownBinding span _ name => [.primary s!"unknown binding `{name}`" span]
  | .missingItems span traitName missing =>
    let names := ", ".intercalate (missing.map quoted)
    [.primary s!"missing {names} in implementation of `{traitName}`" span]
  | .notAMember span traitName _ => [.primary s!"not a member of `{traitName}`" span]

def notes : Problem → List String
  | .ambiguous _ _ candidates => candidates.map fun c => "candidate: " ++ quoted c
  | .expectedType _ path => [s!"use `dyn {path}` for a trait object"]
  | .notObjectSafe _ _ _ supers => supers.map fun s => s!"super-trait `{s}` is not object safe"
  | .superTraitCycle _ cycle => ["cycle: " ++ " -> ".intercalate (cycle.map quoted)]
  | .recursionLimit .. => ["consider raising `analysis.recursion-limit`"]
  | _ => []

/-- Every problem of the analysis is an error. -/
def describe (p : Problem) : Diagnostic where
  severity := .error
  message := p.message
  labels := p.labels
  notes := p.notes
  code := p.code

end Problem

inductive Fault where
  | missingReceiver (traitName : String)
  | argumentsWithoutParameters
  | noPrimarySpan
  | reversedSpan
  | reservedIndex
  | unknownId
  | exhausted
  deriving DecidableEq, Repr

namespace Fault

/-- The wording, for the faults that have one. -/
def message? : Fault → Option String
  | .missingReceiver traitName => some s!"trait `{traitName}` has no implicit `Self` parameter"
  | .argumentsWithoutParameters =>
    some "generic arguments applied to a predicate without parameters"
  | .noPrimarySpan => some "diagnostic has no primary span"
  | .reversedSpan => none
  | .reservedIndex => none
  | .unknownId => none
  | .exhausted => none

end Fault

end TraitEngine
