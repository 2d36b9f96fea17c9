import TraitEngine.Diagnostic
import TraitEngine.Text.CharClass
import TraitEngine.Toml.Reader
/-!
# Configuration

The settings of a session, read from the `crate`, `analysis` and `codegen` tables
of a document. A setting with an unusable value keeps its default and leaves a
problem, which is shown as a warning without a location.
-/

namespace TraitEngine

set_option autoImplicit false

/-- The scheme by which symbols are written. -/
inductive SymbolScheme where
  | legacy
  | v0
  deriving DecidableEq, Repr

namespace SymbolScheme

def ofName? (name : String) : Option SymbolScheme :=
  if name == "legacy" then some .legacy
  else if name == "v0" then some .v0
  else none

end SymbolScheme

inductive ConfigProblem where
  | invalidCrateName (name : String)
  | invalidLimit (limit : Int)
  | unknownScheme (name : String)
  | unexpectedType (field found expected : String)
  deriving DecidableEq, Repr

namespace ConfigProblem

def message : ConfigProblem → String
  | .invalidCrateName name => s!"Invalid crate name \"{name}\""
  | .invalidLimit limit => s!"Recursion limit must be positive, found {limit}"
  | .unknownScheme name =>
    s!"Unknown mangling version \"{name}\", expected \"legacy\" or \"v0\""
  | .unexpectedType field found expected =>
    s!"Expected a {expected} in field {field}, but found a {found}"

def number : ConfigProblem → Nat
  | .invalidCrateName _ => 1
  | .invalidLimit _ => 2
  | .unknownScheme _ => 3
  | .unexpectedType .. => 4

def describe (p : ConfigProblem) : Diagnostic where
  severity := .warning
  message := p.message
  labels := []
  notes := []
  code := ⟨.configuration, p.number⟩

end ConfigProblem

structure Config where
  crate : String := "main"
  limit : Nat := 128
  scheme : SymbolScheme := .legacy
  problems : List ConfigProblem := []
  deriving DecidableEq

def isCrateName (name : String) : Bool :=
  !name.isEmpty && name.toList.all fun c => isAlphanumeric c || c == '_'

namespace Config

def report (c : Config) (p : ConfigProblem) : Config := { c with problems := c.problems ++ [p] }

def unexpected (c : Config) (field : String) (found : Toml.Value) (expected : String) : Config :=
  c.report (.unexpectedType field found.typeText expected)

def setCrate (c : Config) (v : Toml.Value) : Config :=
  match v.string? with
  | some name =>
    if isCrateName name then { c with crate := name } else c.report (.invalidCrateName name)
  | none => c.unexpected "crate.name" v "string"

def setLimit (c : Config) (v : Toml.Value) : Config :=
  match v.integer? with
  | some limit =>
    if 0 < limit then { c with limit := limit.toNat } else c.report (.invalidLimit limit)
  | none => c.unexpected "analysis.recursion-limit" v "integer"

def setScheme (c : Config) (v : Toml.Value) : Config :=
  match v.string? with
  | some name =>
    match SymbolScheme.ofName? name with
    | some scheme => { c with scheme }
    | none => c.report (.unknownScheme name)
  | none => c.unexpected "codegen.mangling" v "string"

/-- Takes one setting from one table of the document, if both are there. -/
def takeSetting (doc : Toml.Value) (table field : String)
    (set : Config → Toml.Value → Config) (c : Config) : Config :=
  match doc.get? table with
  | none => c
  | some v =>
    match v.entries? with
    | some es => ((es.lookup field).map (set c)).getD c
    | none => c.unexpected table v "table"

def ofDocument (doc : Toml.Value) : Config :=
  takeSetting doc "codegen" "mangling" setScheme
    (takeSetting doc "analysis" "recursion-limit" setLimit
      (takeSetting doc "crate" "name" setCrate {}))

/-- Reads a configuration file; `none` if it is not a TOML document. -/
def parse? (text : String) : Option Config := (Toml.parse? text).map ofDocument

/-- The messages of the problems, one to an indented line. -/
def problemText? (c : Config) : Option String :=
  if c.problems.isEmpty then none
  else some ("\n".intercalate (c.problems.map fun p => "  " ++ p.message))

end Config

end TraitEngine
