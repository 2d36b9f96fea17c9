import TraitEngine.Config
import TraitEngine.Decl.Builder
import TraitEngine.Diagnostic
import TraitEngine.Impl
import TraitEngine.Passes
import TraitEngine.Report.Layout
import TraitEngine.Symbol.Legacy
import TraitEngine.Symbol.Structural
/-!
# Sessions

One session of work on a crate: its configuration, its declarations, the analysis
context and the sources that diagnostics point into.
-/

namespace TraitEngine

set_option autoImplicit false

namespace SymbolScheme

/-- The symbol of an item, by its type and its path. An item whose type contains
errors has none. -/
def symbol (scheme : SymbolScheme) (tree : ItemTree) (ty : Ty) (path : CanonicalPath) :
    Except SymbolError String :=
  if ty.hasError then .error (.errorType path.text)
  else
    match scheme with
    | .legacy => Legacy.symbol ty path
    | .v0 => Structural.symbol tree path

end SymbolScheme

structure Session where
  config : Config
  tree : ItemTree
  context : Context
  files : SourceFiles

namespace Session

def ofConfig (config : Config) : Session where
  config
  tree := .empty config.crate
  context := { limit := config.limit }
  files := #[]

/-- A session with the settings of a configuration file. -/
def ofToml? (text : String) : Option Session := (Config.parse? text).map ofConfig

/-- Registers a source file and returns the id that spans should use. -/
def addFile (s : Session) (file : SourceFile) : FileId × Session :=
  (⟨s.files.size⟩, { s with files := s.files.push file })

/-- Performs a step of an analysis on the session's context. -/
def run {α : Type} (s : Session) (step : Check α) : Except Fault (α × Session) := do
  let (a, context) ← step s.context
  return (a, { s with context })

/-- All diagnostics of the crate: those of the passes, then those of the
configuration. -/
def analyze (s : Session) : Except Fault (List Diagnostic × Session) := do
  let (problems, s) ← s.run (s.tree.runPasses Pass.standard)
  return (problems.map Problem.describe ++ s.config.problems.map ConfigProblem.describe, s)

def symbol (s : Session) (ty : Ty) (path : CanonicalPath) : Except SymbolError String :=
  s.config.scheme.symbol s.tree ty path

/-- The arguments of a predicate after the receiver, an unbound parameter standing
for itself. -/
def writtenArgs (p : Predicate) : List Ty :=
  p.args.written.map fun slot => slot.ty.getD (.param slot.param)

/-- The path of an item of a trait as implemented for a receiver. -/
def traitItemPath (s : Session) (receiver : Ty) (p : Predicate) (trait : CanonicalPath)
    (item : String) : CanonicalPath :=
  ((CanonicalPath.crateRoot s.config.crate).joinTraitImpl receiver
    (trait.withArgs (writtenArgs p))).join item .value

/-- The symbol of an item of a resolved trait for a receiver. -/
def memberSymbol (s : Session) (receiver : Ty) (path : TypePath) (item : String)
    (t : TraitRef) : Except SymbolError String := do
  let some id := t.id | throw (.unresolvedTrait path.plain)
  let p := (Predicate.ofTrait t path.span).bindReceiver receiver
  match p.member? s.context item with
  | none => throw (.unknownItem t.name item)
  | some member =>
    if member.item.isError then throw (.unknownItem t.name item)
    let some trait := s.tree.canonicalPath? id | throw (.unresolvedTrait path.plain)
    s.symbol (member.typeFor receiver) (s.traitItemPath receiver p trait item)

/-- The symbol of `item` of the trait at `path`, implemented for `receiver`. The
trait is resolved first. -/
def traitItemSymbol (s : Session) (receiver : Ty) (path : TypePath) (item : String) :
    Except Fault (Except SymbolError String × Session) := do
  let (t, s) ← s.run (s.tree.resolveTrait path)
  return (s.memberSymbol receiver path item t, s)

end Session

end TraitEngine
