import TraitEngine.CanonicalPath
import TraitEngine.Config
import TraitEngine.Context
import TraitEngine.Decl.Basic
import TraitEngine.Decl.Builder
import TraitEngine.Decl.Tree
import TraitEngine.Diagnostic
import TraitEngine.Impl
import TraitEngine.Index
import TraitEngine.NameResolution
import TraitEngine.Passes
import TraitEngine.Problem
import TraitEngine.Report.Layout
import TraitEngine.Report.Snippet
import TraitEngine.Resolve.Lowering
import TraitEngine.Resolve.Trait
import TraitEngine.Resolve.TraitItem
import TraitEngine.Session
import TraitEngine.Source
import TraitEngine.Symbol.Basic
import TraitEngine.Symbol.Legacy
import TraitEngine.Symbol.Structural
import TraitEngine.Text.Bootstring
import TraitEngine.Text.CharClass
import TraitEngine.Text.Width
import TraitEngine.Toml.Number
import TraitEngine.Toml.Reader
import TraitEngine.Toml.Value
import TraitEngine.Trait.Hierarchy
import TraitEngine.Trait.Param
import TraitEngine.Trait.Predicate
import TraitEngine.Trait.Reference
import TraitEngine.Ty.Acceptance
import TraitEngine.Ty.Basic
import TraitEngine.Ty.Substitution
import TraitEngine.Ty.Text
import TraitEngine.TypeExpr
import TraitEngine.Proofs.Ends
import TraitEngine.Proofs.Journal
import TraitEngine.Proofs.Mentions
import TraitEngine.Proofs.Moves
import TraitEngine.Proofs.Reporting
import TraitEngine.Proofs.Passage.Types
import TraitEngine.Proofs.Passage.Operations
import TraitEngine.Proofs.Predicate
import TraitEngine.Proofs.Trips
import TraitEngine.Proofs.Lowering
import TraitEngine.Proofs.Resolution
import TraitEngine.Proofs.Requests
import TraitEngine.Proofs.Sessions
import TraitEngine.Proofs.Lifecycle
import TraitEngine.Proofs.CycleReports
import TraitEngine.Proofs.SuperGraph
import TraitEngine.Proofs.SuperSearch
import TraitEngine.Proofs.ObjectSafety
import TraitEngine.Proofs.TraitObjects
import TraitEngine.Proofs.NodeTest
import TraitEngine.Proofs.Sound.Predicate
import TraitEngine.Proofs.Sound.Context
import TraitEngine.Proofs.Sound.Lowering
import TraitEngine.Proofs.Sound.Resolution
import TraitEngine.Proofs.Sound.Session
import TraitEngine.Proofs.StoredTypes
import TraitEngine.Proofs.Order.Search
import TraitEngine.Proofs.Owners
import TraitEngine.Proofs.Order.Faithful
import TraitEngine.Proofs.Order.Lockstep
import TraitEngine.Proofs.Order.Twin
import TraitEngine.Proofs.Order.Lowering
import TraitEngine.Proofs.Order.Items
import TraitEngine.Proofs.Order.Determined
import TraitEngine.Proofs.Order.Independence
import TraitEngine.Proofs.Bootstring.Steps
import TraitEngine.Proofs.Bootstring.RoundTrip
import TraitEngine.Proofs.Bootstring.Loop
import TraitEngine.Proofs.Symbol.Numeral
import TraitEngine.Proofs.Symbol.Reader
import TraitEngine.Proofs.Symbol.Identifiers
import TraitEngine.Proofs.PredicateCalls
import TraitEngine.Proofs.Bodies.Reports
import TraitEngine.Proofs.Projections
import TraitEngine.Proofs.WrittenArgs
import TraitEngine.Proofs.Application
import TraitEngine.Proofs.Specialization
import TraitEngine.Proofs.ReceiverOrder
import TraitEngine.Proofs.Asks.Resolution
import TraitEngine.Proofs.RecursionLimit
import TraitEngine.Proofs.Scoping.Basic
import TraitEngine.Proofs.Scoping.Lowering
import TraitEngine.Proofs.Scoping.Sessions
import TraitEngine.Proofs.Symbol.Escape
import TraitEngine.Proofs.Symbol.Members
import TraitEngine.Proofs.Symbol.Receivers
import TraitEngine.Proofs.Symbol.Segments
import TraitEngine.Proofs.Symbol.Instantiations
import TraitEngine.Proofs.Presentation
import TraitEngine.Proofs.Keeping
import TraitEngine.Proofs.Recording
import TraitEngine.Proofs.Foreign
import TraitEngine.Proofs.Acceptance
import TraitEngine.Proofs.Comparison
import TraitEngine.Proofs.Probe
import TraitEngine.Proofs.Resolved.Shape
import TraitEngine.Proofs.Resolved.Building
import TraitEngine.Proofs.Resolved.Receiver
import TraitEngine.Proofs.Resolved.Sessions
import TraitEngine.Proofs.Resolved.Signatures
import TraitEngine.Proofs.ImpliedTraits
import TraitEngine.Proofs.Resolved.Violations
import TraitEngine.Proofs.SafetyReports
import TraitEngine.Proofs.AssocTypeSearch
import TraitEngine.Proofs.BoundArguments
import TraitEngine.Proofs.ImplChecks
import TraitEngine.Proofs.Store
import TraitEngine.Proofs.Paths
import TraitEngine.Proofs.Symbol.Encodable
import TraitEngine.Proofs.Symbol.Alphabet
import TraitEngine.Proofs.Symbol.CrateNames
import TraitEngine.Proofs.Symbol.ErrorReceivers
