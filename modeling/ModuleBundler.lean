import ModuleBundler.CommandLine.LogFormat
import ModuleBundler.Main
import ModuleBundler.Proofs.Boundaries
import ModuleBundler.Proofs.Ownership
import ModuleBundler.Proofs.Replay
import ModuleBundler.Proofs.Chains
import ModuleBundler.Proofs.Sessions
import ModuleBundler.Proofs.Failures
import ModuleBundler.Proofs.DepthFirst
import ModuleBundler.Proofs.Cache
import ModuleBundler.Proofs.EntryPath
import ModuleBundler.Proofs.Histories
import ModuleBundler.Proofs.ParserEnds
import ModuleBundler.Proofs.Tiling
import ModuleBundler.Proofs.Termination
import ModuleBundler.Proofs.StarSearch
import ModuleBundler.Proofs.Demand
import ModuleBundler.Proofs.Unguarded
import ModuleBundler.Proofs.References
import ModuleBundler.Proofs.EmittedText
import ModuleBundler.Proofs.Namespaces
import ModuleBundler.Proofs.Arrows
import ModuleBundler.Proofs.SpansNest
import ModuleBundler.Proofs.WalkOrder
import ModuleBundler.Proofs.Views
import ModuleBundler.Proofs.ScopeHistories
import ModuleBundler.Proofs.Precedence
import ModuleBundler.Proofs.Destructuring
import ModuleBundler.Proofs.CanonicalPaths
import ModuleBundler.Proofs.StringValues
import ModuleBundler.Proofs.NumeralEnds
import ModuleBundler.Proofs.Punctuation
import ModuleBundler.Proofs.Contexts
import ModuleBundler.Proofs.Snippets
import ModuleBundler.Proofs.RegexEnds
import ModuleBundler.Proofs.ParentChains
