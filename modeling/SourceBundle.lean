import SourceBundle.Files.Tree
import SourceBundle.Graph
import SourceBundle.Main
import SourceBundle.Proofs.Binding.Ancestry
import SourceBundle.Proofs.Binding.Declared
import SourceBundle.Proofs.Binding.Globals
import SourceBundle.Proofs.Binding.Inherited
import SourceBundle.Proofs.Binding.Listed
import SourceBundle.Proofs.Binding.Locals
import SourceBundle.Proofs.Binding.Located
import SourceBundle.Proofs.Binding.Lockstep
import SourceBundle.Proofs.Binding.Lookup
import SourceBundle.Proofs.Binding.Members
import SourceBundle.Proofs.Binding.Objects
import SourceBundle.Proofs.Binding.Projects
import SourceBundle.Proofs.Binding.Rounds
import SourceBundle.Proofs.Binding.Sessions
import SourceBundle.Proofs.Binding.Settled
import SourceBundle.Proofs.Binding.Soundness
import SourceBundle.Proofs.Binding.Spelling
import SourceBundle.Proofs.Binding.Steady
import SourceBundle.Proofs.Binding.Substitution
import SourceBundle.Proofs.Binding.Termination
import SourceBundle.Proofs.Binding.Tracking
import SourceBundle.Proofs.Bundle.Platform
import SourceBundle.Proofs.Bundle.Rendered
import SourceBundle.Proofs.Bundle.Reparsed
import SourceBundle.Proofs.Bundle.Visible
import SourceBundle.Proofs.Closure.Account
import SourceBundle.Proofs.Closure.Cancellation
import SourceBundle.Proofs.Closure.Comparison
import SourceBundle.Proofs.Closure.EnumUnits
import SourceBundle.Proofs.Closure.Exactness
import SourceBundle.Proofs.Closure.Policies
import SourceBundle.Proofs.Closure.Reachability
import SourceBundle.Proofs.Closure.Recursion
import SourceBundle.Proofs.Closure.Repeatable
import SourceBundle.Proofs.Closure.Roots
import SourceBundle.Proofs.CommandLine.Artifact
import SourceBundle.Proofs.CommandLine.Rerun
import SourceBundle.Proofs.Files.Solutions
import SourceBundle.Proofs.Parse.Aloof
import SourceBundle.Proofs.Parse.Bodies
import SourceBundle.Proofs.Parse.Collections
import SourceBundle.Proofs.Parse.Crossing
import SourceBundle.Proofs.Parse.Declarations
import SourceBundle.Proofs.Parse.Files
import SourceBundle.Proofs.Parse.Layout
import SourceBundle.Proofs.Parse.Members
import SourceBundle.Proofs.Parse.Numbering
import SourceBundle.Proofs.Parse.Occurrence
import SourceBundle.Proofs.Parse.Plain
import SourceBundle.Proofs.Parse.Pool
import SourceBundle.Proofs.Parse.Preamble
import SourceBundle.Proofs.Parse.Readers
import SourceBundle.Proofs.Parse.RoundTrip
import SourceBundle.Proofs.Parse.Simulation
import SourceBundle.Proofs.Parse.Standalone
import SourceBundle.Proofs.Parse.Tails
import SourceBundle.Proofs.Parse.Totality
import SourceBundle.Proofs.Parse.Transplant
import SourceBundle.Proofs.Parse.Types
import SourceBundle.Proofs.Text.BlankLines
import SourceBundle.Proofs.Token.Extent
import SourceBundle.Proofs.Token.Gaps
import SourceBundle.Proofs.Token.Lexemes
import SourceBundle.Proofs.Token.Literals
import SourceBundle.Proofs.Token.Respacing
import SourceBundle.Proofs.Token.Snippets
import SourceBundle.Proofs.Token.Tiling
import SourceBundle.Proofs.Token.Tokens
import SourceBundle.Proofs.Tree.Bare
