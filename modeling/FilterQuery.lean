import FilterQuery.Compiler
import FilterQuery.Filter.Builder
import FilterQuery.Filter.Json
import FilterQuery.Predicate.Json
import FilterQuery.Query.Explain
import FilterQuery.Store.Execution
import FilterQuery.Proofs.Places
import FilterQuery.Proofs.Query.Joined
import FilterQuery.Proofs.Query.Routes
import FilterQuery.Proofs.Selector.Moves
import FilterQuery.Proofs.Selector.Soundness
import FilterQuery.Proofs.Compile.Trees
import FilterQuery.Proofs.Compile.Comparisons
import FilterQuery.Proofs.Query.Runs
import FilterQuery.Proofs.Store.Conformity
import FilterQuery.Proofs.Filter.Truth
import FilterQuery.Proofs.Store.Loops
import FilterQuery.Proofs.Store.Evaluation
import FilterQuery.Proofs.Compile.Conditions
import FilterQuery.Proofs.Store.Soundness
import FilterQuery.Proofs.Selector.Exact
import FilterQuery.Proofs.Meaning.Choices
import FilterQuery.Proofs.Meaning.Enumeration
import FilterQuery.Proofs.Meaning.Expansion
import FilterQuery.Proofs.Selector.Grounded
import FilterQuery.Proofs.Selector.Retraced
import FilterQuery.Proofs.Compile.Forms
import FilterQuery.Proofs.Compile.Offences
import FilterQuery.Proofs.Compile.Landing
import FilterQuery.Proofs.Compile.Exact
import FilterQuery.Proofs.Meaning.Selection
import FilterQuery.Proofs.Meaning.Correctness
import FilterQuery.Proofs.Selector.Positions
import FilterQuery.Proofs.Selector.Termination
import FilterQuery.Proofs.Compile.EntryPoints
import FilterQuery.Proofs.Compile.Alone
import FilterQuery.Proofs.Compile.Failures
import FilterQuery.Proofs.Compile.Frame
import FilterQuery.Proofs.Meaning.Landing
import FilterQuery.Proofs.Meaning.Regrouping
import FilterQuery.Proofs.Meaning.SetLaws
import FilterQuery.Proofs.Number.Digits
import FilterQuery.Proofs.Number.Shortest
import FilterQuery.Proofs.Number.Rounding
import FilterQuery.Proofs.Json.Strings
import FilterQuery.Proofs.Json.Numerals
import FilterQuery.Proofs.Json.WrittenNumbers
import FilterQuery.Proofs.Json.ExactNumbers
import FilterQuery.Proofs.Json.Cutting
import FilterQuery.Proofs.Json.RoundTrip
import FilterQuery.Proofs.Value.RoundTrip
import FilterQuery.Proofs.Value.Literals
import FilterQuery.Proofs.Predicate.RoundTrip
import FilterQuery.Proofs.Predicate.Literals
import FilterQuery.Proofs.Value.Kinds
import FilterQuery.Proofs.Compile.Typing
import FilterQuery.Proofs.Text.Glob
import FilterQuery.Proofs.Number.Comparison
import FilterQuery.Proofs.Compile.Strategies
import FilterQuery.Proofs.Selector.Arrival
import FilterQuery.Proofs.Value.Order
import FilterQuery.Proofs.Selector.Repeated
import FilterQuery.Proofs.Selector.Entrances
import FilterQuery.Proofs.Meaning.Partition
import FilterQuery.Proofs.Compile.References
import FilterQuery.Proofs.Meaning.Identifiers
import FilterQuery.Proofs.Selector.Aliases
import FilterQuery.Proofs.Compile.Repeated
import FilterQuery.Proofs.Store.NestedLoops
import FilterQuery.Proofs.Store.LeftJoins
import FilterQuery.Proofs.Store.Growth
import FilterQuery.Proofs.Compile.Arguments
import FilterQuery.Proofs.Meaning.Membership
import FilterQuery.Proofs.Json.Locality
import FilterQuery.Proofs.Json.Placement
import FilterQuery.Proofs.Filter.RoundTrip
import FilterQuery.Proofs.Filter.Alike
import FilterQuery.Proofs.Filter.Editing
import FilterQuery.Proofs.Filter.Building
import FilterQuery.Proofs.Text.Quoting
import FilterQuery.Proofs.Predicate.Rendering
import FilterQuery.Proofs.Selector.Pending
