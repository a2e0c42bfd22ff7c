import Foresight.Code.Compose
import Foresight.Code.Layout
import Foresight.Live.Tracking
import Foresight.Main
import Foresight.Proofs.Ranking.Groups
import Foresight.Scope.Inspect
import Foresight.Proofs.Code.Forest
import Foresight.Proofs.Code.Laid
import Foresight.Proofs.Ranking.Standings
import Foresight.Proofs.CSharp.Lowered
import Foresight.Proofs.Code.Embodied
import Foresight.Proofs.Mining.Frame
import Foresight.Proofs.Records.CutOff
import Foresight.Proofs.Records.Fields
import Foresight.Proofs.Records.RoundTrip
import Foresight.Proofs.Store.Codec
import Foresight.Proofs.Ranking.Merging
import Foresight.Proofs.Template.Plain
import Foresight.Proofs.Template.Placeholders
import Foresight.Proofs.Template.Fresh
import Foresight.Proofs.Files.Disk
import Foresight.Proofs.Store.Saving
import Foresight.Proofs.Analysis.Passes
import Foresight.Proofs.Analysis.Update
import Foresight.Proofs.Analysis.Incremental
import Foresight.Proofs.Files.Directory
import Foresight.Proofs.Store.Naming
import Foresight.Proofs.Ranking.Published
import Foresight.Proofs.Store.Contents
import Foresight.Proofs.Session.Memory
import Foresight.Proofs.Session.Refinement
import Foresight.Proofs.Ranking.Orderless
import Foresight.Proofs.Code.Descent
import Foresight.Proofs.Code.Placed
import Foresight.Proofs.Code.Spans
import Foresight.Proofs.Text.Slice
import Foresight.Proofs.Code.Drawn
import Foresight.Proofs.CSharp.Trees
import Foresight.Proofs.CSharp.Traced
import Foresight.Proofs.CSharp.Sites
import Foresight.Proofs.Live.Rounds
import Foresight.Proofs.Scope.Places
import Foresight.Proofs.Offer.Repeated
import Foresight.Proofs.Files.Location
import Foresight.Proofs.Solution.Sources
import Foresight.Proofs.Store.Granted
import Foresight.Proofs.Session.Counted
import Foresight.Proofs.Session.Interleaved
import Foresight.Proofs.Code.Lookups
import Foresight.Proofs.CSharp.Pushes
import Foresight.Proofs.CSharp.Lookups
import Foresight.Proofs.Store.Refused
import Foresight.Proofs.CSharp.Bare
import Foresight.Proofs.CSharp.Comments
import Foresight.Proofs.CSharp.Types
import Foresight.Proofs.CSharp.References
import Foresight.Proofs.CSharp.Rendered
import Foresight.Proofs.CSharp.Namespaces
import Foresight.Proofs.Ranking.Tightened
import Foresight.Proofs.Ranking.Constants
import Foresight.Proofs.Template.Chain
import Foresight.Proofs.Scope.Captured
import Foresight.Proofs.Template.Spaced
import Foresight.Proofs.Offer.Substitution
import Foresight.Proofs.Offer.Fields
import Foresight.Proofs.Offer.Executed
import Foresight.Proofs.Scope.Keys
import Foresight.Proofs.Mining.Single
import Foresight.Proofs.Offer.Insertable
import Foresight.Proofs.CSharp.Spelled
import Foresight.Proofs.CSharp.Sourced
import Foresight.Proofs.CSharp.Assertions
import Foresight.Proofs.Offer.Subjectless
import Foresight.Proofs.Template.Recognised
import Foresight.Proofs.Code.Separate
import Foresight.Proofs.Code.Innermost
import Foresight.Proofs.Text.Truncated
import Foresight.Proofs.Code.Carets
import Foresight.Proofs.Files.Tree
import Foresight.Proofs.Solution.Identifiers
import Foresight.Proofs.Session.Unchanged
import Foresight.Proofs.Records.Cutting
import Foresight.Proofs.Records.Elements
import Foresight.Proofs.Records.Nested
import Foresight.Proofs.Code.Walk
import Foresight.Proofs.CSharp.Stack
