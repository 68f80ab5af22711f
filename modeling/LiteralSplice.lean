import LiteralSplice.Main
import LiteralSplice.Proofs.Builders
import LiteralSplice.Proofs.FrontEnds
import LiteralSplice.Proofs.Runs
import LiteralSplice.Service.Respond
import LiteralSplice.Proofs.BuiltListings
import LiteralSplice.Proofs.Renderings
import LiteralSplice.Proofs.JsonWriting
import LiteralSplice.Proofs.Endings
import LiteralSplice.Proofs.Bystanders
import LiteralSplice.Proofs.Room
import LiteralSplice.Proofs.Statements
import LiteralSplice.Proofs.Answers
import LiteralSplice.Proofs.Sinks
import LiteralSplice.Proofs.Interning
import LiteralSplice.Proofs.Unsplicing
import LiteralSplice.Proofs.Snapshots
import LiteralSplice.Proofs.Decisions
import LiteralSplice.Proofs.Constants
import LiteralSplice.Proofs.AcceptedDocuments
import LiteralSplice.Proofs.DocumentFaults
import LiteralSplice.Proofs.Reordering
import LiteralSplice.Proofs.LineEnds
import LiteralSplice.Proofs.Numbering
import LiteralSplice.Proofs.NamedListings
import LiteralSplice.Proofs.BareListings
import LiteralSplice.Proofs.ListedLayouts
import LiteralSplice.Proofs.Dispositions
import LiteralSplice.Proofs.Shapes
import LiteralSplice.Proofs.Insertions
import LiteralSplice.Proofs.Selections
