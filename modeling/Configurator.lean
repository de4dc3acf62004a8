import Configurator.Main
import Configurator.Proofs.Catalog.Coherence
import Configurator.Proofs.Catalog.References
import Configurator.Proofs.Project.Restoration
import Configurator.Proofs.Comment.Sites
import Configurator.Proofs.Header.Splice
import Configurator.Proofs.Header.Parsing
import Configurator.Proofs.Header.RoundTrip
import Configurator.Proofs.Comment.Exchange
import Configurator.Proofs.Comment.Lines
import Configurator.Proofs.Comment.Rescan
import Configurator.Proofs.Comment.Reorder
import Configurator.Proofs.Header.Placement
import Configurator.Proofs.Header.Spelling
import Configurator.Proofs.Header.FeedBack
import Configurator.Proofs.Catalog.Dependents
import Configurator.Proofs.Catalog.Orphans
import Configurator.Proofs.Catalog.Undo
import Configurator.Proofs.Catalog.Growth
import Configurator.Proofs.Expr.Grammar
import Configurator.Proofs.Expr.Reading
import Configurator.Proofs.Expr.Soundness
import Configurator.Proofs.Expr.Completeness
import Configurator.Proofs.Expr.Recognition
import Configurator.Proofs.Catalog.Closing
import Configurator.Proofs.ModuleDefinition
import Configurator.Proofs.Artifact.Rendering
import Configurator.Proofs.Artifact.Writing
import Configurator.Proofs.Command.Assigning
import Configurator.Proofs.Command.Generating
import Configurator.Proofs.Catalog.Repair
import Configurator.Proofs.Expr.RoundTrip
import Configurator.Proofs.Command.Regenerating
import Configurator.Proofs.Catalog.Releasing
import Configurator.Proofs.Command.Disabling
import Configurator.Proofs.Catalog.Unreported
import Configurator.Proofs.Artifact.Following
import Configurator.Proofs.Project.Missing
import Configurator.Proofs.Project.Selection
import Configurator.Proofs.Template.ProjectTokens
import Configurator.Proofs.Header.Disjoint
import Configurator.Proofs.Project.Truth
import Configurator.Proofs.Comment.Blocks
import Configurator.Proofs.Comment.Values
import Configurator.Proofs.Artifact.Sources
import Configurator.Proofs.Artifact.Copies
import Configurator.Proofs.Support
import Configurator.Proofs.FileIndex
import Configurator.Proofs.Path.Stripping
import Configurator.Proofs.Project.StoredPaths
import Configurator.Proofs.Artifact.Changes
import Configurator.Proofs.Command.Previewing
