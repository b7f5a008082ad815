import FirmwareIndex.Main
import FirmwareIndex.Source.FileSet
import FirmwareIndex.Workspace.Observed
import FirmwareIndex.Proofs.Catalog.History
import FirmwareIndex.Proofs.Platform.Inclusion
import FirmwareIndex.Proofs.Platform.Qualified
import FirmwareIndex.Proofs.Platform.Unconditional
import FirmwareIndex.Proofs.Section.Joining
import FirmwareIndex.Proofs.Workspace.Linked
import FirmwareIndex.Proofs.Workspace.Refreshed
import FirmwareIndex.Proofs.Workspace.Rescan
import FirmwareIndex.Proofs.Workspace.Resolution
import FirmwareIndex.Proofs.Workspace.Shown
import FirmwareIndex.Proofs.Catalog.Mentions
import FirmwareIndex.Proofs.Workspace.Mentions
import FirmwareIndex.Proofs.Workspace.Order
import FirmwareIndex.Proofs.Workspace.Forgotten
import FirmwareIndex.Proofs.Workspace.Outside
import FirmwareIndex.Proofs.Catalog.Mappings
import FirmwareIndex.Proofs.Workspace.Arrival
import FirmwareIndex.Proofs.Catalog.Additions
import FirmwareIndex.Proofs.Catalog.Groups
import FirmwareIndex.Proofs.Platform.Positions
import FirmwareIndex.Proofs.Workspace.Events
import FirmwareIndex.Proofs.Platform.Gathered
import FirmwareIndex.Proofs.Platform.Components
import FirmwareIndex.Proofs.Platform.Reduced
import FirmwareIndex.Proofs.Workspace.Unchanged
import FirmwareIndex.Proofs.Platform.Appended
import FirmwareIndex.Proofs.Catalog.Includes
import FirmwareIndex.Proofs.Catalog.Loading
import FirmwareIndex.Proofs.Workspace.Admitted
import FirmwareIndex.Proofs.Section.Partition
import FirmwareIndex.Proofs.Section.Buckets
import FirmwareIndex.Proofs.Platform.Headers
import FirmwareIndex.Proofs.Platform.Dismissed
import FirmwareIndex.Proofs.Platform.Keyword
import FirmwareIndex.Proofs.Catalog.Rooted
import FirmwareIndex.Proofs.Platform.Marked
import FirmwareIndex.Proofs.Catalog.Diagnostics
import FirmwareIndex.Proofs.Section.Written
import FirmwareIndex.Proofs.Platform.References
import FirmwareIndex.Proofs.Section.Blocks
import FirmwareIndex.Proofs.Path.Canonical
import FirmwareIndex.Proofs.Tree.Spelled
import FirmwareIndex.Proofs.Platform.Respelled
import FirmwareIndex.Proofs.Catalog.Canonical
import FirmwareIndex.Proofs.Catalog.Respelled
import FirmwareIndex.Proofs.Catalog.OneEach
import FirmwareIndex.Proofs.Workspace.Respelled
import FirmwareIndex.Proofs.Path.Ending
import FirmwareIndex.Proofs.Path.Lexical
