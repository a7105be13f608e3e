import Corridor.Datum.Stats
import Corridor.Session
import Corridor.Settings.File
import Corridor.Proofs.Number.Rounding
import Corridor.Proofs.Number.Encoding
import Corridor.Proofs.Number.Arithmetic
import Corridor.Proofs.Number.Bounds
import Corridor.Proofs.Catalog
import Corridor.Proofs.Number.Total
import Corridor.Proofs.Partition
import Corridor.Proofs.Sorting
import Corridor.Proofs.Chronology
import Corridor.Proofs.Tracklet
import Corridor.Proofs.Run
import Corridor.Proofs.Stats
import Corridor.Proofs.Coverage
import Corridor.Proofs.Ranking
import Corridor.Proofs.Exact
import Corridor.Proofs.Grid
import Corridor.Proofs.SetLevel
import Corridor.Proofs.Merging
import Corridor.Proofs.Parts
import Corridor.Proofs.Nesting
import Corridor.Proofs.Gap
import Corridor.Proofs.Number.Order
import Corridor.Proofs.Reordering
import Corridor.Proofs.Listing
import Corridor.Proofs.Calls
import Corridor.Proofs.Views
import Corridor.Proofs.Number.Sign
import Corridor.Proofs.Number.Elementary
import Corridor.Proofs.Number.TotalRange
import Corridor.Proofs.Accounting
import Corridor.Proofs.Ranges
import Corridor.Proofs.Undefined
import Corridor.Proofs.Settings
import Corridor.Proofs.Paging
import Corridor.Proofs.Positive
import Corridor.Proofs.Approved
import Corridor.Proofs.Sections
import Corridor.Proofs.Totality
import Corridor.Proofs.Retiming
import Corridor.Proofs.Binning
import Corridor.Proofs.Centres
import Corridor.Proofs.Direction
import Corridor.Proofs.Neutral
import Corridor.Proofs.Evenness
import Corridor.Proofs.Ascending
import Corridor.Proofs.Table
import Corridor.Proofs.Documents
import Corridor.Proofs.Usable
import Corridor.Proofs.Number.Root
import Corridor.Proofs.Number.Copies
import Corridor.Proofs.Constant
import Corridor.Proofs.Gathering
