import Bookkeeping.Json.Reader
import Bookkeeping.Log.Render
import Bookkeeping.Main
import Bookkeeping.Password.Account
import Bookkeeping.Proofs.Absence
import Bookkeeping.Proofs.Acceptance
import Bookkeeping.Proofs.Adoption
import Bookkeeping.Proofs.BalanceShifts
import Bookkeeping.Proofs.Blocks
import Bookkeeping.Proofs.ByteOrder
import Bookkeeping.Proofs.CallReports
import Bookkeeping.Proofs.Constraints
import Bookkeeping.Proofs.Credentials
import Bookkeeping.Proofs.DateBounds
import Bookkeeping.Proofs.Deletions
import Bookkeeping.Proofs.Figures
import Bookkeeping.Proofs.Isolation
import Bookkeeping.Proofs.Lifecycle
import Bookkeeping.Proofs.Listings
import Bookkeeping.Proofs.LogSecrets
import Bookkeeping.Proofs.NamedColumns
import Bookkeeping.Proofs.Naming
import Bookkeeping.Proofs.Nesting
import Bookkeeping.Proofs.Outlines
import Bookkeeping.Proofs.Overrides
import Bookkeeping.Proofs.Pages
import Bookkeeping.Proofs.Precedence
import Bookkeeping.Proofs.Reconciliation
import Bookkeeping.Proofs.Redactions
import Bookkeeping.Proofs.Renamings
import Bookkeeping.Proofs.Resumption
import Bookkeeping.Proofs.Snapshots
import Bookkeeping.Proofs.Spellings
import Bookkeeping.Proofs.Succession
import Bookkeeping.Proofs.Targets
import Bookkeeping.Service.Call
import Bookkeeping.Settings.Assignment
import Bookkeeping.Store.Folder
