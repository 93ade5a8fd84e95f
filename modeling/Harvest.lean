import Harvest.Proofs.Listing.Interleaving
import Harvest.Proofs.Provider.Secrecy
import Harvest.Settings.Json
import Harvest.Store
import Harvest.Proofs.Listing.Complete
import Harvest.Proofs.Listing.Lookup
import Harvest.Proofs.Provider.Redemption
import Harvest.Proofs.Listing.Transcript
import Harvest.Proofs.Listing.Progress
import Harvest.Proofs.Sets
import Harvest.Proofs.Provider.SetSpecs
import Harvest.Proofs.Store.Refinement
import Harvest.Proofs.Provider.Deletion
import Harvest.Proofs.Listing.Incremental
import Harvest.Proofs.Listing.Contract
import Harvest.Proofs.Provider.Windows
import Harvest.Proofs.Store.Batch
import Harvest.Proofs.Request.Grammar
import Harvest.Proofs.Listing.Faults
import Harvest.Proofs.Json.Size
import Harvest.Proofs.Token.Acceptance
import Harvest.Proofs.Listing.Origins
import Harvest.Proofs.Provider.Outcome
import Harvest.Proofs.Provider.SetListing
import Harvest.Proofs.Provider.FormatListing
import Harvest.Proofs.Listing.Answering
import Harvest.Proofs.Provider.ListVerbs
import Harvest.Proofs.Datestamp.Grammar
import Harvest.Proofs.Provider.Identifiers
import Harvest.Proofs.Provider.Setup
import Harvest.Proofs.Listing.Termination
import Harvest.Proofs.Provider.Namespaces
import Harvest.Proofs.Listing.Visits
import Harvest.Proofs.Markup.Characters
import Harvest.Proofs.Listing.Characters
import Harvest.Proofs.Provider.Characters
import Harvest.Proofs.Provider.Fallbacks
