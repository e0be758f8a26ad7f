import Docket.Main
import Docket.Selector.Grammar
import Docket.Selector.Meaning
import Docket.Store.Transaction
import Docket.Proofs.Selector.Checking
import Docket.Proofs.Selector.Rewriting
import Docket.Proofs.Selector.Acceptance
import Docket.Proofs.Selector.Truth
import Docket.Proofs.Store.Chain
import Docket.Proofs.Vault.Operations
import Docket.Proofs.Vault.Writing
import Docket.Proofs.Store.Growth
import Docket.Proofs.Json.Building
import Docket.Proofs.Attachment.Codec
import Docket.Proofs.FileTree
import Docket.Proofs.Attachment.Contents
import Docket.Proofs.Sha256
import Docket.Proofs.Attachment.Staging
import Docket.Proofs.Attachment.Names
import Docket.Proofs.Vault.Backing
import Docket.Proofs.Session.Places
import Docket.Proofs.Session.Run
import Docket.Proofs.Selector.Fixed
import Docket.Proofs.Vault.Failure
import Docket.Proofs.Json.Numbers
import Docket.Proofs.Revision.Codec
import Docket.Proofs.Attachment.Rows
import Docket.Proofs.Store.Pages
import Docket.Proofs.Vault.Following
import Docket.Proofs.Vault.Script
import Docket.Proofs.Vault.Independence
import Docket.Proofs.Reach
import Docket.Proofs.Remaking
import Docket.Proofs.Session.Standing
import Docket.Proofs.Session.Reopening
import Docket.Proofs.Cli.Chronicle
import Docket.Proofs.Cli.Enacting
import Docket.Proofs.Cli.Runs
import Docket.Proofs.Selector.Lifting
import Docket.Proofs.Vault.Collection
import Docket.Proofs.Store.Batches
import Docket.Proofs.Binary64.Rounding
import Docket.Proofs.Binary64.Search
import Docket.Proofs.Json.Doubles
import Docket.Proofs.Json.Nesting
import Docket.Proofs.Store.Readback
import Docket.Proofs.Selector.WellFormed
import Docket.Proofs.Json.Indenting
import Docket.Proofs.Value.Exact
import Docket.Proofs.Cli.Replies
import Docket.Proofs.Cli.Options
import Docket.Proofs.Cli.Containment
import Docket.Proofs.Cli.Traceless
import Docket.Proofs.Selector.Exact
import Docket.Proofs.Cli.Normalizing
import Docket.Proofs.Vault.Ownership
import Docket.Proofs.Vault.Directory
import Docket.Proofs.Vault.Lookups
import Docket.Proofs.Vault.Carrying
import Docket.Proofs.Vault.Grounded
import Docket.Proofs.Vault.Batch
import Docket.Proofs.Vault.Removal
import Docket.Proofs.Vault.OneByOne
import Docket.Proofs.Selector.FirstFault
import Docket.Proofs.Selector.Outline
import Docket.Proofs.Binary64.Whole
import Docket.Proofs.Selector.Fractions
import Docket.Proofs.Json.Merging
import Docket.Proofs.Value.Settled
import Docket.Proofs.Selector.Wire
import Docket.Proofs.Revision.Material
import Docket.Proofs.Revision.Spelling
import Docket.Proofs.Json.Equality
import Docket.Proofs.Revision.Arrangement
import Docket.Proofs.Attachment.Order
import Docket.Proofs.Selector.Chains
