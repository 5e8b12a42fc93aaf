import ContentImport.Main
import ContentImport.Proofs.Access.Directive
import ContentImport.Proofs.Access.Grouping
import ContentImport.Proofs.Access.Replacement
import ContentImport.Proofs.Access.Restriction
import ContentImport.Proofs.Archive.Guard
import ContentImport.Proofs.Archive.Violation
import ContentImport.Proofs.Import.CheckedOut
import ContentImport.Proofs.Import.Created
import ContentImport.Proofs.Import.Kinds
import ContentImport.Proofs.Import.Lasting
import ContentImport.Proofs.Import.Refresh
import ContentImport.Proofs.Import.Trimming
import ContentImport.Proofs.Import.Typing
import ContentImport.Proofs.Reader.Archive
import ContentImport.Proofs.Reader.Merged
import ContentImport.Proofs.Reader.Naming
import ContentImport.Proofs.Reader.Nesting
import ContentImport.Proofs.Reader.Reloaded
import ContentImport.Proofs.Reader.Scalar
import ContentImport.Proofs.Repository.Canonical
import ContentImport.Proofs.Repository.Definitions
import ContentImport.Proofs.Repository.Depths
import ContentImport.Proofs.Repository.Failure
import ContentImport.Proofs.Repository.Members
import ContentImport.Proofs.Repository.Order
import ContentImport.Proofs.Repository.Principals
import ContentImport.Proofs.Repository.Subtree
import ContentImport.Proofs.Value
