import DumpCatalog.Main
import DumpCatalog.Proofs.Packing.Agreement
import DumpCatalog.Proofs.Catalog.Delivery
import DumpCatalog.Proofs.Catalog.Index
import DumpCatalog.Proofs.Catalog.Planning
import DumpCatalog.Proofs.Disk.Accounting
import DumpCatalog.Proofs.Catalog.Faults
import DumpCatalog.Proofs.Block.Runs
import DumpCatalog.Proofs.Bson.Length
import DumpCatalog.Proofs.Catalog.Rewriting
import DumpCatalog.Proofs.Catalog.Entries
import DumpCatalog.Proofs.Catalog.Listing
import DumpCatalog.Proofs.DumpTree.Coherence
import DumpCatalog.Proofs.Plan.Index
import DumpCatalog.Proofs.Packing.Limits
import DumpCatalog.Proofs.Disk.Enumeration
import DumpCatalog.Proofs.Command.Outputs
import DumpCatalog.Proofs.Catalog.LookUps
import DumpCatalog.Proofs.MetadataFile.Sessions
import DumpCatalog.Proofs.Bson.Decoding
import DumpCatalog.Proofs.Command.Namespaces
import DumpCatalog.Proofs.Packing.Listing
import DumpCatalog.Proofs.Plan.Catalog
