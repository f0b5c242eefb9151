import ApkArchive.Alignment.Check
import ApkArchive.CommandLine.FileTree
import ApkArchive.Main
import ApkArchive.Proofs.Signing.Aligned
import ApkArchive.Proofs.Signing.Calls
import ApkArchive.Proofs.Signing.Checked
import ApkArchive.Proofs.Signing.Found
import ApkArchive.Proofs.Signing.Gaps
import ApkArchive.Proofs.Signing.Idempotent
import ApkArchive.Proofs.Signing.Limits
import ApkArchive.Proofs.Signing.Padding
import ApkArchive.Proofs.Signing.ReadBack
import ApkArchive.Proofs.Signing.Resigned
import ApkArchive.Proofs.Signing.Shipped
import ApkArchive.Signing.Script
import ApkArchive.Storage.Output
import ApkArchive.Proofs.Zip.Tiling
import ApkArchive.Proofs.Zip.Blame
import ApkArchive.Proofs.Signing.Rejected
import ApkArchive.Proofs.Signing.Duplicates
import ApkArchive.Proofs.Signing.Frames
import ApkArchive.Proofs.Zip.Timestamp
import ApkArchive.Proofs.Signing.NewEntries
import ApkArchive.Proofs.Zip.Alike
import ApkArchive.Proofs.Zip.Reordered
import ApkArchive.Proofs.Storage.Tandem
import ApkArchive.Proofs.Signing.Lockstep
import ApkArchive.Proofs.Signing.Reordered
import ApkArchive.Proofs.Storage.Level
import ApkArchive.Proofs.Bytes.Field
import ApkArchive.Proofs.Zip.Consistency
import ApkArchive.Proofs.Zip.DirectoryFaults
import ApkArchive.Proofs.Zip.LastEndRecord
import ApkArchive.Proofs.Zip.Pairs
import ApkArchive.Proofs.Alignment.ExtraField
import ApkArchive.Proofs.Zip.DirectoryFields
import ApkArchive.Proofs.Zip.Replaced
import ApkArchive.Proofs.Signing.Accounts
import ApkArchive.Proofs.Storage.Slices
import ApkArchive.Proofs.Zip.Uncompressed
import ApkArchive.Proofs.Storage.Snapshots
import ApkArchive.Proofs.Zip.EndRecordEdits
import ApkArchive.Proofs.CommandLine.Path
import ApkArchive.Proofs.CommandLine.FileTree
import ApkArchive.Proofs.CommandLine.Leaves
import ApkArchive.Proofs.CommandLine.Rewriting
