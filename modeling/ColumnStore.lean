import ColumnStore.Json.Codec
import ColumnStore.Main
import ColumnStore.Proofs.Encoding
import ColumnStore.Proofs.Sequence
import ColumnStore.Sorted
import ColumnStore.Proofs.RoundTrip
import ColumnStore.Proofs.CodeScan
import ColumnStore.Proofs.WellFormed
import ColumnStore.Proofs.Recode
import ColumnStore.Proofs.References
import ColumnStore.Proofs.Operation
import ColumnStore.Proofs.Selection
import ColumnStore.Proofs.StoredScan
import ColumnStore.Proofs.Agreement
import ColumnStore.Proofs.ReferenceScan
import ColumnStore.Proofs.ScanChain
import ColumnStore.Proofs.Transparency
import ColumnStore.Proofs.Transition
import ColumnStore.Proofs.Layout
import ColumnStore.Proofs.Resolution
import ColumnStore.Proofs.ScanOutcome
import ColumnStore.Proofs.Contents
import ColumnStore.Proofs.Rows
import ColumnStore.Proofs.ScanSuccess
import ColumnStore.Proofs.Addressing
import ColumnStore.Proofs.Materialise
import ColumnStore.Proofs.Sealing
import ColumnStore.Proofs.Rescan
import ColumnStore.Proofs.AppendOutcome
import ColumnStore.Proofs.BoundSearch
import ColumnStore.Proofs.CompressionOutcome
import ColumnStore.Proofs.Filling
import ColumnStore.Proofs.TotalOrder
import ColumnStore.Proofs.NaNSides
import ColumnStore.Proofs.Reencoding
import ColumnStore.Proofs.Registration
import ColumnStore.Proofs.Assembly
import ColumnStore.Proofs.WholeText
import ColumnStore.Proofs.Conversion
import ColumnStore.Proofs.FractionText
import ColumnStore.Proofs.JsonText
import ColumnStore.Proofs.Lossless
import ColumnStore.Proofs.CastOrder
import ColumnStore.Proofs.Storing
import ColumnStore.Proofs.Settings
import ColumnStore.Proofs.Loading
import ColumnStore.Proofs.Answers
import ColumnStore.Proofs.Listed
import ColumnStore.Proofs.Demonstration

