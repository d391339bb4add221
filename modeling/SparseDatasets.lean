import SparseDatasets.Main
import SparseDatasets.Dataset.Emission
import SparseDatasets.Proofs.Indexing
import SparseDatasets.Proofs.Encoding
import SparseDatasets.Proofs.Refusals
import SparseDatasets.Proofs.Fallible
import SparseDatasets.Proofs.Layout
import SparseDatasets.Proofs.WellFormed
import SparseDatasets.Proofs.Defects
import SparseDatasets.Proofs.Decoding
import SparseDatasets.Proofs.Element
import SparseDatasets.Proofs.Checks
import SparseDatasets.Proofs.Guarded
import SparseDatasets.Proofs.Totality
import SparseDatasets.Proofs.Placement
import SparseDatasets.Proofs.Differences
import SparseDatasets.Proofs.RowAccess
import SparseDatasets.Proofs.RoundTrip
import SparseDatasets.Proofs.Verdict
import SparseDatasets.Proofs.Canonical
import SparseDatasets.Proofs.Symmetry
import SparseDatasets.Proofs.Offenders
import SparseDatasets.Proofs.RowPartition
import SparseDatasets.Proofs.Gate
import SparseDatasets.Proofs.Counts
import SparseDatasets.Proofs.Listing
import SparseDatasets.Proofs.Emission
import SparseDatasets.Proofs.ScaledColumns
import SparseDatasets.Proofs.ArrayText
import SparseDatasets.Proofs.Doubles
import SparseDatasets.Proofs.Rounding
import SparseDatasets.Proofs.Arithmetic
import SparseDatasets.Proofs.ExactSums
import SparseDatasets.Proofs.Draws
import SparseDatasets.Proofs.Sampling
import SparseDatasets.Proofs.Configurations
import SparseDatasets.Proofs.Scattering
import SparseDatasets.Proofs.DeclaredSupport
import SparseDatasets.Proofs.Definite
import SparseDatasets.Proofs.FactorProduct
import SparseDatasets.Proofs.Mirroring
import SparseDatasets.Proofs.ConjugateGradient
import SparseDatasets.Proofs.Numerals
import SparseDatasets.Proofs.Scanning
import SparseDatasets.Proofs.Parsing
import SparseDatasets.Proofs.Shortest
import SparseDatasets.Proofs.DecimalText
import SparseDatasets.Proofs.Forms
import SparseDatasets.Proofs.ReportText
import SparseDatasets.Proofs.Truncation
import SparseDatasets.Proofs.Separation
import SparseDatasets.Proofs.ReadBack
import SparseDatasets.Proofs.Construction
import SparseDatasets.Proofs.StrictDecoding
import SparseDatasets.Proofs.NestedRows
import SparseDatasets.Proofs.WordPass
import SparseDatasets.Proofs.Runs
