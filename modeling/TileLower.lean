import TileLower.Analysis.Facts
import TileLower.Cause
import TileLower.Document.Reader
import TileLower.Inspect
import TileLower.Main
import TileLower.Proofs.Addresses
import TileLower.Proofs.Convergence
import TileLower.Proofs.Definedness
import TileLower.Proofs.Documents
import TileLower.Proofs.Extents
import TileLower.Proofs.MapReadings
import TileLower.Proofs.Names
import TileLower.Proofs.RoundTrip
import TileLower.Proofs.Safety
import TileLower.Proofs.Terminations
import TileLower.Proofs.TypeTexts
import TileLower.Proofs.WholeRuns
import TileLower.Rule.Script
import TileLower.Service.Handler
