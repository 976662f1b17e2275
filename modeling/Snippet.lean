import Snippet.Main
import Snippet.Proofs.Arithmetic.ForeignDigits
import Snippet.Proofs.Arithmetic.Percentages
import Snippet.Proofs.Arithmetic.Soundness
import Snippet.Proofs.Calendar.CenturyWindow
import Snippet.Proofs.Calendar.RangeCue
import Snippet.Proofs.Calendar.ReadBack
import Snippet.Proofs.Calendar.TokenParts
import Snippet.Proofs.CommandLine.Input
import Snippet.Proofs.Detection.Calls
import Snippet.Proofs.Detection.PhoneDigits
import Snippet.Proofs.Detection.Selection
import Snippet.Proofs.Guarded.Standard
import Snippet.Proofs.Navigation.Targets
import Snippet.Proofs.Number.Amounts
import Snippet.Proofs.Number.Canonical
import Snippet.Proofs.Number.TrimmedDecimal
import Snippet.Proofs.Pattern.Forms
import Snippet.Proofs.Pattern.Stretches
import Snippet.Proofs.Pipeline.Erasure
import Snippet.Proofs.Pipeline.HostFormatters
import Snippet.Proofs.Pipeline.Navigation
import Snippet.Proofs.Pipeline.Partition
import Snippet.Proofs.Pipeline.Recombination
import Snippet.Proofs.Pipeline.Stability
import Snippet.Proofs.Pipeline.Surroundings
import Snippet.Proofs.Pipeline.WholeArithmetic
import Snippet.Proofs.Rating.Code
import Snippet.Proofs.Rating.Combination
import Snippet.Proofs.Pipeline.RatingCodes
import Snippet.Proofs.Clock.Calculation
import Snippet.Proofs.Clock.ClockForm
import Snippet.Proofs.Clock.PartList
import Snippet.Proofs.Pattern.Lazy
import Snippet.Proofs.Unit.Value
import Snippet.Proofs.Unit.Conversion
import Snippet.Proofs.Text.TemplateScan
