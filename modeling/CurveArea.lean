import CurveArea.Main
import CurveArea.Polynomial.Closeness
import CurveArea.Proofs.Polynomial.Entries
import CurveArea.Proofs.Term.Reading
import CurveArea.Proofs.Polynomial.Exact
import CurveArea.Proofs.Polynomial.Integral
import CurveArea.Proofs.Riemann.FirstOrder
import CurveArea.Proofs.Binary64.Nearest
import CurveArea.Proofs.Decimal.Shortest
import CurveArea.Proofs.Decimal.Notation
import CurveArea.Proofs.Polynomial.Text
import CurveArea.Proofs.Term.Joining
import CurveArea.Proofs.Report.Exchange
import CurveArea.Proofs.Report.Silence
import CurveArea.Proofs.Polynomial.Overflow
import CurveArea.Proofs.Riemann.Rectangles
import CurveArea.Proofs.Report.Failure
import CurveArea.Proofs.Polynomial.Meaning
import CurveArea.Proofs.Binary64.Whole
import CurveArea.Proofs.Polynomial.Hidden
import CurveArea.Proofs.Binary64.Rounding
import CurveArea.Proofs.Polynomial.Built
import CurveArea.Proofs.Term.Rounds
import CurveArea.Proofs.Term.Faults
import CurveArea.Proofs.Command.Message
import CurveArea.Proofs.Command.Course
import CurveArea.Proofs.Polynomial.Accumulation
import CurveArea.Proofs.Polynomial.Tolerance
import CurveArea.Proofs.Polynomial.Pruned
import CurveArea.Proofs.Binary64.Exact
import CurveArea.Proofs.Binary64.Sums
import CurveArea.Proofs.Binary64.Summation
import CurveArea.Proofs.Polynomial.Reordered
import CurveArea.Proofs.Polynomial.Antiderivative
import CurveArea.Proofs.Polynomial.Difference
import CurveArea.Proofs.Binary64.HalfEven
import CurveArea.Proofs.Binary64.Products
import CurveArea.Proofs.Interval.Grid
import CurveArea.Proofs.Samples.Range
import CurveArea.Proofs.Binary64.Distance
import CurveArea.Proofs.Polynomial.Closeness
import CurveArea.Proofs.Report.Proportion
import CurveArea.Proofs.Report.Identical
import CurveArea.Proofs.Report.Precedence
import CurveArea.Proofs.Decimal.Reading
import CurveArea.Proofs.Samples.Table
import CurveArea.Proofs.Task.Validation
import CurveArea.Proofs.Dialogue.Answers
