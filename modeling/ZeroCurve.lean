import ZeroCurve.Console
import ZeroCurve.Main
import ZeroCurve.Proofs.Expression.Tree
import ZeroCurve.Proofs.Expression.Juxtaposed
import ZeroCurve.Proofs.Formula.Reading
import ZeroCurve.Proofs.Plot.ClosedForm
import ZeroCurve.Proofs.Plot.Schedule
import ZeroCurve.Proofs.Picture.Tokens
import ZeroCurve.Proofs.Token.Spelling
import ZeroCurve.Proofs.Token.Segmentation
import ZeroCurve.Proofs.Segment.Chain
import ZeroCurve.Proofs.Plot.Continuity
import ZeroCurve.Proofs.View.Zoom
import ZeroCurve.Proofs.View.Course
import ZeroCurve.Proofs.View.Pan
import ZeroCurve.Proofs.View.Undo
import ZeroCurve.Proofs.Projection.Order
import ZeroCurve.Proofs.Plot.Inside
import ZeroCurve.Proofs.Newton.Affine
import ZeroCurve.Proofs.Newton.Opposite
import ZeroCurve.Proofs.Newton.Divisors
import ZeroCurve.Proofs.Angle.Exact
import ZeroCurve.Proofs.Angle.Rounded
import ZeroCurve.Proofs.Session.Prompt
import ZeroCurve.Proofs.Session.Run
import ZeroCurve.Proofs.Session.Normal
import ZeroCurve.Proofs.Scalar.Whole
import ZeroCurve.Proofs.Scalar.Range
import ZeroCurve.Proofs.Segment.Course
import ZeroCurve.Proofs.View.Range
import ZeroCurve.Proofs.CommandLine.Equation
import ZeroCurve.Proofs.CommandLine.Saved
import ZeroCurve.Proofs.Canvas.Segments
import ZeroCurve.Proofs.Equation.Heuristics
import ZeroCurve.Proofs.Formula.Wrapped
import ZeroCurve.Proofs.Formula.Nesting
import ZeroCurve.Proofs.Frame.Lines
import ZeroCurve.Proofs.Token.Listing
import ZeroCurve.Proofs.Token.Value
import ZeroCurve.Proofs.Expression.Position
import ZeroCurve.Proofs.Text.Wrap
