import CurveArea.Polynomial.Text
import CurveArea.Samples
import CurveArea.Task
import CurveArea.Text.Bordered

/-!
# What a task does

The plan of a task is the list of what its run does, in order, and the failure that it ends in, if
it ends in one. Everything that can fail in the computation is settled in the plan; only the saving
of the samples may still fail when the plan is carried out.
-/

namespace CurveArea

/-- One thing that a run does. -/
inductive Effect
  | print (text : String)
  | tell (note : Note Float)
  | save (path : String) (content : String)
  /-- Draws the curves; the drawing itself is not part of this library. -/
  | draw (path : String)
  deriving Repr

/-- What a run does, and the failure at its end. -/
structure Plan where
  effects : List Effect
  failure : Option (AreaError Float)

/-- The table of a report (`report_table`). -/
def Report.table (r : Report Float) : String :=
  Text.bordered
    [["method", "area"],
      ["Definite integral", Decimal.plain r.analytic],
      ["Left Riemann sum, n = " ++ toString r.subdivisions, Decimal.plain r.riemann],
      ["Absolute error", Decimal.fixed 6 r.absError]]

namespace Task

/-- What a task is about, after its parts have been checked. -/
structure Setting where
  count : Nat
  interval : Interval Float
  first : Polynomial Float
  second : Polynomial Float

/-- Checks the parts of a task: the number of rectangles, the bounds, then the curves. -/
def setting (task : Task) : Except (AreaError Float) Setting := do
  let count ← Riemann.checkCount task.n
  let interval ← Interval.between task.a task.b
  let first ← Polynomial.parse task.f1
  let second ← Polynomial.parse task.f2
  return { count, interval, first, second }

/-- The text that shows how the curves were read. -/
def Setting.curvesText (s : Setting) : String :=
  "\nParsed polynomials:\nf1(x) = " ++ s.first.format ++ "\nf2(x) = " ++ s.second.format ++ "\n"

/-- The text that shows a report. -/
def Setting.reportText (s : Setting) (report : Report Float) : String :=
  "\nArea between f1(x) and f2(x) on [" ++ Decimal.plain s.interval.a ++ ", " ++
    Decimal.plain s.interval.b ++ "]\n" ++ report.table

/-- What is saved and drawn after the report. -/
def exports (task : Task) (s : Setting) : List Effect :=
  (task.csv.toList.flatMap fun path =>
    [.save path (Samples.csv s.first s.second s.interval Samples.curveSamples),
      .tell (.samplesSaved path)]) ++
    task.plot.toList.map .draw

/-- The plan of a task (`run`). -/
def plan (task : Task) : Plan :=
  match task.setting with
  | .error e => ⟨[], some e⟩
  | .ok s =>
    match Report.compute s.first s.second s.interval s.count with
    | (notes, .error e) => ⟨.print s.curvesText :: notes.map .tell, some e⟩
    | (notes, .ok report) =>
      ⟨.print s.curvesText :: notes.map .tell ++ .print (s.reportText report) :: task.exports s,
        none⟩

end Task

end CurveArea
