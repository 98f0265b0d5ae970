import CurveArea.Proofs.Command.Message
import CurveArea.Proofs.Command.Steps
import CurveArea.Proofs.Dialogue.Answers
import CurveArea.Proofs.FileSystem.Writing
import CurveArea.Proofs.Report.Failure
import CurveArea.Proofs.Text.Bordered

/-!
# The course of a run

A run of a task from a file goes through its steps in a fixed order and stops at the first that
fails: the number of rectangles, the bounds, the two curves, the computation, and the saving of the
samples. `Task.Course` says what each of these leaves printed, line by line, and in the file system.
A run that keeps no journal takes that course, and if it fails it exits with the code 1 and says why
in one line.
-/

namespace CurveArea

open Text (IsLine unlines unlines_cons unlines_append)

/-! ## The steps of a run -/

/-- A text has been written where a path leads to: it is the content of the file at its place, and
nothing else of the system has changed, or it went to a standard stream, or nowhere. -/
inductive Progress.Written (text : String) (p : Progress) : Sink → Progress → Prop
  | file {place : List String} {q : Progress} : q.input = p.input → q.printed = p.printed →
      q.complained = p.complained → q.system.working = p.system.working →
      q.system.get? place = some (.file text.toUTF8 none) →
      (∀ other, other ≠ place → q.system.get? other = p.system.get? other) →
      Written text p (.file place) q
  | output : Written text p .output (p.print text)
  | errors : Written text p .errors (p.complain text)
  | nowhere : Written text p .nowhere p

namespace Task

/-- The lines that show how the curves were read. -/
def Setting.curvesLines (s : Setting) : List String :=
  ["", "Parsed polynomials:", "f1(x) = " ++ s.first.format, "f2(x) = " ++ s.second.format]

/-- The lines of a complete report: the interval, and a table with both areas, the number of
rectangles and the error, which has six decimals. -/
def Setting.reportLines (s : Setting) (report : Report Float) : List String :=
  ["", "Area between f1(x) and f2(x) on [" ++ Decimal.plain s.interval.a ++ ", " ++
      Decimal.plain s.interval.b ++ "]"] ++
    Text.pairLines
      [("method", "area"),
        ("Definite integral", Decimal.plain report.analytic),
        ("Left Riemann sum, n = " ++ toString report.subdivisions, Decimal.plain report.riemann),
        ("Absolute error", Decimal.fixed 6 report.absError)]

/-- The parts of a task have passed their checks. -/
structure Checked (task : Task) (s : Setting) : Prop where
  count : Riemann.checkCount task.n = (.ok s.count : Except (AreaError Float) Nat)
  interval : Interval.between task.a task.b = .ok s.interval
  first : Polynomial.parse task.f1 = .ok s.first
  second : Polynomial.parse task.f2 = .ok s.second

/-- What the run of a task is that starts somewhere, by the first of its steps that fails. -/
inductive Course (task : Task) (start : Progress) : Progress × Ending → Prop
  | count {e : AreaError Float} : Riemann.checkCount task.n = .error e →
      Course task start (start, .failure (.area e))
  | interval {n : Nat} {e : AreaError Float} :
      Riemann.checkCount task.n = (.ok n : Except (AreaError Float) Nat) →
      Interval.between task.a task.b = .error e →
      Course task start (start, .failure (.area e))
  | first {n : Nat} {i : Interval Float} {e : AreaError Float} :
      Riemann.checkCount task.n = (.ok n : Except (AreaError Float) Nat) →
      Interval.between task.a task.b = .ok i →
      (Polynomial.parse task.f1 : Except (AreaError Float) (Polynomial Float)) = .error e →
      Course task start (start, .failure (.area e))
  | second {n : Nat} {i : Interval Float} {p : Polynomial Float} {e : AreaError Float} :
      Riemann.checkCount task.n = (.ok n : Except (AreaError Float) Nat) →
      Interval.between task.a task.b = .ok i → Polynomial.parse task.f1 = .ok p →
      (Polynomial.parse task.f2 : Except (AreaError Float) (Polynomial Float)) = .error e →
      Course task start (start, .failure (.area e))
  | compute {s : Setting} {e : AreaError Float} : task.Checked s →
      (Report.compute s.first s.second s.interval s.count).2 = .error e →
      Course task start (start.print (unlines s.curvesLines), .failure (.area e))
  | save {s : Setting} {report : Report Float} {path : String} {fault : FileFault} :
      task.Checked s → (Report.compute s.first s.second s.interval s.count).2 = .ok report →
      task.csv = some path → start.system.sink path = .error fault →
      Course task start (start.print (unlines (s.curvesLines ++ s.reportLines report)),
        .failure (.unsaved fault))
  | saved {s : Setting} {report : Report Float} {path : String} {sink : Sink} {p : Progress} :
      task.Checked s → (Report.compute s.first s.second s.interval s.count).2 = .ok report →
      task.csv = some path → start.system.sink path = .ok sink →
      Progress.Written (Samples.csv s.first s.second s.interval Samples.curveSamples)
        (start.print (unlines (s.curvesLines ++ s.reportLines report))) sink p →
      Course task start (p, task.plot.elim .success .drawing)
  | unnamed {s : Setting} {report : Report Float} : task.Checked s →
      (Report.compute s.first s.second s.interval s.count).2 = .ok report → task.csv = none →
      Course task start (start.print (unlines (s.curvesLines ++ s.reportLines report)),
        task.plot.elim .success .drawing)

/-! ## The texts line by line -/

theorem Setting.curvesText_eq (s : Setting) : s.curvesText = unlines s.curvesLines := by
  have head : "\nParsed polynomials:\nf1(x) = " =
    "\n" ++ ("Parsed polynomials:" ++ ("\n" ++ "f1(x) = ")) := by simp
  have next : "\nf2(x) = " = "\n" ++ "f2(x) = " := by simp
  unfold curvesText curvesLines
  simp only [unlines_cons, Text.unlines_nil, head, next, String.append_assoc, String.append_empty,
    String.empty_append]

theorem Setting.reportText_eq (s : Setting) (report : Report Float) :
    s.reportText report = unlines (s.reportLines report) := by
  have head : "\nArea between f1(x) and f2(x) on [" =
    "\n" ++ "Area between f1(x) and f2(x) on [" := by simp
  have close : "]\n" = "]" ++ "\n" := by simp
  have table : report.table = unlines (Text.pairLines
      [("method", "area"), ("Definite integral", Decimal.plain report.analytic),
        ("Left Riemann sum, n = " ++ toString report.subdivisions, Decimal.plain report.riemann),
        ("Absolute error", Decimal.fixed 6 report.absError)]) := by
    unfold Report.table
    rw [← Text.bordered_pairs (List.cons_ne_nil _ _)]
    simp only [List.map_cons, List.map_nil]
  unfold reportText reportLines
  simp only [unlines_append, unlines_cons, Text.unlines_nil, table, head, close,
    String.append_assoc, String.append_empty, String.empty_append]

end Task

/-! ## Saving -/

namespace Progress

variable (p : Progress) {path : String} (text : String)

theorem save_of_sink_error {fault : FileFault} (failed : p.system.sink path = .error fault) :
    p.save path text = .error fault := by
  rw [save, failed]
  rfl

theorem save_of_sink {sink : Sink} (h : p.system.sink path = .ok sink) :
    p.save path text = .ok (p.write text sink) := by
  rw [save, h]
  rfl

/-- What is written to a file changes nothing at the other places. -/
theorem written_write (sink : Sink) : Written text p sink (p.write text sink) := by
  cases sink with
  | file place =>
    exact .file rfl rfl rfl rfl FileSystem.get?_write_self
      fun other different => FileSystem.get?_write_of_ne different
  | output => exact .output
  | errors => exact .errors
  | nowhere => exact .nowhere

end Progress

namespace Task

variable {task : Task} {start : Progress} {s : Setting} {report : Report Float} {now : Moment}

/-- The checks of a task pass, or the first of them that fails ends the run before it prints
anything. -/
theorem setting_cases (task : Task) (start : Progress) :
    (∃ s, task.setting = .ok s ∧ task.Checked s) ∨
      ∃ e, task.setting = .error e ∧ task.Course start (start, .failure (.area e)) := by
  cases count : (Riemann.checkCount task.n : Except (AreaError Float) Nat) with
  | error e => exact .inr ⟨e, by simp only [setting, count, bind, Except.bind], .count count⟩
  | ok n =>
    cases interval : Interval.between task.a task.b with
    | error e =>
      exact .inr ⟨e, by simp only [setting, count, interval, bind, Except.bind],
        .interval count interval⟩
    | ok i =>
      cases first : (Polynomial.parse task.f1 : Except (AreaError Float) (Polynomial Float)) with
      | error e =>
        exact .inr ⟨e, by simp only [setting, count, interval, first, bind, Except.bind],
          .first count interval first⟩
      | ok p =>
        cases second : (Polynomial.parse task.f2 : Except (AreaError Float) (Polynomial Float)) with
        | error e =>
          exact .inr ⟨e, by simp only [setting, count, interval, first, second, bind, Except.bind],
            .second count interval first second⟩
        | ok q =>
          exact .inl ⟨⟨n, i, p, q⟩, by simp only [setting, count, interval, first, second, bind,
            Except.bind, pure, Except.pure], count, interval, first, second⟩

/-- After the report the samples are saved if the task names a file for them. -/
theorem course_of_exports (checked : task.Checked s)
    (computed : (Report.compute s.first s.second s.interval s.count).2 = .ok report) :
    task.Course start (((Progress.world now).perform .off none .success (task.exports s)).run
      (start.print (unlines (s.curvesLines ++ s.reportLines report)))).swap := by
  let shown := start.print (unlines (s.curvesLines ++ s.reportLines report))
  show task.Course start
    (((Progress.world now).perform .off none .success (task.exports s)).run shown).swap
  rw [exports]
  cases named : task.csv with
  | none =>
    rw [Option.toList_none, List.flatMap_nil, List.nil_append, Progress.perform_map_draw]
    exact .unnamed checked computed named
  | some path =>
    rw [Option.toList_some, List.flatMap_singleton, List.cons_append, Progress.perform_save]
    cases leads : start.system.sink path with
    | error fault =>
      rw [shown.save_of_sink_error _ leads]
      exact .save checked computed named leads
    | ok sink =>
      rw [shown.save_of_sink _ leads, List.singleton_append]
      dsimp only
      rw [Progress.perform_tell_off, Progress.perform_map_draw]
      exact .saved checked computed named leads (shown.written_write _ sink)

theorem journalName?_off (silent : task.level = .off) (now : Moment) :
    task.journalName? now = none := by
  rw [journalName?, silent, bne_self_eq_false, Bool.and_false]
  rfl

theorem run_journal?_off (silent : task.level = .off) (p : Progress) :
    ((Progress.world now).journal? task).run p = (none, p) := by
  have moment : ((Progress.world now).now).run p = (now, p) := rfl
  rw [World.journal?, Progress.run_bind_of_run moment, journalName?_off silent]
  rfl

/-- A task that keeps no journal takes its course. -/
theorem course_run (silent : task.level = .off) (start : Progress) (now : Moment) :
    task.Course start (((Progress.world now).runTask task).run start).swap := by
  rw [World.runTask, Progress.run_bind_of_run (run_journal?_off silent start), silent]
  rcases setting_cases task start with ⟨s, passed, checked⟩ | ⟨e, failed, course⟩
  · rw [plan, passed]
    dsimp only
    rcases computed : Report.compute s.first s.second s.interval s.count with ⟨notes, e | report⟩
    · have course : task.Course start _ := .compute checked (congrArg Prod.snd computed)
      dsimp only [Plan.ending]
      rw [Progress.perform_print, ← List.append_nil (notes.map Effect.tell),
        Progress.perform_map_tell_off, s.curvesText_eq]
      exact course
    · dsimp only [Plan.ending]
      rw [List.cons_append, Progress.perform_print, Progress.perform_map_tell_off,
        Progress.perform_print, Progress.print_print, s.curvesText_eq, s.reportText_eq,
        ← unlines_append]
      exact course_of_exports checked (congrArg Prod.snd computed)
  · rw [plan, failed]
    exact course

/-! ## How a run ends -/

theorem exists_parse_of_level {text : String} {level : LogLevel}
    (h : (parse text).toOption.map (·.level) = some level) :
    ∃ task, parse text = .ok task ∧ task.level = level := by
  cases parsed : parse text with
  | error e =>
    rw [parsed] at h
    cases h
  | ok task =>
    rw [parsed] at h
    exact ⟨task, rfl, Option.some.inj h⟩

theorem pos_of_checkCount {requested : Int} {n : Nat}
    (h : Riemann.checkCount requested = (.ok n : Except (AreaError Float) Nat)) : 1 ≤ n := by
  rw [Riemann.checkCount] at h
  split at h
  · obtain rfl := Except.ok.inj h
    omega
  · cases h

theorem Course.computed_isLine {e : AreaError Float} (checked : task.Checked s)
    (failed : (Report.compute s.first s.second s.interval s.count).2 = .error e) :
    IsLine e.message := by
  have positive : 1 ≤ s.count := pos_of_checkCount checked.count
  by_cases hasMax : Degree.max ∈ s.first.degrees ∨ Degree.max ∈ s.second.degrees
  · rw [Report.compute_of_max hasMax] at failed
    obtain rfl := Except.error.inj failed
    exact AreaError.isLine_message _ (by rintro _ _ _ ⟨⟩)
  · obtain ⟨report, computed⟩ := Report.exists_compute (i := s.interval) positive hasMax
    rw [computed] at failed
    cases failed

/-- A run that fails has one line to say and has said nothing else. -/
theorem Course.isLine_message {out : Progress × Ending} {cause : Failure}
    (h : task.Course start out) (failed : out.2 = .failure cause) :
    IsLine cause.message ∧ out.1.complained = start.complained := by
  cases h with
  | count refused =>
    obtain rfl := Ending.failure.inj failed
    exact ⟨Riemann.isLine_of_checkCount_eq_error refused, rfl⟩
  | interval _ refused =>
    obtain rfl := Ending.failure.inj failed
    exact ⟨Interval.isLine_of_between_eq_error refused, rfl⟩
  | first _ _ refused =>
    obtain rfl := Ending.failure.inj failed
    exact ⟨Polynomial.isLine_of_parse_eq_error refused, rfl⟩
  | second _ _ _ refused =>
    obtain rfl := Ending.failure.inj failed
    exact ⟨Polynomial.isLine_of_parse_eq_error refused, rfl⟩
  | compute checked refused =>
    obtain rfl := Ending.failure.inj failed
    exact ⟨computed_isLine checked refused, rfl⟩
  | @save _ _ _ fault =>
    obtain rfl := Ending.failure.inj failed
    exact ⟨fault.isLine_message, rfl⟩
  | saved => cases plot : task.plot <;> simp [plot] at failed
  | unnamed => cases plot : task.plot <;> simp [plot] at failed

end Task

namespace Command

variable {path text : String} {system : FileSystem} {task : Task}

/-- A task file that can be read is run as the task that it describes. -/
theorem run_of_read (input : List UInt8)
    (readable : system.read ⟨input.toArray⟩ path = .ok text.toUTF8)
    (parsed : Task.parse text = .ok task) (now : Moment) :
    run (some path) input system now =
      (((Progress.world now).runTask task).run { input, system }).swap := by
  have reads : ((Progress.world now).readFile path).run { input, system } =
      (.ok text.toUTF8, { input, system }) := by
    show (system.read ⟨input.toArray⟩ path, _) = _
    rw [readable]
  have decoded : Task.ofContent path text.toUTF8 = .ok task := by
    rw [Task.ofContent, Dialogue.fromUTF8?_eq_some_iff.mpr rfl]
    dsimp only
    rw [parsed]
    rfl
  have loads : ((Progress.world now).load path).run { input, system } =
      (.ok task, { input, system }) := by
    rw [World.load, Progress.run_bind_of_run reads]
    dsimp only
    rw [decoded]
    rfl
  rw [run, World.command]
  dsimp only
  rw [Progress.run_bind_of_run loads]

/-- Without a task file the user is asked for the task, which is then run. -/
theorem run_none (input : List UInt8) (system : FileSystem) (now : Moment) :
    run none input system now =
      match Task.dialogue.run input with
      | (printed, .error e, rest) => ({ input := rest, printed, system }, .failure (.prompt e))
      | (printed, .ok task, rest) =>
        (((Progress.world now).runTask task).run { input := rest, printed, system }).swap := by
  rcases said : Task.dialogue.run input with ⟨printed, result, rest⟩
  have asks : ((Progress.world now).converse Task.dialogue).run { input, system } =
      (result, { input := rest, printed, system }) := by
    rw [Progress.converse_eq_run, said, String.empty_append]
  rw [run, World.command]
  dsimp only
  rw [Progress.run_bind_of_run asks]
  cases result <;> rfl

theorem exit_eq (argument : Option String) (input : List UInt8) (system : FileSystem) (now : Moment)
    {p : Progress} {ending : Ending} (runs : run argument input system now = (p, ending)) :
    exit argument input system now = (p.complain ending.complaint, ending.exitCode) := by
  have ends : ((Progress.world now).command argument).run { input, system } = (ending, p) :=
    congrArg Prod.swap runs
  rw [exit, World.main, Progress.run_bind_of_run ends]
  rfl

/-- What a run of the program shows to the outside. -/
def shown (out : Progress × UInt32) : String × String × UInt32 :=
  (out.1.printed, out.1.complained, out.2)

theorem exit_eq_of_shown {argument : Option String} {input : List UInt8} {now : Moment}
    {p : Progress} {ending : Ending} {printed complained : String} {code : UInt32}
    (runs : run argument input system now = (p, ending))
    (h : shown (exit argument input system now) = (printed, complained, code)) :
    exit argument input system now = ({ p with complained }, code) ∧ p.printed = printed := by
  rw [exit_eq _ _ _ _ runs] at h ⊢
  obtain ⟨rfl, rfl, rfl⟩ : p.printed = printed ∧ p.complained ++ ending.complaint = complained ∧
      ending.exitCode = code := by
    simpa [shown, Progress.complain] using h
  exact ⟨rfl, rfl⟩

end Command

end CurveArea
