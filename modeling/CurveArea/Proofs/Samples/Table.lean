import CurveArea.Proofs.Command.Course
import CurveArea.Proofs.Decimal.Reading

/-!
# The saved table of samples

A table is read back by cutting its text into lines and the lines at their commas. No field holds a
character that a cut could hit, because numbers are written without any, so each line falls apart
into the fields that it was made of, and each field is read as the number that it was written for.
-/

namespace CurveArea.Samples

variable {rows : List (List (List Char))} {row : List (List Char)}

/-- The characters for which a field would have to stand between quotes. -/
def marks : List Char := [',', '"', '\n', '\r']

/-- A field that holds none of the marks. -/
def IsBare (field : List Char) : Prop := ∀ c ∈ field, c ∉ marks

instance (field : List Char) : Decidable (IsBare field) :=
  decidable_of_iff (field.all (· ∉ marks) = true) (by simp [IsBare])

/-- No number is written with a mark. -/
theorem isBare_plainChars (x : Float) : IsBare (Decimal.plainChars x) := by
  have apart : marks.all (fun c => ¬ Decimal.IsPlain c) = true := by decide
  intro c member mark
  exact of_decide_eq_true (List.all_eq_true.mp apart c mark)
    (Decimal.isPlain_of_mem_plainChars member)

/-- The names of the columns. -/
def header : List (List Char) := ["x".toList, "f1(x)".toList, "f2(x)".toList]

/-- The numbers in the line of an argument. -/
def values (p q : Polynomial Float) (x : Float) : List Float := [x, p.evaluate x, q.evaluate x]

theorem csvRows_eq (p q : Polynomial Float) (i : Interval Float) (samples : Nat) :
    csvRows p q i samples =
      header :: (i.grid samples).map fun x => (values p q x).map Decimal.plainChars := rfl

theorem isBare_of_mem_csvRows {p q : Polynomial Float} {i : Interval Float} {samples : Nat}
    (member : row ∈ csvRows p q i samples) : ∀ field ∈ row, IsBare field := by
  rw [csvRows_eq] at member
  rcases List.mem_cons.mp member with rfl | line
  · decide
  · obtain ⟨x, -, rfl⟩ := List.mem_map.mp line
    intro field column
    obtain ⟨value, -, rfl⟩ := List.mem_map.mp column
    exact isBare_plainChars value

/-! ## Cutting -/

/-- Besides commas a line holds what its fields hold. -/
theorem mem_or_of_mem_intercalate {c : Char} (member : c ∈ [','].intercalate row) :
    c = ',' ∨ ∃ field ∈ row, c ∈ field := by
  induction row with
  | nil => cases member
  | cons field rest ih =>
    cases rest with
    | nil =>
      rw [List.intercalate_singleton] at member
      exact .inr ⟨field, List.mem_cons_self, member⟩
    | cons next rest =>
      rw [List.intercalate_cons_cons] at member
      rcases List.mem_append.mp member with here | later
      · rcases List.mem_append.mp here with inside | comma
        · exact .inr ⟨field, List.mem_cons_self, inside⟩
        · exact .inl (List.mem_singleton.mp comma)
      · refine (ih later).imp_right ?_
        rintro ⟨other, column, inside⟩
        exact ⟨other, List.mem_cons_of_mem field column, inside⟩

/-- Lines that are closed by a line feed and hold no other are found again, with nothing behind the
last one. -/
theorem splitOn_flatMap_csvLine (bare : ∀ row ∈ rows, ∀ field ∈ row, IsBare field) :
    (rows.flatMap csvLine).splitOn '\n' = rows.map ([','].intercalate ·) ++ [[]] := by
  induction rows with
  | nil => rfl
  | cons row rest ih =>
    have oneLine : '\n' ∉ [','].intercalate row := by
      intro feed
      rcases mem_or_of_mem_intercalate feed with comma | ⟨field, column, inside⟩
      · cases comma
      · exact bare row List.mem_cons_self field column '\n' inside (by decide)
    have later := ih fun other member => bare other (List.mem_cons_of_mem row member)
    rw [List.flatMap_cons, csvLine, List.append_assoc, List.singleton_append,
      List.splitOn_append_cons_self_of_not_mem oneLine, later]
    rfl

/-- The commas of a line stand between its fields only. -/
theorem splitOn_intercalate_of_bare (bare : ∀ field ∈ row, IsBare field) (some_field : row ≠ []) :
    ([','].intercalate row).splitOn ',' = row :=
  List.splitOn_intercalate ',' (fun field column comma => bare field column ',' comma (by decide))
    some_field

/-- A table is saved wherever a file can be created, as a line that names the columns and one line
for each argument of the grid, in order. The file at the place that the path leads to holds this
text, and it is what is read at the path from then on; only a device is written to without a file.
None of the fields would have to stand between quotes, and cutting a line at its commas gives three
fields, which are read as the argument and the values of both curves, whatever these are. -/
theorem save_csv_readable {before : Progress} {path : String} {sink : Sink}
    (creatable : before.system.sink path = .ok sink) (p q : Polynomial Float) (i : Interval Float)
    (samples : Nat) :
    ∃ after lines, before.save path (csv p q i samples) = .ok after ∧
      Progress.Written (csv p q i samples) before sink after ∧
      (∀ place, sink = .file place →
        after.system.get? place = some (.file (csv p q i samples).toUTF8 none) ∧
        ∀ input, after.system.read input path = .ok (csv p q i samples).toUTF8) ∧
      ((∀ place, sink ≠ .file place) →
        ∃ device, before.system.resolve path = .ok (.leaf (.device device) false)) ∧
      (csv p q i samples).toList.splitOn '\n' = "x,f1(x),f2(x)".toList :: lines ++ [[]] ∧
      (lines.map fun line => (line.splitOn ',').map fun field =>
          Decimal.read? (String.ofList field)) =
        ((i.grid samples).map fun x => [some x, some (p.evaluate x), some (q.evaluate x)]) ∧
      ∀ row ∈ csvRows p q i samples, ∀ field ∈ row, IsBare field := by
  refine ⟨before.write (csv p q i samples) sink, (i.grid samples).map fun x =>
    [','].intercalate ((values p q x).map Decimal.plainChars), before.save_of_sink _ creatable,
    before.written_write _ sink, ?_, FileSystem.exists_device_of_sink creatable, ?_, ?_,
    fun row => isBare_of_mem_csvRows⟩
  · rintro place rfl
    exact ⟨FileSystem.get?_write_self, fun input => FileSystem.read_write creatable input _⟩
  · rw [csv, String.toList_ofList, splitOn_flatMap_csvLine fun row => isBare_of_mem_csvRows,
      csvRows_eq, List.map_cons, List.map_map]
    rfl
  · rw [List.map_map]
    refine List.map_congr_left fun x _ => ?_
    have bare : ∀ field ∈ (values p q x).map Decimal.plainChars, IsBare field := by
      intro field column
      obtain ⟨value, -, rfl⟩ := List.mem_map.mp column
      exact isBare_plainChars value
    dsimp only [Function.comp]
    rw [splitOn_intercalate_of_bare bare (by simp [values]), List.map_map]
    exact List.map_congr_left fun value _ => Decimal.read?_plain value

/-- The curve `x^400 - x^399` and the axis from 0 to 10: at 10 the one overflows to NaN, and the
other is a negative zero throughout. The path goes through a link to a folder below the working
folder. -/
theorem save_csv_readable_overflow :
    ∃ (p : Polynomial Float) (i : Interval Float) (before after : Progress)
      (lines : List (List Char)),
      p.terms = [(399, -1.0), (400, 1.0)] ∧ i.a = 0.0 ∧ i.b = 10.0 ∧
      before.system.get? ["tmp", "run", "latest"] = some (.link "out/") ∧
      before.system.sink "latest/samples.csv" =
        .ok (.file ["tmp", "run", "out", "samples.csv"]) ∧
      before.save "latest/samples.csv" (csv p .zero i 2) = .ok after ∧
      (∀ input, after.system.read input "latest/samples.csv" =
        .ok "x,f1(x),f2(x)\n0,0,-0\n10,NaN,-0\n".toUTF8) ∧
      (lines.map fun line => (line.splitOn ',').map fun field =>
          Decimal.read? (String.ofList field)) =
        [[some 0.0, some 0.0, some (-0.0)], [some 10.0, some Float.nan, some (-0.0)]] := by
  let p : Polynomial Float := ⟨[(399, -1.0), (400, 1.0)], by simp⟩
  let i : Interval Float := ⟨0.0, 10.0, by decide +kernel⟩
  let before : Progress :=
    { system := ((Folder.system {}).put ["tmp", "run", "out"] (.folder none)).put
        ["tmp", "run", "latest"] (.link "out/") }
  have creatable : before.system.sink "latest/samples.csv" =
      .ok (.file ["tmp", "run", "out", "samples.csv"]) := by
    decide +kernel
  have sampled : ((i.grid 2).map fun x =>
      [some x, some (p.evaluate x), some (Polynomial.zero.evaluate x)]) =
      [[some 0.0, some 0.0, some (-0.0)], [some 10.0, some Float.nan, some (-0.0)]] := by
    decide +kernel
  have content : csv p .zero i 2 = "x,f1(x),f2(x)\n0,0,-0\n10,NaN,-0\n" := by decide +kernel
  obtain ⟨after, lines, saved, -, stored, -, -, read, -⟩ := save_csv_readable creatable p .zero i 2
  rw [content] at stored
  exact ⟨p, i, before, after, lines, rfl, rfl, rfl, rfl, creatable, saved, (stored _ rfl).2,
    read.trans sampled⟩

end CurveArea.Samples
