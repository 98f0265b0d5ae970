import CurveArea.Task
import Mathlib.Data.List.Basic

/-!
# What makes a table a task

Ten keys decide whether a table describes a task, each by what it holds and on its own. A table
whose keys all hold what they should describes one; otherwise the first key that does not, in a
fixed order, is the one that is told of. Whatever else a table or its section `output` holds makes
no difference.
-/

namespace CurveArea

/-! ## Conditions in a fixed order -/

section Judged

variable {κ ε α β : Type} {met : κ → Prop} {fault : κ → ε}

/-- A result that comes of conditions looked at one after the other: the fault of the first one that
is not met, or a value. -/
inductive Judged (met : κ → Prop) (fault : κ → ε) : List κ → Except ε β → Prop
  | passed {value : β} : Judged met fault [] (.ok value)
  | refused {key : κ} {keys : List κ} : ¬ met key →
      Judged met fault (key :: keys) (.error (fault key))
  | next {key : κ} {keys : List κ} {result : Except ε β} : met key → Judged met fault keys result →
      Judged met fault (key :: keys) result

/-- A step that fails with a fault, but for a condition under which it gives a value. -/
def Hinges (step : Except ε α) (condition : Prop) (failure : ε) : Prop :=
  (condition ∧ ∃ value, step = .ok value) ∨ (¬ condition ∧ step = .error failure)

theorem Hinges.judged {step : Except ε α} {next : α → Except ε β} {key : κ} {keys : List κ}
    (h : Hinges step (met key) (fault key))
    (rest : ∀ value, step = .ok value → Judged met fault keys (next value)) :
    Judged met fault (key :: keys) (step >>= next) := by
  rcases h with ⟨holds, value, passed⟩ | ⟨fails, refused⟩
  · have later := rest value passed
    rw [passed]
    exact .next holds later
  · rw [refused]
    exact .refused fails

theorem Judged.exists_ok_iff {keys : List κ} {result : Except ε β}
    (h : Judged met fault keys result) :
    (∃ value, result = .ok value) ↔ ∀ key ∈ keys, met key := by
  induction h with
  | passed => exact iff_of_true ⟨_, rfl⟩ nofun
  | refused fails =>
    refine iff_of_false nofun fun all => fails (all _ List.mem_cons_self)
  | next holds _ ih => rw [ih, List.forall_mem_cons, and_iff_right holds]

/-- The fault is that of the first condition that is not met. -/
theorem Judged.error_iff {keys : List κ} {result : Except ε β} (h : Judged met fault keys result)
    (e : ε) :
    result = .error e ↔ ∃ front key back, keys = front ++ key :: back ∧ (∀ k ∈ front, met k) ∧
      ¬ met key ∧ e = fault key := by
  induction h with
  | passed =>
    refine iff_of_false nofun ?_
    rintro ⟨front, key, back, split, -⟩
    cases front <;> cases split
  | @refused key keys fails =>
    constructor
    · rintro ⟨⟩
      exact ⟨[], key, keys, rfl, nofun, fails, rfl⟩
    · rintro ⟨front, other, back, split, before, -, rfl⟩
      cases front with
      | nil =>
        cases split
        rfl
      | cons first front =>
        cases split
        exact absurd (before _ List.mem_cons_self) fails
  | @next key keys _ holds _ ih =>
    rw [ih]
    constructor
    · rintro ⟨front, other, back, rfl, before, fails, told⟩
      exact ⟨key :: front, other, back, rfl, List.forall_mem_cons.mpr ⟨holds, before⟩, fails, told⟩
    · rintro ⟨front, other, back, split, before, fails, told⟩
      cases front with
      | nil =>
        cases split
        exact absurd holds fails
      | cons first front =>
        cases split
        exact ⟨front, other, back, rfl, (List.forall_mem_cons.mp before).2, fails, told⟩

end Judged

/-! ## The keys of a task -/

open Toml (Table Value)

/-- Whether a value is of an expected kind; a whole number is a number too. -/
def Expected.Admits : Expected → Value → Prop
  | text, value => ∃ word, value = .string word
  | number, value => (∃ x, value = .float x) ∨ ∃ n, value = .integer n
  | wholeNumber, value => ∃ n, value = .integer n
  | truth, value => ∃ b, value = .boolean b

namespace Task

/-- What a table is asked for. -/
inductive Key
  | output
  | level
  | journal
  | f1
  | f2
  | a
  | b
  | n
  | plot
  | csv
  deriving DecidableEq, Repr

/-- The entries of the section `output`, if the table has one. -/
def outputEntries (table : Table) : Table :=
  match table.get? "output" with
  | some (.table entries) => entries
  | _ => []

namespace Key

/-- The order in which the keys are looked at. -/
def order : List Key := [output, level, journal, f1, f2, a, b, n, plot, csv]

theorem mem_order (key : Key) : key ∈ order := by cases key <;> decide

/-- What a table holds for a key. -/
def value? (table : Table) : Key → Option Value
  | output => table.get? "output"
  | level => (outputEntries table).get? "loglevel"
  | journal => (outputEntries table).get? "log_file"
  | f1 => table.get? "f1"
  | f2 => table.get? "f2"
  | a => table.get? "a"
  | b => table.get? "b"
  | n => table.get? "n"
  | plot => (outputEntries table).get? "plot"
  | csv => (outputEntries table).get? "csv"

/-- What may stand for a key. The curves, the bounds and the number of rectangles have to be there;
the rest may be left out. -/
def Admits : Key → Option Value → Prop
  | output, found => ∀ value ∈ found, ∃ entries, value = .table entries
  | level, found => ∀ value ∈ found, ∃ word named, value = .string word ∧
      LogLevel.ofWord? word = some named
  | journal, found => ∀ value ∈ found, Expected.truth.Admits value
  | f1, found | f2, found => ∃ value ∈ found, Expected.text.Admits value
  | a, found | b, found => ∃ value ∈ found, Expected.number.Admits value
  | n, found => ∃ value ∈ found, Expected.wholeNumber.Admits value
  | plot, found | csv, found => ∀ value ∈ found, Expected.text.Admits value

/-- The fault of a key that has to be there: it is absent, or of another kind. -/
def requiredFault (name : String) (expected : Expected) (found : Option Value) : TaskError :=
  if found.isNone then .missing name else .mistyped name expected

/-- The fault that a key is told of with. -/
def fault : Key → Option Value → TaskError
  | output, _ => .outputNotSection
  | level, some (.string word) => .unknownLevel word
  | level, _ => .mistyped "output.loglevel" .text
  | journal, _ => .mistyped "output.log_file" .truth
  | f1, found => requiredFault "f1" .text found
  | f2, found => requiredFault "f2" .text found
  | a, found => requiredFault "a" .number found
  | b, found => requiredFault "b" .number found
  | n, found => requiredFault "n" .wholeNumber found
  | plot, _ => .mistyped "output.plot" .text
  | csv, _ => .mistyped "output.csv" .text

/-- What a key is told of with, word by word. -/
def message : Key → Option Value → String
  | output, _ => "'output' must be a section"
  | level, some (.string word) =>
    "unknown loglevel '" ++ word ++ "', use off, error, warn, info or debug"
  | level, _ => "key 'output.loglevel' must be a string"
  | journal, _ => "key 'output.log_file' must be true or false"
  | f1, none => "missing key 'f1' in task file"
  | f1, some _ => "key 'f1' must be a string"
  | f2, none => "missing key 'f2' in task file"
  | f2, some _ => "key 'f2' must be a string"
  | a, none => "missing key 'a' in task file"
  | a, some _ => "key 'a' must be a number"
  | b, none => "missing key 'b' in task file"
  | b, some _ => "key 'b' must be a number"
  | n, none => "missing key 'n' in task file"
  | n, some _ => "key 'n' must be an integer"
  | plot, _ => "key 'output.plot' must be a string"
  | csv, _ => "key 'output.csv' must be a string"

theorem message_fault (key : Key) (found : Option Value) :
    (key.fault found).message = key.message found := by
  rcases found with _ | value
  · cases key <;> rfl
  · cases key with
    | level => cases value <;> rfl
    | _ => rfl

/-- A table holds for a key what may stand for it. -/
def Met (key : Key) (table : Table) : Prop := key.Admits (key.value? table)

end Key

/-- Two tables with the same in every key. Of the section itself it only counts whether it may
stand; what it holds counts under its own keys. -/
structure Alike (table other : Table) : Prop where
  stands_iff : Key.output.Met table ↔ Key.output.Met other
  same : ∀ key : Key, key ≠ .output → key.value? table = key.value? other

/-! ## The checks -/

variable (table : Table) (name : String)

theorem hinges_outputSection :
    Hinges (outputSection table) (Key.output.Met table) .outputNotSection := by
  rw [outputSection, Key.Met, Key.value?]
  cases table.get? "output" with
  | none => simp [Hinges, Key.Admits]
  | some value => cases value <;> simp [Hinges, Key.Admits]

/-- The section that is found is the one whose entries count. -/
theorem outputSection_eq {output : Table} (found : outputSection table = .ok output) :
    output = outputEntries table := by
  rw [outputSection] at found
  rw [outputEntries]
  split at found
  · next absent =>
    cases found
    rw [absent]
  · next entries present =>
    cases found
    rw [present]
  · cases found

theorem hinges_outputLevel :
    Hinges (outputLevel table) (Key.level.Admits (table.get? "loglevel"))
      (Key.level.fault (table.get? "loglevel")) := by
  rw [outputLevel]
  cases table.get? "loglevel" with
  | none => simp [Hinges, Key.Admits]
  | some value =>
    cases value with
    | string word =>
      cases named : LogLevel.ofWord? word <;> simp [Hinges, Key.Admits, Key.fault, named]
    | _ => simp [Hinges, Key.Admits, Key.fault]

theorem hinges_outputJournal :
    Hinges (outputJournal table) (Key.journal.Admits (table.get? "log_file"))
      (Key.journal.fault (table.get? "log_file")) := by
  rw [outputJournal]
  cases table.get? "log_file" with
  | none => simp [Hinges, Key.Admits]
  | some value => cases value <;> simp [Hinges, Key.Admits, Key.fault, Expected.Admits]

theorem hinges_outputPath :
    Hinges (outputPath table name) (∀ value ∈ table.get? name, Expected.text.Admits value)
      (.mistyped ("output." ++ name) .text) := by
  rw [outputPath]
  cases table.get? name with
  | none => simp [Hinges]
  | some value => cases value <;> simp [Hinges, Expected.Admits]

/-- A key that has to be there, looked at by the kind of its value. -/
theorem hinges_required {α : Type} {check : Value → Except TaskError α} {expected : Expected}
    (h : ∀ value, Hinges (check value) (expected.Admits value) (.mistyped name expected)) :
    Hinges (required table name >>= check) (∃ value ∈ table.get? name, expected.Admits value)
      (Key.requiredFault name expected (table.get? name)) := by
  rw [required]
  cases table.get? name with
  | none => simp [Hinges, Key.requiredFault, bind, Except.bind]
  | some value => simpa [Key.requiredFault, bind, Except.bind] using h value

theorem hinges_requiredText :
    Hinges (requiredText table name) (∃ value ∈ table.get? name, Expected.text.Admits value)
      (Key.requiredFault name .text (table.get? name)) :=
  hinges_required table name fun value => by cases value <;> simp [Hinges, Expected.Admits]

theorem hinges_requiredNumber :
    Hinges (requiredNumber table name) (∃ value ∈ table.get? name, Expected.number.Admits value)
      (Key.requiredFault name .number (table.get? name)) :=
  hinges_required table name fun value => by cases value <;> simp [Hinges, Expected.Admits]

theorem hinges_requiredInt :
    Hinges (requiredInt table name) (∃ value ∈ table.get? name, Expected.wholeNumber.Admits value)
      (Key.requiredFault name .wholeNumber (table.get? name)) :=
  hinges_required table name fun value => by cases value <;> simp [Hinges, Expected.Admits]

/-- A table is looked at key by key, in the fixed order. -/
theorem judged_ofTable :
    Judged (Key.Met · table) (fun key => key.fault (key.value? table)) Key.order
      (ofTable table) := by
  refine Hinges.judged (by exact hinges_outputSection table) fun output found => ?_
  -- from here on the section is the one whose entries count, empty if there is none
  obtain rfl := outputSection_eq table found
  refine Hinges.judged (by exact hinges_outputLevel (outputEntries table)) fun level _ => ?_
  refine Hinges.judged (by exact hinges_outputJournal (outputEntries table)) fun journal _ => ?_
  refine Hinges.judged (by exact hinges_requiredText table "f1") fun f1 _ => ?_
  refine Hinges.judged (by exact hinges_requiredText table "f2") fun f2 _ => ?_
  refine Hinges.judged (by exact hinges_requiredNumber table "a") fun a _ => ?_
  refine Hinges.judged (by exact hinges_requiredNumber table "b") fun b _ => ?_
  refine Hinges.judged (by exact hinges_requiredInt table "n") fun n _ => ?_
  refine Hinges.judged (by exact hinges_outputPath (outputEntries table) "plot") fun plot _ => ?_
  refine Hinges.judged (by exact hinges_outputPath (outputEntries table) "csv") fun csv _ => ?_
  exact .passed

variable {table} {other : Table}

/-- The section of a table that may have one, or the fault of one that may not. -/
theorem outputSection_cases (table : Table) :
    (Key.output.Met table ∧ outputSection table = .ok (outputEntries table)) ∨
    (¬ Key.output.Met table ∧ outputSection table = .error .outputNotSection) := by
  rcases hinges_outputSection table with ⟨stands, output, found⟩ | refused
  · rw [← outputSection_eq table found]
    exact .inl ⟨stands, found⟩
  · exact .inr refused

/-- Only the keys of a task are looked at. -/
theorem ofTable_congr (h : Alike table other) : ofTable other = ofTable table := by
  have level := h.same .level nofun
  have journal := h.same .journal nofun
  have f1 := h.same .f1 nofun
  have f2 := h.same .f2 nofun
  have a := h.same .a nofun
  have b := h.same .b nofun
  have n := h.same .n nofun
  have plot := h.same .plot nofun
  have csv := h.same .csv nofun
  simp only [Key.value?] at level journal f1 f2 a b n plot csv
  rcases outputSection_cases table with ⟨stands, found⟩ | ⟨fails, refused⟩
  · have found' : outputSection other = .ok (outputEntries other) := by
      rcases outputSection_cases other with ⟨-, found'⟩ | ⟨fails', -⟩
      · exact found'
      · exact absurd (h.stands_iff.mp stands) fails'
    simp only [ofTable, found, found', outputLevel, outputJournal, outputPath, requiredText,
      requiredNumber, requiredInt, required, level, journal, f1, f2, a, b, n, plot, csv, bind,
      Except.bind]
  · have refused' : outputSection other = .error .outputNotSection := by
      rcases outputSection_cases other with ⟨stands', -⟩ | ⟨-, refused'⟩
      · exact absurd (h.stands_iff.mpr stands') fails
      · exact refused'
    rw [ofTable, ofTable, refused, refused']
    rfl

theorem mapError_eq_error_iff {ε ε' β : Type} {f : ε → ε'} {result : Except ε β} {e' : ε'} :
    result.mapError f = .error e' ↔ ∃ e, result = .error e ∧ e' = f e := by
  cases result with
  | error e => simp [Except.mapError, eq_comm]
  | ok value => simp [Except.mapError]

/-- A table describes a task if and only if every key holds what may stand for it, and otherwise
the message is that of the first key, in the fixed order, that does not. It is the same for every
other table with the same in these keys, and a text is judged by the table that is read from it. -/
theorem ofTable_judges (table : Table) :
    ((∃ task, ofTable table = .ok task) ↔ ∀ key : Key, key.Met table) ∧
    (∀ message, (ofTable table).mapError TaskError.message = .error message ↔
      ∃ front key back, Key.order = front ++ key :: back ∧ (∀ k ∈ front, k.Met table) ∧
        ¬ key.Met table ∧ message = key.message (key.value? table)) ∧
    (∀ other, Alike table other → ofTable other = ofTable table) ∧
    ∀ text, Toml.Document.read? text = some table → parse text = ofTable table := by
  have judged := judged_ofTable table
  refine ⟨?_, fun message => ?_, fun other => ofTable_congr, fun text read => ?_⟩
  · rw [judged.exists_ok_iff]
    exact ⟨fun all key => all key key.mem_order, fun all key _ => all key⟩
  · rw [mapError_eq_error_iff]
    constructor
    · rintro ⟨e, failed, rfl⟩
      obtain ⟨front, key, back, split, before, fails, rfl⟩ := (judged.error_iff e).mp failed
      exact ⟨front, key, back, split, before, fails, key.message_fault _⟩
    · rintro ⟨front, key, back, split, before, fails, rfl⟩
      exact ⟨_, (judged.error_iff _).mpr ⟨front, key, back, split, before, fails, rfl⟩,
        (key.message_fault _).symm⟩
  · rw [parse, read]

/-- A further key in front of a table makes no difference. -/
theorem alike_title (value : Value) : Alike table (("title", value) :: table) :=
  ⟨Iff.rfl, fun key _ => by cases key <;> rfl⟩

/-- A table with a level has a section for it. -/
theorem output_met_of_level {value : Value} (found : Key.level.value? table = some value) :
    Key.output.Met table := by
  have inside : (outputEntries table).get? "loglevel" = some value := found
  rw [outputEntries] at inside
  split at inside
  · next entries present =>
    intro other here
    cases present.symm.trans here
    exact ⟨entries, rfl⟩
  · cases inside

/-- The word that stands for a key. -/
def word? : Option Value → Option String
  | some (.string word) => some word
  | _ => none

theorem eq_of_word? {found : Option Value} {word : String} (h : word? found = some word) :
    found = some (.string word) := by
  rw [word?.eq_def] at h
  split at h
  · cases h
    rfl
  · cases h

/-- Two files that name a level. In the one the level is unknown, the number of rectangles is
absent, and the path of the picture is a number: only the first of these faults is told of, with a
title as without. The other describes a task. -/
theorem ofTable_judges_levels :
    (∃ table : Table,
      Toml.Document.read?
        "f1 = 'x'\nf2 = '0'\na = 0\nb = 1\n[output]\nloglevel = 'loud'\nplot = 3\n" =
          some table ∧
      Key.output.Met table ∧ ¬ Key.level.Met table ∧
      ∀ title, (ofTable (("title", title) :: table)).mapError TaskError.message =
        .error "unknown loglevel 'loud', use off, error, warn, info or debug") ∧
    ∃ (table : Table) (task : Task),
      Toml.Document.read?
        ("f1 = 'x'\nf2 = '0'\na = 0\nb = 1.5\nn = 4\n[output]\nloglevel = 'Info'\n" ++
          "log_file = true\n") = some table ∧
      (∀ key : Key, key.Met table) ∧ ofTable table = .ok task ∧ task.level = .info ∧
        task.keepsJournal = true := by
  constructor
  · let text := "f1 = 'x'\nf2 = '0'\na = 0\nb = 1\n[output]\nloglevel = 'loud'\nplot = 3\n"
    have named : (Toml.Document.read? text).bind (fun table => word? (Key.level.value? table)) =
        some "loud" := by
      decide +kernel
    obtain ⟨table, read, found⟩ := Option.bind_eq_some_iff.mp named
    have loud : Key.level.value? table = some (.string "loud") := eq_of_word? found
    have stands : Key.output.Met table := output_met_of_level loud
    have unknown : ¬ Key.level.Met table := by
      intro met
      obtain ⟨word, level, same, known⟩ := met _ loud
      cases same
      have refused : LogLevel.ofWord? "loud" = none := by decide
      cases refused.symm.trans known
    obtain ⟨-, told, same, -⟩ := ofTable_judges table
    refine ⟨table, read, stands, unknown, fun title => ?_⟩
    rw [same _ (alike_title title), told]
    refine ⟨[.output], .level, _, rfl, List.forall_mem_singleton.mpr stands, unknown, ?_⟩
    rw [loud]
    rfl
  · let text := "f1 = 'x'\nf2 = '0'\na = 0\nb = 1.5\nn = 4\n[output]\nloglevel = 'Info'\n" ++
      "log_file = true\n"
    have level : (parse text).toOption.map (fun task => (task.level, task.keepsJournal)) =
        some (.info, true) := by
      decide +kernel
    have readable : (Toml.Document.read? text).isSome = true := by decide +kernel
    obtain ⟨table, read⟩ := Option.isSome_iff_exists.mp readable
    obtain ⟨accepted, -, -, parsed⟩ := ofTable_judges table
    rw [parsed text read] at level
    cases described : ofTable table with
    | error e =>
      rw [described] at level
      cases level
    | ok task =>
      rw [described] at level
      obtain ⟨info, keeps⟩ := Prod.mk.inj (Option.some.inj level)
      exact ⟨table, task, read, accepted.mp ⟨task, described⟩, described, info, keeps⟩

end Task

end CurveArea
