import CurveArea.Dialogue
import Mathlib.Data.List.Basic
import Mathlib.Data.List.TakeWhile

/-!
# One line for each question

The five questions of a task are answered by the first five lines of the input, one line each. The
first answer that does not come, is no text, or is not of the kind that is asked for ends the
dialogue. What stands behind the last line that was taken makes no difference.
-/

namespace CurveArea

namespace Text

/-! ## Blanks at the ends -/

/-- A part of a text with nothing but blanks around it, which neither starts nor ends with one. -/
structure IsTrimmed (text inner : List Char) : Prop where
  around : ∃ front back, text = front ++ (inner ++ back) ∧
    (∀ c ∈ front, isBlank c = true) ∧ ∀ c ∈ back, isBlank c = true
  starts : ∀ c ∈ inner.head?, isBlank c = false
  ends : ∀ c ∈ inner.getLast?, isBlank c = false

theorem dropWhile_eq_self {text : List Char} (starts : ∀ c ∈ text.head?, isBlank c = false) :
    text.dropWhile isBlank = text := by
  cases text with
  | nil => rfl
  | cons c rest => exact List.dropWhile_cons_of_neg (Bool.eq_false_iff.mp (starts c rfl))

theorem trim_append (text : List Char) :
    trim text ++ ((text.dropWhile isBlank).reverse.takeWhile isBlank).reverse =
      text.dropWhile isBlank := by
  rw [trim, ← List.reverse_append, List.takeWhile_append_dropWhile, List.reverse_reverse]

theorem isTrimmed_trim (text : List Char) : IsTrimmed text (trim text) where
  around := by
    refine ⟨text.takeWhile isBlank, ((text.dropWhile isBlank).reverse.takeWhile isBlank).reverse,
      ?_, fun c => List.mem_takeWhile_imp, fun c member => ?_⟩
    · rw [trim_append, List.takeWhile_append_dropWhile]
    · exact List.mem_takeWhile_imp (List.mem_reverse.mp member)
  starts := by
    intro c first
    have starts : c ∈ (text.dropWhile isBlank).head? := by
      rw [← trim_append, List.head?_append, Option.mem_def.mp first]
      rfl
    exact not_of_head?_dropWhile c starts
  ends := by
    rw [trim, List.getLast?_reverse]
    exact not_of_head?_dropWhile

theorem IsTrimmed.eq_trim {text inner : List Char} (h : IsTrimmed text inner) :
    inner = trim text := by
  obtain ⟨front, back, rfl, before, behind⟩ := h.around
  rw [trim, List.dropWhile_append_of_pos before]
  cases inner with
  | nil =>
    rw [List.nil_append, List.dropWhile_eq_nil_iff.mpr behind]
    rfl
  | cons c rest =>
    have last : ∀ b ∈ (c :: rest).reverse.head?, isBlank b = false := by
      rw [List.head?_reverse]
      exact h.ends
    have stays : ((c :: rest) ++ back).dropWhile isBlank = (c :: rest) ++ back :=
      List.dropWhile_cons_of_neg (Bool.eq_false_iff.mp (h.starts c rfl))
    rw [stays, List.reverse_append,
      List.dropWhile_append_of_pos fun b member => behind b (List.mem_reverse.mp member),
      dropWhile_eq_self last, List.reverse_reverse]

end Text

namespace Dialogue

/-! ## Lines -/

/-- The first line of an input, and the rest. A line ends with its line feed; only at the end of the
input it may do without. -/
inductive Line : List UInt8 → List UInt8 → List UInt8 → Prop
  | closed {body rest : List UInt8} : 10 ∉ body → Line (body ++ 10 :: rest) (body ++ [10]) rest
  | last {body : List UInt8} : 10 ∉ body → body ≠ [] → Line body body []

variable {input line rest : List UInt8}

theorem splitLine_append_feed {body : List UInt8} (plain : 10 ∉ body) :
    splitLine (body ++ 10 :: rest) = (body ++ [10], rest) := by
  induction body with
  | nil => rfl
  | cons b body ih =>
    obtain ⟨first, others⟩ := List.ne_and_not_mem_of_not_mem_cons plain
    rw [List.cons_append, splitLine, if_neg first.symm, ih others]
    rfl

theorem splitLine_of_plain {body : List UInt8} (plain : 10 ∉ body) :
    splitLine body = (body, []) := by
  induction body with
  | nil => rfl
  | cons b body ih =>
    obtain ⟨first, others⟩ := List.ne_and_not_mem_of_not_mem_cons plain
    rw [splitLine, if_neg first.symm, ih others]

theorem append_of_splitLine (splits : splitLine input = (line, rest)) : line ++ rest = input := by
  induction input generalizing line with
  | nil =>
    cases splits
    rfl
  | cons b input ih =>
    rw [splitLine] at splits
    split at splits
    · cases splits
      rfl
    · cases splits
      exact congrArg (b :: ·) (ih rfl)

theorem Line.splitLine_eq (h : Line input line rest) : splitLine input = (line, rest) := by
  cases h with
  | closed plain => exact splitLine_append_feed plain
  | last plain => exact splitLine_of_plain plain

theorem Line.ne_nil (h : Line input line rest) : line ≠ [] := by
  cases h with
  | closed => exact List.append_ne_nil_of_right_ne_nil _ (List.cons_ne_nil _ _)
  | last _ some_byte => exact some_byte

theorem exists_line (some_byte : input ≠ []) : ∃ line rest, Line input line rest := by
  by_cases feed : 10 ∈ input
  · obtain ⟨body, rest, rfl, plain⟩ := List.eq_append_cons_of_mem feed
    exact ⟨body ++ [10], rest, .closed plain⟩
  · exact ⟨input, [], .last feed some_byte⟩

/-! ## What a line conveys -/

/-- A line is the UTF-8 form of a text, and conveys what is left of it without the blanks at its
ends. -/
def Conveys (line : List UInt8) (answer : String) : Prop :=
  ∃ text : String, text.toUTF8 = ⟨line.toArray⟩ ∧ Text.IsTrimmed text.toList answer.toList

variable {said : String}

theorem fromUTF8?_eq_some_iff {bytes : ByteArray} {text : String} :
    String.fromUTF8? bytes = some text ↔ text.toUTF8 = bytes := by
  rw [String.fromUTF8?]
  constructor
  · intro read
    split at read
    · cases read
      rfl
    · cases read
  · rintro rfl
    exact dif_pos text.isValidUTF8

theorem answer_of_conveys (some_byte : line ≠ []) (conveyed : Conveys line said) :
    answer line = .ok said := by
  obtain ⟨text, encoded, trimmed⟩ := conveyed
  rw [answer, if_neg (by simpa using some_byte), fromUTF8?_eq_some_iff.mpr encoded]
  dsimp only
  rw [← trimmed.eq_trim, String.ofList_toList]

theorem answer_of_not_conveys (some_byte : line ≠ []) (silent : ∀ said, ¬ Conveys line said) :
    answer line = .error .notText := by
  rw [answer, if_neg (by simpa using some_byte)]
  split
  · next text read =>
    have conveyed : Conveys line (String.ofList (Text.trim text.toList)) := by
      refine ⟨text, fromUTF8?_eq_some_iff.mp read, ?_⟩
      rw [String.toList_ofList]
      exact Text.isTrimmed_trim text.toList
    exact absurd conveyed (silent _)
  · rfl

end Dialogue

/-! ## Questions -/

/-- What the user is asked for. -/
inductive Question
  | f1
  | f2
  | a
  | b
  | n
  deriving DecidableEq, Repr

namespace Question

open Dialogue (Line Conveys)

/-- The order in which the questions are asked. -/
def order : List Question := [f1, f2, a, b, n]

/-- How a question is put. -/
def prompt : Question → String
  | f1 => Task.hint ++ "f1(x) = "
  | f2 => Task.hint ++ "f2(x) = "
  | a => "a = "
  | b => "b = "
  | n => "number of rectangles for the Riemann sum: "

/-- How questions are put one after the other. -/
def prompts (questions : List Question) : String := String.join (questions.map prompt)

theorem prompts_cons (q : Question) (qs : List Question) :
    prompts (q :: qs) = q.prompt ++ prompts qs :=
  String.join_cons

theorem prompts_singleton (q : Question) : prompts [q] = q.prompt :=
  (prompts_cons q []).trans String.append_empty

/-- What answers a question. -/
def Answer : Question → Type
  | f1 | f2 => String
  | a | b => Float
  | n => Int

/-- The number that a text is. -/
def readNumber (said : String) : Except PromptError Float :=
  match Decimal.read? said with
  | some x => .ok x
  | none => .error (.notNumber said)

/-- The whole number that a text is. -/
def readInt (said : String) : Except PromptError Int :=
  match Decimal.readInt? said with
  | some k => .ok k
  | none => .error (.notInteger said)

/-- The answer that a text is to a question. The curves are taken as they are written. -/
def read : (q : Question) → String → Except PromptError q.Answer
  | f1, said | f2, said => .ok said
  | a, said | b, said => readNumber said
  | n, said => readInt said

/-- The first line of an input answers a question. -/
def Takes (q : Question) (input : List UInt8) (answer : q.Answer) (rest : List UInt8) : Prop :=
  ∃ line said, Line input line rest ∧ Conveys line said ∧ q.read said = .ok answer

/-- The first line of an input is no answer to a question, or there is none. -/
inductive Fails (q : Question) : List UInt8 → PromptError → List UInt8 → Prop
  | ended : Fails q [] .endOfInput []
  | notText {input line rest : List UInt8} : Line input line rest → (∀ said, ¬ Conveys line said) →
      Fails q input .notText rest
  | unfit {input line rest : List UInt8} {said : String} {e : PromptError} :
      Line input line rest → Conveys line said → q.read said = .error e → Fails q input e rest

theorem takes_or_fails (q : Question) (input : List UInt8) :
    (∃ answer rest, q.Takes input answer rest) ∨ ∃ e rest, q.Fails input e rest := by
  by_cases some_byte : input = []
  · subst some_byte
    exact .inr ⟨_, _, .ended⟩
  · obtain ⟨line, rest, first⟩ := Dialogue.exists_line some_byte
    by_cases silent : ∀ said, ¬ Conveys line said
    · exact .inr ⟨_, _, .notText first silent⟩
    · obtain ⟨said, conveyed⟩ := not_forall_not.mp silent
      cases reading : q.read said with
      | ok answer => exact .inl ⟨answer, rest, line, said, first, conveyed, reading⟩
      | error e => exact .inr ⟨e, rest, .unfit first conveyed reading⟩

/-- The answers to questions. -/
def Answers : List Question → Type
  | [] => Unit
  | q :: qs => q.Answer × Answers qs

/-- The first lines of an input answer questions, one line each, and leave the rest. -/
def Answered : (qs : List Question) → List UInt8 → Answers qs → List UInt8 → Prop
  | [], input, _, rest => rest = input
  | q :: qs, input, (answer, answers), rest =>
    ∃ middle, q.Takes input answer middle ∧ Answered qs middle answers rest

/-- Questions that are answered up to one that is not. -/
def Stopped (qs : List Question) (input : List UInt8) (printed : String) (e : PromptError)
    (rest : List UInt8) : Prop :=
  ∃ front q back answers middle, qs = front ++ q :: back ∧ Answered front input answers middle ∧
    q.Fails middle e rest ∧ printed = prompts (front ++ [q])

theorem answered_or_stopped (qs : List Question) (input : List UInt8) :
    (∃ answers rest, Answered qs input answers rest) ∨
      ∃ printed e rest, Stopped qs input printed e rest := by
  induction qs generalizing input with
  | nil => exact .inl ⟨(), input, rfl⟩
  | cons q qs ih =>
    rcases q.takes_or_fails input with ⟨answer, middle, takes⟩ | ⟨e, rest, fails⟩
    · rcases ih middle with ⟨answers, rest, answered⟩ |
        ⟨printed, e, rest, front, last, back, answers, later, rfl, answered, fails, rfl⟩
      · exact .inl ⟨(answer, answers), rest, middle, takes, answered⟩
      · exact .inr ⟨_, e, rest, q :: front, last, back, (answer, answers), later, rfl,
          ⟨middle, takes, answered⟩, fails, rfl⟩
    · exact .inr ⟨_, e, rest, [], q, qs, (), input, rfl, rfl, fails, rfl⟩

end Question

namespace Dialogue

open Question (Answers Answered Stopped)

variable {β : Type}

/-- Asks for what can be read from an answer. -/
def askWith {α : Type} (prompt : String) (read : String → Except PromptError α)
    (next : α → Dialogue β) : Dialogue β :=
  ask prompt fun said =>
    match read said with
    | .ok value => next value
    | .error e => done (.error e)

/-- Asks a question. -/
def askFor (q : Question) (next : q.Answer → Dialogue β) : Dialogue β :=
  askWith q.prompt q.read next

/-- Asks questions one after the other. -/
def askAll : (qs : List Question) → (Answers qs → Dialogue β) → Dialogue β
  | [], next => next ()
  | q :: qs, next => askFor q fun answer => askAll qs fun answers => next (answer, answers)

section Run

variable {q : Question} {qs : List Question} {input line middle rest : List UInt8}
  {prompt printed said : String} {next : String → Dialogue β} {result : Except PromptError β}
  {e : PromptError}

theorem run_ask_of_error (splits : splitLine input = (line, rest))
    (refused : answer line = .error e) : (ask prompt next).run input = (prompt, .error e, rest) := by
  simp only [run, splits, refused]

theorem run_ask_of_ok (splits : splitLine input = (line, middle)) (heard : answer line = .ok said)
    (later : (next said).run middle = (printed, result, rest)) :
    (ask prompt next).run input = (prompt ++ printed, result, rest) := by
  simp only [run, splits, heard, later]

theorem run_ask_cases (splits : splitLine input = (line, middle))
    (ran : (ask prompt next).run input = (printed, result, rest)) :
    (∃ e, answer line = .error e ∧ printed = prompt ∧ result = .error e ∧ rest = middle) ∨
    ∃ said later, answer line = .ok said ∧ (next said).run middle = (later, result, rest) ∧
      printed = prompt ++ later := by
  cases heard : answer line with
  | error e =>
    cases (run_ask_of_error splits heard).symm.trans ran
    exact .inl ⟨e, rfl, rfl, rfl, rfl⟩
  | ok said =>
    rcases went : (next said).run middle with ⟨later, outcome, left⟩
    cases (run_ask_of_ok splits heard went).symm.trans ran
    exact .inr ⟨said, later, rfl, went, rfl⟩

theorem run_askFor_of_takes {next : q.Answer → Dialogue β} {answer : q.Answer}
    (takes : q.Takes input answer middle)
    (later : (next answer).run middle = (printed, result, rest)) :
    (askFor q next).run input = (q.prompt ++ printed, result, rest) := by
  obtain ⟨line, said, first, conveyed, reading⟩ := takes
  refine run_ask_of_ok first.splitLine_eq (answer_of_conveys first.ne_nil conveyed) ?_
  rw [reading]
  exact later

theorem run_askFor_of_fails {next : q.Answer → Dialogue β} (fails : q.Fails input e rest) :
    (askFor q next).run input = (q.prompt, .error e, rest) := by
  cases fails with
  | ended => rfl
  | notText first silent =>
    exact run_ask_of_error first.splitLine_eq (answer_of_not_conveys first.ne_nil silent)
  | unfit first conveyed reading =>
    rw [← Question.prompts_singleton, Question.prompts_cons]
    refine run_ask_of_ok first.splitLine_eq (answer_of_conveys first.ne_nil conveyed) ?_
    rw [reading]
    rfl

/-- Questions that are all answered are all put, and what follows gets their answers. -/
theorem run_askAll_of_answered {next : Answers qs → Dialogue β} {answers : Answers qs}
    (answered : Answered qs input answers middle)
    (later : (next answers).run middle = (printed, result, rest)) :
    (askAll qs next).run input = (Question.prompts qs ++ printed, result, rest) := by
  induction qs generalizing input with
  | nil =>
    obtain rfl : middle = input := answered
    exact later
  | cons q qs ih =>
    obtain ⟨answer, answers⟩ := answers
    obtain ⟨after, takes, others⟩ := answered
    rw [Question.prompts_cons, String.append_assoc]
    exact run_askFor_of_takes takes (ih others later)

/-- The first question that is not answered is the last one that is put. -/
theorem run_askAll_of_stopped {next : Answers qs → Dialogue β}
    (stopped : Stopped qs input printed e rest) :
    (askAll qs next).run input = (printed, .error e, rest) := by
  obtain ⟨front, q, back, answers, middle, rfl, answered, fails, rfl⟩ := stopped
  induction front generalizing input with
  | nil =>
    obtain rfl : middle = input := answered
    exact (run_askFor_of_fails fails).trans (by rw [List.nil_append, Question.prompts_singleton])
  | cons first front ih =>
    obtain ⟨answer, answers⟩ := answers
    obtain ⟨after, takes, others⟩ := answered
    have put : Question.prompts (first :: front ++ [q]) =
        first.prompt ++ Question.prompts (front ++ [q]) :=
      Question.prompts_cons ..
    rw [put]
    exact run_askFor_of_takes takes (ih answers others)

/-- What a dialogue leaves of an input is the end of it. -/
theorem suffix_of_run {d : Dialogue β} (ran : d.run input = (printed, result, rest)) :
    rest <:+ input := by
  induction d generalizing input printed with
  | done =>
    obtain ⟨-, -, rfl⟩ : _ ∧ _ ∧ input = rest := by simpa [run] using ran
    exact List.suffix_rfl
  | ask prompt next ih =>
    rcases splits : splitLine input with ⟨line, middle⟩
    have behind : middle <:+ input := ⟨line, append_of_splitLine splits⟩
    rcases run_ask_cases splits ran with ⟨e, -, -, -, rfl⟩ | ⟨said, later, -, went, -⟩
    · exact behind
    · exact (ih said went).trans behind

/-- A question that leaves all of an input has come to the end of it. -/
theorem endOfInput_of_run_ask (ran : (ask prompt next).run input = (printed, result, input)) :
    result = .error .endOfInput := by
  rcases splits : splitLine input with ⟨line, middle⟩
  have all : input <:+ middle := by
    rcases run_ask_cases splits ran with ⟨e, -, -, -, rfl⟩ | ⟨said, later, -, went, -⟩
    · exact List.suffix_rfl
    · exact suffix_of_run went
  have nothing : line = [] := by
    have whole := congrArg List.length (append_of_splitLine splits)
    rw [List.length_append] at whole
    have shorter := all.length_le
    exact List.length_eq_zero_iff.mp (by omega)
  subst nothing
  cases (run_ask_of_error splits rfl).symm.trans ran
  rfl

/-- What a dialogue leaves of an input that it read up to a line feed makes no difference. By
induction on the dialogue: each question takes a whole line of the part that was used, or the part
was empty and the question came to the end of the input. -/
theorem run_append {d : Dialogue β} {used : List UInt8}
    (ran : d.run (used ++ rest) = (printed, result, rest))
    (closed : used = [] ∨ used.getLast? = some 10) (inTime : result ≠ .error .endOfInput)
    (other : List UInt8) : d.run (used ++ other) = (printed, result, other) := by
  induction d generalizing used printed with
  | done outcome =>
    obtain ⟨rfl, rfl, whole⟩ : "" = printed ∧ outcome = result ∧ used ++ rest = rest := by
      simpa [run] using ran
    obtain rfl : used = [] := List.append_left_eq_self.mp whole
    rfl
  | ask prompt next ih =>
    rcases closed with rfl | feed
    · exact absurd (endOfInput_of_run_ask ran) inTime
    · obtain ⟨body, others, rfl, plain⟩ := List.eq_append_cons_of_mem (List.mem_of_getLast? feed)
      have later : others = [] ∨ others.getLast? = some 10 := by
        cases others with
        | nil => exact .inl rfl
        | cons b others => simpa [List.getLast?_append] using feed
      rw [List.append_assoc, List.cons_append] at ran ⊢
      -- the line up to this feed is the same whatever stands behind it
      rcases run_ask_cases (splitLine_append_feed plain) ran with
        ⟨e, refused, rfl, rfl, whole⟩ | ⟨said, printed, heard, went, rfl⟩
      · obtain rfl : others = [] := List.self_eq_append_left.mp whole
        exact run_ask_of_error (splitLine_append_feed plain) refused
      · exact run_ask_of_ok (splitLine_append_feed plain) heard (ih said went later)

end Run

end Dialogue

namespace Task

open Dialogue (askWith askAll askNumber askInt)
open Question (Answered Stopped prompts order)

/-- The task that the answers to the five questions describe. -/
def ofAnswers (f1 f2 : String) (a b : Float) (n : Int) : Task where
  f1 := f1
  f2 := f2
  a := a
  b := b
  n := n
  level := .standard
  keepsJournal := false
  plot := some defaultPlot
  csv := none

theorem askNumber_eq {β : Type} (prompt : String) (next : Float → Dialogue β) :
    askNumber prompt next = askWith prompt Question.readNumber next := by
  refine congrArg (Dialogue.ask prompt) (funext fun said => ?_)
  rw [Question.readNumber]
  cases Decimal.read? said <;> rfl

theorem askInt_eq {β : Type} (prompt : String) (next : Int → Dialogue β) :
    askInt prompt next = askWith prompt Question.readInt next := by
  refine congrArg (Dialogue.ask prompt) (funext fun said => ?_)
  rw [Question.readInt]
  cases Decimal.readInt? said <;> rfl

/-- The dialogue asks the five questions in order. -/
theorem dialogue_eq_askAll :
    dialogue = askAll order fun (f1, f2, a, b, n, ()) => .done (.ok (ofAnswers f1 f2 a b n)) := by
  rw [dialogue]
  simp only [askNumber_eq, askInt_eq]
  rfl

variable {input rest : List UInt8} {printed : String} {e : PromptError}

theorem run_dialogue_of_answered {f1 f2 : String} {a b : Float} {n : Int}
    (answered : Answered order input (f1, f2, a, b, n, ()) rest) :
    dialogue.run input = (prompts order, .ok (ofAnswers f1 f2 a b n), rest) := by
  rw [dialogue_eq_askAll, ← String.append_empty (s := prompts order)]
  exact Dialogue.run_askAll_of_answered answered rfl

theorem run_dialogue_of_stopped (stopped : Stopped order input printed e rest) :
    dialogue.run input = (printed, .error e, rest) := by
  rw [dialogue_eq_askAll]
  exact Dialogue.run_askAll_of_stopped stopped

theorem run_dialogue_cases (input : List UInt8) :
    (∃ f1 f2 a b n rest, Answered order input (f1, f2, a, b, n, ()) rest ∧
      dialogue.run input = (prompts order, .ok (ofAnswers f1 f2 a b n), rest)) ∨
    ∃ printed e rest, Stopped order input printed e rest ∧
      dialogue.run input = (printed, .error e, rest) := by
  rcases Question.answered_or_stopped order input with
    ⟨⟨f1, f2, a, b, n, ⟨⟩⟩, rest, answered⟩ | ⟨printed, e, rest, stopped⟩
  · exact .inl ⟨f1, f2, a, b, n, rest, answered, run_dialogue_of_answered answered⟩
  · exact .inr ⟨printed, e, rest, stopped, run_dialogue_of_stopped stopped⟩

/-- The five questions are answered by the first five lines of the input, one line each. They give a
task if and only if each of these lines is there and answers its question: the curves as they are
written, numbers for the bounds, and a whole number of rectangles. Otherwise the dialogue ends with
the first question that is not answered. What stands behind the last line that was taken is left,
and the outcome is the same whatever stands there, unless the end of the input was come to. -/
theorem dialogue_takes_lines (input : List UInt8) :
    (∀ printed task rest, dialogue.run input = (printed, .ok task, rest) ↔
      printed = prompts order ∧ ∃ f1 f2 a b n,
        Answered order input (f1, f2, a, b, n, ()) rest ∧ task = ofAnswers f1 f2 a b n) ∧
    (∀ printed e rest, dialogue.run input = (printed, .error e, rest) ↔
      Stopped order input printed e rest) ∧
    ∀ printed result rest, dialogue.run input = (printed, result, rest) →
      ∃ used, input = used ++ rest ∧
        (used.getLast? = some 10 → result ≠ .error .endOfInput →
          ∀ other, dialogue.run (used ++ other) = (printed, result, other)) := by
  refine ⟨fun printed task rest => ⟨fun ran => ?_, ?_⟩,
    fun printed e rest => ⟨fun ran => ?_, run_dialogue_of_stopped⟩,
    fun printed result rest ran => ?_⟩
  · rcases run_dialogue_cases input with
      ⟨f1, f2, a, b, n, left, answered, went⟩ | ⟨_, _, _, _, went⟩
    · cases went.symm.trans ran
      exact ⟨rfl, f1, f2, a, b, n, answered, rfl⟩
    · cases went.symm.trans ran
  · rintro ⟨rfl, f1, f2, a, b, n, answered, rfl⟩
    exact run_dialogue_of_answered answered
  · rcases run_dialogue_cases input with ⟨_, _, _, _, _, _, _, went⟩ | ⟨_, _, _, stopped, went⟩
    · cases went.symm.trans ran
    · cases went.symm.trans ran
      exact stopped
  · obtain ⟨used, whole⟩ := Dialogue.suffix_of_run ran
    refine ⟨used, whole.symm, fun closed inTime other => ?_⟩
    rw [← whole] at ran
    exact Dialogue.run_append ran (.inr closed) inTime other

/-- Two inputs whose second line is empty, which is an answer. In the one the third line is no number,
and the dialogue ends there. In the other one all five questions are answered, with blanks around the
first curve and a negative number of rectangles. The byte behind the lines is no text, but it is not
come to. -/
theorem dialogue_takes_lines_zero :
    (∃ used : List UInt8, used = "x\r\n\nzero\n".toUTF8.data.toList ∧
      Stopped order (used ++ [255]) (prompts [.f1, .f2, .a]) (.notNumber "zero") [255] ∧
      ∀ other, dialogue.run (used ++ other) =
        (prompts [.f1, .f2, .a], .error (.notNumber "zero"), other)) ∧
    ∃ used : List UInt8, used = " x^2 \r\n\n-1.5\n2e0\n-3\n".toUTF8.data.toList ∧
      Answered order (used ++ [255]) ("x^2", "", (-1.5 : Float), (2.0 : Float), (-3 : Int), ())
        [255] ∧
      ∀ other, dialogue.run (used ++ other) =
        (prompts order, .ok (ofAnswers "x^2" "" (-1.5) 2.0 (-3)), other) := by
  constructor
  · let used := "x\r\n\nzero\n".toUTF8.data.toList
    have said : ((dialogue.run (used ++ [255])).1, (dialogue.run (used ++ [255])).2.2,
        match (dialogue.run (used ++ [255])).2.1 with | .ok _ => none | .error e => some e) =
        (prompts [.f1, .f2, .a], [255], some (.notNumber "zero")) := by
      decide +kernel
    obtain ⟨-, stopped, ahead⟩ := dialogue_takes_lines (used ++ [255])
    rcases ran : dialogue.run (used ++ [255]) with ⟨printed, e | task, rest⟩
    · rw [ran] at said
      simp only [Prod.mk.injEq, Option.some.injEq] at said
      obtain ⟨rfl, rfl, rfl⟩ := said
      obtain ⟨start, whole, same⟩ := ahead _ _ _ ran
      obtain rfl := List.append_cancel_right whole
      exact ⟨used, rfl, (stopped _ _ _).mp ran, same (by decide +kernel) nofun⟩
    · rw [ran] at said
      simp only [Prod.mk.injEq, reduceCtorEq, and_false] at said
  · let used := " x^2 \r\n\n-1.5\n2e0\n-3\n".toUTF8.data.toList
    have heard : ((dialogue.run (used ++ [255])).2.2,
        match (dialogue.run (used ++ [255])).2.1 with
        | .ok task => some (task.f1, task.f2, task.a, task.b, task.n)
        | .error _ => none) = ([255], some ("x^2", "", -1.5, 2.0, -3)) := by
      decide +kernel
    obtain ⟨accepted, -, ahead⟩ := dialogue_takes_lines (used ++ [255])
    rcases ran : dialogue.run (used ++ [255]) with ⟨printed, e | task, rest⟩
    · rw [ran] at heard
      simp only [Prod.mk.injEq, reduceCtorEq, and_false] at heard
    · obtain ⟨rfl, f1, f2, a, b, n, answered, rfl⟩ := (accepted _ _ _).mp ran
      rw [ran] at heard
      simp only [ofAnswers, Prod.mk.injEq, Option.some.injEq] at heard
      obtain ⟨rfl, rfl, rfl, rfl, rfl, rfl⟩ := heard
      obtain ⟨start, whole, same⟩ := ahead _ _ _ ran
      obtain rfl := List.append_cancel_right whole
      exact ⟨used, rfl, answered, same (by decide +kernel) nofun⟩

end Task

end CurveArea
