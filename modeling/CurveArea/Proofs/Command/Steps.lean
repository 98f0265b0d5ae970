import CurveArea.Command

/-!
# The steps of a run

What each action of a run does in the world that is a value, as an equation for what is left of the
run. A dialogue on the console is the dialogue over the text on standard input.
-/

namespace CurveArea.Progress

variable {β γ : Type} {now : Moment} {level : LogLevel} {journal : Option Sink} {atEnd : Ending}
  {rest : List Effect} {p : Progress} {path : String} {fault : FileFault} {sink : Sink}

/-- What comes after a step starts with what the step gave and left. -/
theorem run_bind_of_run {step : StateM Progress β} {next : β → StateM Progress γ} {q : Progress}
    {value : β} (ran : step.run p = (value, q)) : (step >>= next).run p = (next value).run q := by
  rw [StateT.run_bind, ran]
  rfl

theorem print_print (p : Progress) (text later : String) :
    (p.print text).print later = p.print (text ++ later) := by
  rw [print, print, print, String.append_assoc]

theorem complain_empty (p : Progress) : p.complain "" = p := by
  rw [complain, String.append_empty]

/-! ## The effects of a plan -/

theorem perform_nil : ((world now).perform level journal atEnd []).run p = (atEnd, p) := rfl

theorem perform_print (text : String) :
    ((world now).perform level journal atEnd (.print text :: rest)).run p =
      ((world now).perform level journal atEnd rest).run (p.print text) := rfl

theorem perform_draw :
    ((world now).perform level journal atEnd (.draw path :: rest)).run p = (.drawing path, p) := rfl

theorem perform_save (text : String) :
    ((world now).perform level journal atEnd (.save path text :: rest)).run p =
      match p.save path text with
      | .ok q => ((world now).perform level journal atEnd rest).run q
      | .error fault => (.failure (.unsaved fault), p) := by
  have saves : ((world now).saveFile path text).run p =
      match p.save path text with
      | .ok q => (.ok (), q)
      | .error fault => (.error fault, p) := rfl
  rw [World.perform, StateT.run_bind, saves]
  cases p.save path text <;> rfl

/-- Without a level nothing is told. -/
theorem perform_tell_off (note : Note Float) :
    ((world now).perform .off journal atEnd (.tell note :: rest)).run p =
      ((world now).perform .off journal atEnd rest).run p := by
  cases note <;> rfl

theorem perform_map_tell_off (notes : List (Note Float)) :
    ((world now).perform .off journal atEnd (notes.map .tell ++ rest)).run p =
      ((world now).perform .off journal atEnd rest).run p := by
  induction notes with
  | nil => rfl
  | cons note notes ih => exact (perform_tell_off note).trans ih

theorem perform_map_draw (plot : Option String) :
    ((world now).perform level journal .success (plot.toList.map .draw)).run p =
      (plot.elim .success .drawing, p) := by
  cases plot with
  | none => exact perform_nil
  | some path => exact perform_draw

/-! ## The questions -/

/-- The questions of a dialogue are asked on standard output, and the answers are lines of standard
input. By induction on the dialogue: what is printed and what is left after an answer is carried on
from there. -/
theorem converse_eq_run (d : Dialogue β) (p : Progress) :
    ((world now).converse d).run p =
      ((d.run p.input).2.1,
        { p with input := (d.run p.input).2.2, printed := p.printed ++ (d.run p.input).1 }) := by
  induction d generalizing p with
  | done result =>
    rw [Dialogue.run, String.append_empty]
    rfl
  | ask prompt next ih =>
    rcases splits : Dialogue.splitLine p.input with ⟨line, rest⟩
    let asked : Progress := { p.print prompt with input := rest }
    have takes : ((world now).readLine).run (p.print prompt) = (line, asked) := by
      show ((Dialogue.splitLine p.input).1,
        { p.print prompt with input := (Dialogue.splitLine p.input).2 }) = _
      rw [splits]
    have asks : ((world now).print prompt).run p = ((), p.print prompt) := rfl
    rw [World.converse, run_bind_of_run asks, run_bind_of_run takes, Dialogue.run, splits]
    dsimp only
    cases Dialogue.answer line with
    | error e => rfl
    | ok text =>
      dsimp only
      rw [ih text asked]
      show (_, Progress.mk _ (p.printed ++ prompt ++ _) _ _) = _
      rw [String.append_assoc]
      rfl

end CurveArea.Progress
