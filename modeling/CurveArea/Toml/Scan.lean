/-!
# Scanning a TOML text

A scan reads from the front of a text and either fails, which makes the whole text malformed, or
gives a result and the rest.
-/

namespace CurveArea.Toml

/-- A step of reading: the state is the text that is left. -/
abbrev Scan := StateT (List Char) Option

namespace Scan

/-- The rest of the text. -/
def rest : Scan (List Char) := get

/-- Reads one given character, if it is next; tells whether it was. -/
def accept (c : Char) : Scan Bool := do
  match ← get with
  | d :: rest => if c = d then set rest; return true else return false
  | [] => return false

/-- Reads one given character. -/
def expect (c : Char) : Scan Unit := do
  unless ← accept c do failure

/-- Reads the longest run of characters of a kind. -/
def runOf (kind : Char → Bool) : Scan (List Char) := do
  let text ← get
  set (text.dropWhile kind)
  return text.takeWhile kind

/-- Reads by a function on the text. -/
def through {β : Type} (f : List Char → Option (β × List Char)) : Scan β := do
  let (result, rest) ← f (← get)
  set rest
  return result

end Scan

/-- The blanks that may stand inside a line. -/
def isLineBlank (c : Char) : Bool := c = ' ' || c = '\t'

/-- The characters that may not stand in comments and strings: the control characters but the
tab. -/
def isForbidden (c : Char) : Bool := (c.toNat < 0x20 && c ≠ '\t') || c.toNat = 0x7F

/-- Skips the blanks of a line. -/
def skipBlanks : Scan Unit := do
  let _ ← Scan.runOf isLineBlank

/-- The text behind a comment, up to the end of its line. -/
def afterComment : List Char → Option (List Char)
  | [] => some []
  | '\n' :: rest => some ('\n' :: rest)
  | '\r' :: '\n' :: rest => some ('\n' :: rest)
  | c :: rest => if isForbidden c then none else afterComment rest

/-- The text behind blanks, line ends and comments. -/
def afterTrivia (inComment : Bool) : List Char → Option (List Char)
  | [] => some []
  | '\n' :: rest => afterTrivia false rest
  | '\r' :: '\n' :: rest => afterTrivia false rest
  | c :: rest =>
    if inComment then (if isForbidden c then none else afterTrivia true rest)
    else if c = '#' then afterTrivia true rest
    else if isLineBlank c then afterTrivia false rest
    else some (c :: rest)

/-- Skips blanks, line ends and comments. -/
def skipTrivia : Scan Unit := Scan.through fun text => (afterTrivia false text).map ((), ·)

/-- The text behind the end of a line, which blanks and a comment may precede. -/
def afterLine (text : List Char) : Option (List Char) :=
  match text.dropWhile isLineBlank with
  | '#' :: rest => (afterComment rest).bind afterLineEnd
  | rest => afterLineEnd rest
where
  afterLineEnd : List Char → Option (List Char)
    | [] => some []
    | '\n' :: rest => some rest
    | '\r' :: '\n' :: rest => some rest
    | _ => none

/-- Ends a line. -/
def endLine : Scan Unit := Scan.through fun text => (afterLine text).map ((), ·)

end CurveArea.Toml
