import CurveArea.Toml.Number

/-!
# TOML documents

Reads a whole document into its table, or refuses it. The reading functions call each other, so each
takes a fuel that bounds the number of calls; every call but a bounded number of them reads a
character, and `Document.read?` starts with more fuel than the text can use up.
-/

namespace CurveArea.Toml

/-- The characters of a key without quotes. -/
def isBareKeyChar (c : Char) : Bool := c.isAlphanum || c = '_' || c = '-'

/-- The characters of a value without quotes and brackets: all but those that stand for something
between values. Whether a quote is one of them is seen only from what is in front of it. -/
def isBareValueChar (c : Char) : Bool :=
  !isLineBlank c && !separators.contains c
where
  separators : List Char := ['=', ',', '[', ']', '{', '}', '#', '\r', '\n']

/-- The characters that a word of such a value starts with. -/
def isWordStart (c : Char) : Bool :=
  isBareValueChar c && c ≠ '.' && c ≠ '"' && c ≠ '\''

/-- The run of characters of a value without quotes and brackets. Blanks belong to it if another
word follows them on the line. -/
def bareRun : List Char → List Char
  | [] => []
  | c :: rest =>
    if isBareValueChar c || isLineBlank c && (rest.dropWhile isLineBlank).head?.any isWordStart then
      c :: bareRun rest
    else []

/-- How deep arrays and tables in braces may be nested, and how many parts a key may have. -/
def maxDepth : Nat := 80

/-- One part of a key. -/
def keyPart : Scan String := do
  match ← Scan.rest with
  | '"' :: _ => String.ofList <$> Scan.through anyString.lineString
  | '\'' :: _ => String.ofList <$> Scan.through anyString.lineString
  | _ =>
    let part ← Scan.runOf isBareKeyChar
    if part.isEmpty then failure else return String.ofList part

/-- The parts of a key behind the first, each after a dot. -/
def keyParts : (fuel : Nat) → Scan (List String)
  | 0 => failure
  | fuel + 1 => do
    skipBlanks
    if ← Scan.accept '.' then
      skipBlanks
      let part ← keyPart
      return part :: (← keyParts fuel)
    else return []

/-- A key, with the blanks around its parts. -/
def key (fuel : Nat) : Scan (List String) := do
  skipBlanks
  let part ← keyPart
  let parts ← keyParts fuel
  if parts.length < maxDepth then return part :: parts else failure

/-- The value that a run of characters without quotes and brackets says. -/
def bareValue? (text : List Char) : Option Node :=
  if text = "true".toList then some (.leaf (.boolean true))
  else if text = "false".toList then some (.leaf (.boolean false))
  else if isMoment text then some (.leaf (.moment (String.ofList text)))
  else number? text

/-- A value without quotes and brackets. -/
def bareValue : Scan Node := Scan.through fun text =>
  let run := bareRun text
  (bareValue? run).map (·, text.drop run.length)

mutual

/-- A value, at a depth of nesting. -/
def value : (fuel : Nat) → (depth : Nat) → Scan Node
  | 0, _ => failure
  | fuel + 1, depth => do
    match ← Scan.rest with
    | '"' :: _ => (.leaf ∘ .string ∘ String.ofList) <$> Scan.through anyString
    | '\'' :: _ => (.leaf ∘ .string ∘ String.ofList) <$> Scan.through anyString
    | '[' :: rest =>
      if depth < maxDepth then
        set rest
        .items <$> items fuel (depth + 1)
      else failure
    | '{' :: rest =>
      if depth < maxDepth then
        set rest
        .fields <$> fields fuel (depth + 1) []
      else failure
    | _ => bareValue

/-- The items of an array up to its bracket. Line ends and comments may stand between them, and a
comma behind the last. -/
def items : (fuel : Nat) → (depth : Nat) → Scan (List Node)
  | 0, _ => failure
  | fuel + 1, depth => do
    skipTrivia
    if ← Scan.accept ']' then return []
    let item ← value fuel depth
    skipTrivia
    if ← Scan.accept ',' then return item :: (← items fuel depth)
    Scan.expect ']'
    return [item]

/-- The fields of a table in braces up to its brace, added to those read before. Line ends and
comments may stand around them and around the sign behind a key, and a comma behind the last. -/
def fields : (fuel : Nat) → (depth : Nat) → Entries → Scan Entries
  | 0, _, _ => failure
  | fuel + 1, depth, entries => do
    skipTrivia
    if ← Scan.accept '}' then return entries
    let path ← key fuel
    skipTrivia
    Scan.expect '='
    skipTrivia
    let field ← value fuel depth
    skipTrivia
    let entries ← (entries.insert path field : Option Entries)
    if ← Scan.accept ',' then return ← fields fuel depth entries
    Scan.expect '}'
    return entries

end

/-- What has been read of a document: its parts, and the path of the table that is open. -/
structure Draft where
  entries : Entries := []
  path : List String := []

namespace Draft

/-- Opens the table of a header. -/
def openHeader (draft : Draft) (path : List String) : Option Draft := do
  let last ← path.getLast?
  let entries ← draft.entries.update (Entries.openTable last) path.dropLast
  return { entries, path }

/-- Opens one more table of the list of a header in double brackets. -/
def appendHeader (draft : Draft) (path : List String) : Option Draft := do
  let last ← path.getLast?
  let entries ← draft.entries.update (Entries.appendTable last) path.dropLast
  return { entries, path }

/-- Adds a value to the open table. -/
def add (draft : Draft) (path : List String) (value : Node) : Option Draft := do
  let entries ← draft.entries.update (Entries.insert path value) draft.path
  return { draft with entries }

/-- Reads the rest of a document line by line. -/
def readLines : (fuel : Nat) → Draft → Scan Draft
  | 0, _ => failure
  | fuel + 1, draft => do
    skipTrivia
    match ← Scan.rest with
    | [] => return draft
    | '[' :: '[' :: rest =>
      set rest
      let path ← key fuel
      Scan.expect ']'
      Scan.expect ']'
      endLine
      readLines fuel (← (draft.appendHeader path : Option Draft))
    | '[' :: rest =>
      set rest
      let path ← key fuel
      Scan.expect ']'
      endLine
      readLines fuel (← (draft.openHeader path : Option Draft))
    | _ =>
      let path ← key fuel
      Scan.expect '='
      skipBlanks
      let v ← value fuel 0
      endLine
      readLines fuel (← (draft.add path v : Option Draft))

end Draft

/-- The table of a document. A byte order mark in front is skipped. -/
def Document.read? (text : String) : Option Table := do
  let chars := match text.toList with
    | '\uFEFF' :: rest => rest
    | chars => chars
  let (draft, _) ← Draft.readLines (2 * chars.length + 2) {} chars
  entryValues? draft.entries

end CurveArea.Toml
