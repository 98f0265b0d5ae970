import CurveArea.Toml.Scan

/-!
# TOML strings

The four forms of a string: in quotes, where a backslash escapes, or in apostrophes, where nothing
does; on one line, or between three marks over several lines. Each function reads what stands behind
the opening mark and gives the content and the rest.
-/

namespace CurveArea.Toml

/-- The value of a hexadecimal digit. -/
def hexDigit? (c : Char) : Option Nat :=
  if c.isDigit then some (c.toNat - '0'.toNat)
  else if 'a' ≤ c ∧ c ≤ 'f' then some (c.toNat - 'a'.toNat + 10)
  else if 'A' ≤ c ∧ c ≤ 'F' then some (c.toNat - 'A'.toNat + 10)
  else none

/-- The character that hexadecimal digits name: any code point but a surrogate. -/
def codePoint? (digits : List Char) : Option Char := do
  let value ← digits.foldlM (fun value c => (hexDigit? c).map (16 * value + ·)) 0
  if h : value.isValidChar then some (Char.ofNatAux value h) else none

/-- The character that a backslash and one letter stand for. -/
def escaped? : Char → Option Char
  | 'b' => some '\x08'
  | 't' => some '\t'
  | 'n' => some '\n'
  | 'f' => some '\x0c'
  | 'r' => some '\r'
  | 'e' => some '\x1b'
  | '"' => some '"'
  | '\\' => some '\\'
  | _ => none

/-- Puts a character in front of the content that was read. -/
def consContent (c : Char) (read : Option (List Char × List Char)) :
    Option (List Char × List Char) :=
  read.map fun (content, rest) => (c :: content, rest)

/-- A string in quotes on one line. -/
def basicString : List Char → Option (List Char × List Char)
  | '"' :: rest => some ([], rest)
  | '\\' :: 'x' :: a :: b :: rest => do
    consContent (← codePoint? [a, b]) (basicString rest)
  | '\\' :: 'u' :: a :: b :: c :: d :: rest => do
    consContent (← codePoint? [a, b, c, d]) (basicString rest)
  | '\\' :: 'U' :: a :: b :: c :: d :: e :: f :: g :: h :: rest => do
    consContent (← codePoint? [a, b, c, d, e, f, g, h]) (basicString rest)
  | '\\' :: c :: rest => do consContent (← escaped? c) (basicString rest)
  | c :: rest => if isForbidden c then none else consContent c (basicString rest)
  | [] => none

/-- A string in apostrophes on one line. -/
def literalString : List Char → Option (List Char × List Char)
  | '\'' :: rest => some ([], rest)
  | c :: rest => if isForbidden c then none else consContent c (literalString rest)
  | [] => none

/-- What stands behind a closing triple mark: up to two more marks belong to the content. -/
def closeTriple (mark : Char) : List Char → List Char × List Char
  | c :: d :: rest =>
    if c = mark ∧ d = mark then ([mark, mark], rest)
    else if c = mark then ([mark], d :: rest)
    else ([], c :: d :: rest)
  | [c] => if c = mark then ([mark], []) else ([], [c])
  | [] => ([], [])

/-- Where a string over several lines is after a backslash: in its text, in the blanks between the
backslash and the end of the line, or in the blanks and line ends that are left out after it. -/
inductive Continuation
  | none
  | lineEnd
  | leftOut
  deriving DecidableEq

/-- Whether blanks, up to the end of the line, are all that follows. -/
def blankToLineEnd : List Char → Bool
  | '\n' :: _ => true
  | '\r' :: '\n' :: _ => true
  | c :: rest => isLineBlank c && blankToLineEnd rest
  | [] => false

/-- A string in triple quotes. -/
def basicLines : Continuation → List Char → Option (List Char × List Char)
  | .lineEnd, '\n' :: rest => basicLines .leftOut rest
  | .lineEnd, _ :: rest => basicLines .lineEnd rest
  | .leftOut, ' ' :: rest => basicLines .leftOut rest
  | .leftOut, '\t' :: rest => basicLines .leftOut rest
  | .leftOut, '\n' :: rest => basicLines .leftOut rest
  | .leftOut, '\r' :: '\n' :: rest => basicLines .leftOut rest
  | _, '"' :: '"' :: '"' :: rest => some (closeTriple '"' rest)
  | _, '\r' :: '\n' :: rest => consContent '\r' (consContent '\n' (basicLines .none rest))
  | _, '\n' :: rest => consContent '\n' (basicLines .none rest)
  | _, '\\' :: 'x' :: a :: b :: rest => do
    consContent (← codePoint? [a, b]) (basicLines .none rest)
  | _, '\\' :: 'u' :: a :: b :: c :: d :: rest => do
    consContent (← codePoint? [a, b, c, d]) (basicLines .none rest)
  | _, '\\' :: 'U' :: a :: b :: c :: d :: e :: f :: g :: h :: rest => do
    consContent (← codePoint? [a, b, c, d, e, f, g, h]) (basicLines .none rest)
  | _, '\\' :: c :: rest =>
    if blankToLineEnd (c :: rest) then
      (if c = '\n' then basicLines .leftOut rest else basicLines .lineEnd rest)
    else do consContent (← escaped? c) (basicLines .none rest)
  | _, c :: rest => if isForbidden c then none else consContent c (basicLines .none rest)
  | _, [] => none

/-- A string in triple apostrophes. -/
def literalLines : List Char → Option (List Char × List Char)
  | '\'' :: '\'' :: '\'' :: rest => some (closeTriple '\'' rest)
  | '\r' :: '\n' :: rest => consContent '\r' (consContent '\n' (literalLines rest))
  | '\n' :: rest => consContent '\n' (literalLines rest)
  | c :: rest => if isForbidden c then none else consContent c (literalLines rest)
  | [] => none

/-- A text without the line end at its start, if there is one. -/
def dropLineEnd : List Char → List Char
  | '\n' :: rest => rest
  | '\r' :: '\n' :: rest => rest
  | text => text

/-- A string of any form. -/
def anyString : List Char → Option (List Char × List Char)
  | '"' :: '"' :: '"' :: rest => basicLines .none (dropLineEnd rest)
  | '\'' :: '\'' :: '\'' :: rest => literalLines (dropLineEnd rest)
  | text => lineString text
where
  /-- A string on one line, as keys use it. -/
  lineString : List Char → Option (List Char × List Char)
    | '"' :: rest => basicString rest
    | '\'' :: rest => literalString rest
    | _ => none

end CurveArea.Toml
