/-!
# Blank characters

The characters with the property White_Space. They may stand anywhere in the text of a polynomial
and around an answer to a prompt, and are dropped. The zero-width characters are not among them.
-/

namespace CurveArea.Text

/-- The ranges of code points with the property White_Space, ends included. -/
def blankRanges : List (Nat × Nat) :=
  [(0x09, 0x0D), (0x20, 0x20), (0x85, 0x85), (0xA0, 0xA0), (0x1680, 0x1680), (0x2000, 0x200A),
    (0x2028, 0x2029), (0x202F, 0x202F), (0x205F, 0x205F), (0x3000, 0x3000)]

/-- Whether a character is blank. -/
def isBlank (c : Char) : Bool :=
  blankRanges.any fun range => range.1 ≤ c.toNat && c.toNat ≤ range.2

/-- A text without its blank characters. -/
def compact (text : List Char) : List Char := text.filter fun c => !isBlank c

theorem compact_append (front back : List Char) :
    compact (front ++ back) = compact front ++ compact back :=
  List.filter_append ..

/-- A text without the blank characters at its ends. -/
def trim (text : List Char) : List Char :=
  ((text.dropWhile isBlank).reverse.dropWhile isBlank).reverse

theorem not_of_head?_dropWhile {p : Char → Bool} {text : List Char} :
    ∀ c ∈ (text.dropWhile p).head?, p c = false := by
  intro c member
  have outside := List.head?_dropWhile_not p text
  rw [member] at outside
  exact outside

end CurveArea.Text
