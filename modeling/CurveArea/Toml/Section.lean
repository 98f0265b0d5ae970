import CurveArea.Decimal.Literal
import CurveArea.Toml.Calendar
import CurveArea.Toml.Value

/-!
# Building a TOML document

While a document is read, a table remembers how it came about, for that decides what may still be
added to it. A header opens a table once; a table that headers of its own parts only implied may be
opened later; a table that dotted keys made may not be opened. Dotted keys put values only into
tables that dotted keys made, and may go through implied tables and through the current table of a
list to get there. What is written in brackets or braces as a value is closed for good.

A bad number and a text that has to be a moment are looked at only when the document is finished.
-/

namespace CurveArea.Toml

/-- How a table came about. -/
inductive Origin
  | header
  | implied
  | dotted
  deriving DecidableEq, Repr

/-- Whether a dotted key may go on into a table. The flag tells whether the part behind is the last,
and so names a value of the table. -/
def Origin.admits : Origin → (last : Bool) → Bool
  | .header, _ => false
  | .implied, last => !last
  | .dotted, _ => true

/-- A part of a document under construction. A list of tables that headers in double brackets open
keeps the current one apart from the earlier ones, the latest of which comes first. -/
inductive Node
  | leaf (value : Value)
  /-- A number that has no value: one out of range, or one whose digits are none. -/
  | badNumber
  /-- An array as a value. -/
  | items (nodes : List Node)
  /-- A table as a value. -/
  | fields (entries : List (String × Node))
  | table (origin : Origin) (entries : List (String × Node))
  | tables (earlier : List (List (String × Node))) (current : List (String × Node))

/-- A whole number, which has to fit 64 bits with a sign. -/
def Node.integer (n : Int) : Node :=
  if Decimal.fitsWord n then .leaf (.integer n) else .badNumber

/-- A fraction in digits, which has to be finite. -/
def Node.fraction (x : Float) : Node :=
  if x.isFinite then .leaf (.float x) else .badNumber

/-- The entries of a table under construction, in the order in which they came. -/
abbrev Entries := List (String × Node)

namespace Entries

/-- Replaces the node of a key, or adds it at the end. -/
def put (key : String) (node : Node) : Entries → Entries
  | [] => [(key, node)]
  | (k, old) :: rest => if k = key then (k, node) :: rest else (k, old) :: put key node rest

/-- Adds a node under a dotted key, which has at least one part. -/
def insert : (path : List String) → Node → Entries → Option Entries
  | [], _, _ => none
  | [key], node, entries =>
    match entries.lookup key with
    | none => some (entries.put key node)
    | some _ => none
  | key :: path, node, entries =>
    match entries.lookup key with
    | none => (insert path node []).map fun inner => entries.put key (.table .dotted inner)
    | some (.table origin inner) =>
      if origin.admits (path.length = 1) then
        (insert path node inner).map fun inner => entries.put key (.table origin inner)
      else none
    | some (.tables earlier current) =>
      if path.length = 1 then none
      else (insert path node current).map fun inner => entries.put key (.tables earlier inner)
    | some _ => none

/-- Changes the table at a path. A table on the way that does not exist is implied; of a list of
tables the current one is meant. -/
def update (change : Entries → Option Entries) : (path : List String) → Entries → Option Entries
  | [], entries => change entries
  | key :: path, entries =>
    match entries.lookup key with
    | none => (update change path []).map fun inner => entries.put key (.table .implied inner)
    | some (.table origin inner) =>
      (update change path inner).map fun inner => entries.put key (.table origin inner)
    | some (.tables earlier current) =>
      (update change path current).map fun inner => entries.put key (.tables earlier inner)
    | some _ => none

/-- Opens the table of a key. -/
def openTable (key : String) (entries : Entries) : Option Entries :=
  match entries.lookup key with
  | none => some (entries.put key (.table .header []))
  | some (.table .implied inner) => some (entries.put key (.table .header inner))
  | some _ => none

/-- Opens one more table in the list of tables of a key. -/
def appendTable (key : String) (entries : Entries) : Option Entries :=
  match entries.lookup key with
  | none => some (entries.put key (.tables [] []))
  | some (.tables earlier current) => some (entries.put key (.tables (current :: earlier) []))
  | some _ => none

/-- The key that marks a table which stands for a moment. -/
def momentKey : String := "$__toml_private_datetime"

/-- The node of the mark of a moment. The mark counts only if it is the least key of the table. -/
def moment? (entries : Entries) : Option Node :=
  if entries.all fun entry => momentKey ≤ entry.1 then entries.lookup momentKey else none

/-- The value of a table inside a document, given the table of its entries if they all have values:
a marked table is the moment that its mark names, whatever else it holds. -/
def finish (entries : Entries) (table : Option Table) : Option Value :=
  match entries.moment? with
  | none => table.map .table
  | some (.leaf (.string text)) => if isMoment text.toList then some (.moment text) else none
  | some _ => none

end Entries

mutual

/-- The value of a finished part of a document. -/
def Node.value? : Node → Option Value
  | .leaf value => some value
  | .badNumber => none
  | .items nodes => (itemValues? nodes).map .array
  | .fields entries => Entries.finish entries (entryValues? entries)
  | .table _ entries => Entries.finish entries (entryValues? entries)
  | .tables earlier current => do
    let last ← Entries.finish current (entryValues? current)
    let values ← tableValues? earlier
    return .array (values.reverse ++ [last])

/-- The values of the items of an array. -/
def itemValues? : List Node → Option (List Value)
  | [] => some []
  | node :: rest => do return (← node.value?) :: (← itemValues? rest)

/-- The table of finished entries. -/
def entryValues? : List (String × Node) → Option Table
  | [] => some []
  | (key, node) :: rest => do return (key, ← node.value?) :: (← entryValues? rest)

/-- The values of the finished tables of a list. -/
def tableValues? : List (List (String × Node)) → Option (List Value)
  | [] => some []
  | entries :: rest => do
    return (← Entries.finish entries (entryValues? entries)) :: (← tableValues? rest)

end

end CurveArea.Toml
