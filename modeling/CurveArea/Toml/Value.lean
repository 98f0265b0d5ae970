/-!
# TOML values

The values that a TOML document holds. A table is an association list without repeated keys.
-/

namespace CurveArea.Toml

/-- A value of a document. Dates and times are kept as they are written. -/
inductive Value
  | string (text : String)
  | integer (n : Int)
  | float (x : Float)
  | boolean (b : Bool)
  | moment (text : String)
  | array (items : List Value)
  | table (entries : List (String × Value))

/-- A table: its keys with their values. -/
abbrev Table := List (String × Value)

/-- The value of a key. -/
def Table.get? (table : Table) (key : String) : Option Value := table.lookup key

end CurveArea.Toml
