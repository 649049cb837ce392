import PaymentProcessing.Python.Decimal
import PaymentProcessing.Python.Float64
import PaymentProcessing.Python.Json
import PaymentProcessing.Python.Text

/-!
# Values from outside

`Value` is what the program is handed without a type: the values of JSON documents, and what the
field table of a message can carry besides (bytes, decimals, timestamps, any float).
-/

namespace Python

/-- A value of a document or of a field table. -/
inductive Value where
  | null
  | bool (b : Bool)
  | int (n : Int)
  | float (x : Float64)
  | decimal (d : Decimal)
  | str (s : String)
  | bytes (data : List UInt8)
  | bytearray (data : List UInt8)
  /-- Microseconds since the epoch. -/
  | datetime (micros : Int)
  | list (items : List Value)
  | dict (entries : List (String × Value))

mutual

/-- A document as values. -/
def Json.toValue : Json → Value
  | .null => .null
  | .bool b => .bool b
  | .int n => .int n
  | .float q => .float (.finite q)
  | .str s => .str s
  | .arr items => .list (Json.toValues items)
  | .obj entries => .dict (Json.toEntries entries)
termination_by structural v => v

def Json.toValues : List Json → List Value
  | [] => []
  | v :: rest => Json.toValue v :: Json.toValues rest
termination_by structural vs => vs

def Json.toEntries : List (String × Json) → List (String × Value)
  | [] => []
  | e :: rest => Json.toEntry e :: Json.toEntries rest
termination_by structural es => es

def Json.toEntry : String × Json → String × Value
  | (k, v) => (k, Json.toValue v)
termination_by structural e => e

end

end Python
