import ChainRules.Json.Parser
import ChainRules.Json.Printer

/-!
# Records in JSON

A record is an object with a field for each of its names, or an array of its values in order. In an
object the order is free, other fields are passed over, and a name may not be repeated.
-/

namespace ChainRules.Json

/-- An integer from `low` to `high`, both included. -/
def integerIn? (low high : Int) : Value → Option Int
  | .number literal => do
    let n ← integer? literal
    if low ≤ n ∧ n ≤ high then some n else none
  | _ => none

/-- A number below `bound`. -/
def natBelow? (bound : Nat) (v : Value) : Option Nat :=
  (integerIn? 0 (bound - 1) v).map Int.toNat

/-- A truth value. -/
def bool? : Value → Option Bool
  | .bool b => some b
  | _ => none

/-- A text. -/
def string? : Value → Option String
  | .string pieces => text? pieces
  | _ => none

/-- A list of things of one kind. -/
def list? {α : Type} (item : Value → Option α) : Value → Option (List α)
  | .array items => items.mapM item
  | _ => none

/-- A thing that may be absent, which is written as null. -/
def option? {α : Type} (item : Value → Option α) : Value → Option (Option α)
  | .null => some none
  | v => (item v).map some

/-- The fields of an object by name; every name must be a text. -/
def named? (fields : List (List Piece × Value)) : Option (List (String × Value)) :=
  fields.mapM fun (name, value) => (text? name).map fun name => (name, value)

/-- The value of a field, if there is one; a repeated field is refused. -/
def fieldOf? (fields : List (String × Value)) (name : String) : Option (Option Value) :=
  match fields.filter (·.1 = name) with
  | [] => some none
  | [(_, value)] => some (some value)
  | _ => none

/-- The values of a record's fields in order, `none` where one is missing. -/
def record? (names : List String) : Value → Option (List (Option Value))
  | .array items =>
    if names.length < items.length then none
    else some (items.map some ++ List.replicate (names.length - items.length) none)
  | .object fields => do
    let fields ← named? fields
    names.mapM (fieldOf? fields)
  | _ => none

/-- The values of a record's fields in order; none may be missing. -/
def fullRecord? (names : List String) (v : Value) : Option (List Value) := do
  let fields ← record? names v
  fields.mapM fun field => field

end ChainRules.Json
