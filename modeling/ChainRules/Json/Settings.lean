import ChainRules.Chain.Settings
import ChainRules.Json.Ledger

/-!
# Settings in JSON

A field that is missing has its standard value, and a height lead of null stands for none.
-/

namespace ChainRules.Chain.Settings

open Json

/-- The names of the fields. -/
def fieldNames : List String := ["max_height_lead", "parallel_scripts", "max_block_size"]

/-- A field that has a standard value if it is missing. -/
def orStandard {α : Type} (standard : α) (item : Value → Option α) : Option Value → Option α
  | none => some standard
  | some v => item v

/-- The settings that a value stands for. -/
def ofJson? (v : Value) : Option Settings := do
  let [lead, parallel, size] ← record? fieldNames v | none
  return {
    maxHeightLead := ← orStandard standard.maxHeightLead (option? (natBelow? 0x10000000000000000)) lead
    parallelScripts := ← orStandard standard.parallelScripts bool? parallel
    maxBlockSize := ← orStandard standard.maxBlockSize (natBelow? 0x10000000000000000) size }

/-- The settings as a value. -/
def toJson (s : Settings) : Value :=
  let lead : Value := match s.maxHeightLead with
    | some lead => .ofInt lead
    | none => .null
  recordOf fieldNames [lead, .bool s.parallelScripts, .ofInt s.maxBlockSize]

/-- The settings that a text stands for; they must admit some block. -/
def load (text : String) : Except Fault Settings := do
  (← read? ofJson? text).check

/-- The settings as a text. -/
def save (s : Settings) : String :=
  s.toJson.pretty

end ChainRules.Chain.Settings
