import ChainRules.Json.Value

/-!
# Writing JSON

The compact form has no blanks; the laid-out form puts each item and field on a line of its own, two
blanks further in than what holds it. Strings escape the quote, the backslash and control characters,
and nothing else.
-/

namespace ChainRules.Json

/-- A UTF-16 unit as an escape. -/
def escapeUnit (n : Nat) : String :=
  "\\u" ++ Text.Hex.padded 4 n

/-- A character as it stands in a string. -/
def escapeChar (c : Char) : String :=
  if c = '"' then "\\\""
  else if c = '\\' then "\\\\"
  else if c = '\x08' then "\\b"
  else if c = '\x0c' then "\\f"
  else if c = '\n' then "\\n"
  else if c = '\r' then "\\r"
  else if c = '\t' then "\\t"
  else if c.toNat < 0x20 then escapeUnit c.toNat
  else c.toString

/-- A string in quotes. -/
def quote (pieces : List Piece) : String :=
  let written := pieces.map fun piece =>
    match piece with
    | .char c => escapeChar c
    | .unit n => escapeUnit n
  "\"" ++ String.join written ++ "\""

/-- Items between an opening and a closing bracket. -/
def enclose (first last separator : String) (items : List String) : String :=
  first ++ separator.intercalate items ++ last

namespace Value

/-- The compact form. -/
def compact : Value → String
  | null => "null"
  | bool b => if b then "true" else "false"
  | number literal => String.ofList literal
  | string pieces => quote pieces
  | array items => enclose "[" "]" "," (compactItems items)
  | object fields => enclose "\x7b" "\x7d" "," (compactFields fields)
where
  /-- The compact forms of items. -/
  compactItems : List Value → List String
    | [] => []
    | item :: rest => compact item :: compactItems rest
  /-- The compact forms of fields. -/
  compactFields : List (List Piece × Value) → List String
    | [] => []
    | (name, value) :: rest => (quote name ++ ":" ++ compact value) :: compactFields rest

/-- The start of a line at a depth. -/
def newLine (depth : Nat) : String :=
  "\n" ++ String.ofList (List.replicate (2 * depth) ' ')

/-- The laid-out form, at a depth. -/
def layOut (depth : Nat) : Value → String
  | null => "null"
  | bool b => if b then "true" else "false"
  | number literal => String.ofList literal
  | string pieces => quote pieces
  | array [] => "[]"
  | array items =>
    let line := newLine (depth + 1)
    enclose ("[" ++ line) (newLine depth ++ "]") ("," ++ line) (layOutItems (depth + 1) items)
  | object [] => "\x7b\x7d"
  | object fields =>
    let line := newLine (depth + 1)
    enclose ("\x7b" ++ line) (newLine depth ++ "\x7d") ("," ++ line)
      (layOutFields (depth + 1) fields)
where
  /-- The laid-out forms of items. -/
  layOutItems (depth : Nat) : List Value → List String
    | [] => []
    | item :: rest => layOut depth item :: layOutItems depth rest
  /-- The laid-out forms of fields. -/
  layOutFields (depth : Nat) : List (List Piece × Value) → List String
    | [] => []
    | (name, value) :: rest =>
      (quote name ++ ": " ++ layOut depth value) :: layOutFields depth rest

/-- The laid-out form. -/
def pretty (value : Value) : String :=
  layOut 0 value

end Value

end ChainRules.Json
