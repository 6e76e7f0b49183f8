import ChainRules.Text.Hex

/-!
# JSON values

A value is kept as it is written: a number by its characters, and a string by its characters and
escaped UTF-16 units. What a number or a string stands for is read off later, where it matters, so a
value that no one asks about may hold a number out of every range or half of a surrogate pair.
-/

namespace ChainRules.Json

/-- A piece of a string: a character, or a UTF-16 unit that was written as an escape. -/
inductive Piece where
  | char (c : Char)
  | unit (n : Nat)
  deriving DecidableEq

/-- A JSON value. -/
inductive Value where
  | null
  | bool (b : Bool)
  | number (literal : List Char)
  | string (pieces : List Piece)
  | array (items : List Value)
  | object (fields : List (List Piece × Value))

/-- The characters that pieces stand for; half of a surrogate pair alone stands for none. -/
def Piece.decode : List Piece → Option (List Char)
  | [] => some []
  | .char c :: rest => (decode rest).map (c :: ·)
  | .unit high :: .unit low :: rest =>
    if 0xd800 ≤ high ∧ high < 0xdc00 then
      if 0xdc00 ≤ low ∧ low < 0xe000 then
        (decode rest).map (Char.ofNat (0x10000 + (high - 0xd800) * 0x400 + (low - 0xdc00)) :: ·)
      else none
    else if 0xdc00 ≤ high ∧ high < 0xe000 then none
    else (decode (.unit low :: rest)).map (Char.ofNat high :: ·)
  | .unit n :: rest =>
    if 0xd800 ≤ n ∧ n < 0xe000 then none else (decode rest).map (Char.ofNat n :: ·)

/-- The text that pieces stand for. -/
def text? (pieces : List Piece) : Option String :=
  (Piece.decode pieces).map String.ofList

/-- The number that digits spell. -/
def digitsToNat (digits : List Char) : Nat :=
  digits.foldl (fun n c => 10 * n + (c.toNat - 48)) 0

/-- The integer that a literal spells. A fraction, an exponent or a signed zero spells none. -/
def integer? (literal : List Char) : Option Int :=
  match literal with
  | '-' :: digits =>
    if digits.all Char.isDigit && digitsToNat digits ≠ 0 then some (-(digitsToNat digits : Int))
    else none
  | digits => if digits.all Char.isDigit then some (digitsToNat digits) else none

namespace Value

/-- An integer as a value. -/
def ofInt (n : Int) : Value :=
  .number (toString n).toList

/-- A text as a value. -/
def ofText (text : String) : Value :=
  .string (text.toList.map .char)

/-- A list of named values as a value. -/
def ofFields (fields : List (String × Value)) : Value :=
  .object (fields.map fun (name, value) => (name.toList.map .char, value))

end Value

end ChainRules.Json
