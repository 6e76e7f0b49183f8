import ChainRules.Bytes

/-!
# Hexadecimal text

A byte is written as two lower-case digits, high half first; either case is read.
-/

namespace ChainRules.Text.Hex

/-- The lower-case digit of a number below sixteen. -/
def digit (n : Nat) : Char :=
  if n < 10 then Char.ofNat (48 + n) else Char.ofNat (87 + n)

/-- The value of a digit in either case. -/
def value? (c : Char) : Option Nat :=
  if '0' ≤ c ∧ c ≤ '9' then some (c.toNat - 48)
  else if 'a' ≤ c ∧ c ≤ 'f' then some (c.toNat - 87)
  else if 'A' ≤ c ∧ c ≤ 'F' then some (c.toNat - 55)
  else none

/-- The two digits of a byte. -/
def ofByte (b : UInt8) : List Char :=
  [digit (b.toNat / 16), digit (b.toNat % 16)]

/-- The digits of a byte string. -/
def encode (bs : Bytes) : String :=
  String.ofList (bs.flatMap ofByte)

/-- Reads pairs of digits; an odd digit or any other character is refused. -/
def decodeChars : List Char → Option Bytes
  | [] => some []
  | [_] => none
  | high :: low :: rest => do
    let h ← value? high
    let l ← value? low
    let bs ← decodeChars rest
    return UInt8.ofNat (16 * h + l) :: bs

/-- The bytes that a text of digits spells. -/
def decode? (text : String) : Option Bytes :=
  decodeChars text.toList

/-- A number in lower-case digits, without leading zeros. -/
def ofNat (n : Nat) : String :=
  String.ofList (Nat.toDigits 16 n)

/-- A number in lower-case digits, at least `width` of them. -/
def padded (width n : Nat) : String :=
  let digits := Nat.toDigits 16 n
  String.ofList (List.replicate (width - digits.length) '0' ++ digits)

theorem value?_digit {n : Nat} (h : n < 16) : value? (digit n) = some n := by
  have hall : ∀ m : Fin 16, value? (digit m.val) = some m.val := by decide
  exact hall ⟨n, h⟩

/-- Reading gives back what was written. -/
theorem decodeChars_encode (bs : Bytes) : decodeChars (bs.flatMap ofByte) = some bs := by
  induction bs with
  | nil => rfl
  | cons b bs ih =>
    have hb := b.toNat_lt
    have hhigh : b.toNat / 16 < 16 := by omega
    have hlow : b.toNat % 16 < 16 := Nat.mod_lt _ (by decide)
    have hsum : UInt8.ofNat (16 * (b.toNat / 16) + b.toNat % 16) = b := by
      rw [Nat.div_add_mod, UInt8.ofNat_toNat]
    rw [List.flatMap_cons, ofByte, List.cons_append, List.cons_append, List.nil_append, decodeChars,
      value?_digit hhigh, value?_digit hlow, ih]
    exact congrArg (fun x => some (x :: bs)) hsum

theorem decode?_encode (bs : Bytes) : decode? (encode bs) = some bs := by
  rw [decode?, encode, String.toList_ofList, decodeChars_encode]

end ChainRules.Text.Hex
