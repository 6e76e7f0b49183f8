import ChainRules.Codec.Malformed
import ChainRules.Hash256

/-!
# Reading payloads

A reader takes bytes from the front of a cursor and either answers with a value or fails with a cause.
A failed primitive takes nothing; what was read before it stays taken.
-/

namespace ChainRules

/-- What is left of a payload, and how much of it was read. -/
structure Cursor where
  rest : Bytes
  offset : Nat

namespace Cursor

/-- The start of a payload. -/
def start (payload : Bytes) : Cursor :=
  ⟨payload, 0⟩

/-- How many bytes are left. -/
def remaining (c : Cursor) : Nat :=
  c.rest.length

end Cursor

/-- A reader of values from the front of a cursor. -/
abbrev Read := EStateM Malformed Cursor

namespace Read

/-- Reads exactly `n` bytes. -/
def exactly (n : Nat) (what : Primitive) : Read { bs : Bytes // bs.length = n } := fun c =>
  match h : c.rest.split? n with
  | some (front, rest) => .ok ⟨front, (Bytes.split?_eq_some_iff.1 h).2⟩ ⟨rest, c.offset + n⟩
  | none => .error (.truncated what c.offset) c

/-- Reads an integer of `width` bytes, least significant first. -/
def integer (width : Nat) (what : Primitive) : Read Nat := do
  return (← exactly width what).val.toNatLe

/-- Reads one byte. -/
def byte : Read UInt8 := do
  return UInt8.ofNat (← integer 1 .byte)

/-- Reads a 16-bit word. -/
def word16 : Read UInt16 := do
  return UInt16.ofNat (← integer 2 .word16)

/-- Reads a 32-bit word. -/
def word32 : Read UInt32 := do
  return UInt32.ofNat (← integer 4 .word32)

/-- Reads a 64-bit word. -/
def word64 : Read UInt64 := do
  return UInt64.ofNat (← integer 8 .word64)

/-- Reads an amount: a 64-bit word in two's complement. -/
def amount : Read Int64 := do
  return (← word64).toInt64

/-- Reads a hash. -/
def hash : Read Hash256 := do
  let bs ← exactly 32 .digest
  return ⟨bs.val, bs.property⟩

/-- Reads a byte string of known length. -/
def bytes (n : Nat) : Read Bytes := do
  return (← exactly n .byteVector).val

/-- Runs a reader `n` times. -/
def times {α : Type} (r : Read α) : (n : Nat) → Read (List α)
  | 0 => return []
  | n + 1 => do
    let x ← r
    let xs ← times r n
    return x :: xs

/-- Fails unless everything was read. -/
def finish : Read Unit := fun c =>
  if c.rest.isEmpty then .ok () c else .error (.trailing c.remaining c.offset) c

/-- Reads a whole payload: a value and then nothing. -/
def whole {α : Type} (r : Read α) (payload : Bytes) : Except Malformed α :=
  match r (.start payload) with
  | .error cause _ => .error cause
  | .ok value c =>
    match finish c with
    | .error cause _ => .error cause
    | .ok _ _ => .ok value

end Read

end ChainRules
