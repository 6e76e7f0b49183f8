import ChainRules.Digest.Algorithm
import ChainRules.Script.Number

/-!
# Instructions

What an opcode without data asks for. Instructions that only move items of the main stack are given by
what they make of its topmost items, and numeric ones by the function that they compute.
-/

namespace ChainRules.Script

/-- A stack, top item first. -/
abbrev Stack := List Item

/-- A fixed rearrangement of the topmost items of a stack. -/
inductive Rearrangement where
  | drop2
  | dup2
  | dup3
  | over2
  | rot2
  | swap2
  | drop
  | dup
  | nip
  | over1
  | rot
  | swap
  | tuck
  deriving DecidableEq

/-- The stack rearranged, if it has enough items. -/
def Rearrangement.apply? : Rearrangement → Stack → Option Stack
  | drop2, _ :: _ :: s => some s
  | dup2, b :: a :: s => some (b :: a :: b :: a :: s)
  | dup3, c :: b :: a :: s => some (c :: b :: a :: c :: b :: a :: s)
  | over2, d :: c :: b :: a :: s => some (b :: a :: d :: c :: b :: a :: s)
  | rot2, f :: e :: d :: c :: b :: a :: s => some (b :: a :: f :: e :: d :: c :: s)
  | swap2, d :: c :: b :: a :: s => some (b :: a :: d :: c :: s)
  | drop, _ :: s => some s
  | dup, a :: s => some (a :: a :: s)
  | nip, b :: _ :: s => some (b :: s)
  | over1, b :: a :: s => some (a :: b :: a :: s)
  | rot, c :: b :: a :: s => some (a :: c :: b :: s)
  | swap, b :: a :: s => some (a :: b :: s)
  | tuck, b :: a :: s => some (b :: a :: b :: s)
  | _, _ => none

/-- The number that stands for a truth value. -/
def truth (p : Bool) : Int :=
  if p then 1 else 0

/-- A function of one number. -/
inductive UnaryOp where
  | increment
  | decrement
  | negate
  | abs
  | not
  | notZero
  deriving DecidableEq

/-- The value of the function. -/
def UnaryOp.eval : UnaryOp → Int → Int
  | increment, n => n + 1
  | decrement, n => n - 1
  | negate, n => -n
  | abs, n => n.natAbs
  | not, n => truth (n = 0)
  | notZero, n => truth (n ≠ 0)

/-- A function of two numbers. -/
inductive BinaryOp where
  | add
  | sub
  | boolAnd
  | boolOr
  | equal
  | notEqual
  | less
  | greater
  | lessOrEqual
  | greaterOrEqual
  | min
  | max
  deriving DecidableEq

/-- The value of the function; the second operand is the topmost. -/
def BinaryOp.eval : BinaryOp → Int → Int → Int
  | add, a, b => a + b
  | sub, a, b => a - b
  | boolAnd, a, b => truth (a ≠ 0 && b ≠ 0)
  | boolOr, a, b => truth (a ≠ 0 || b ≠ 0)
  | equal, a, b => truth (a = b)
  | notEqual, a, b => truth (a ≠ b)
  | less, a, b => truth (a < b)
  | greater, a, b => truth (a > b)
  | lessOrEqual, a, b => truth (a ≤ b)
  | greaterOrEqual, a, b => truth (a ≥ b)
  | min, a, b => if a ≤ b then a else b
  | max, a, b => if a ≤ b then b else a

/-- What an opcode without data asks for. A flag `insist` marks the form that fails the script on false
and leaves nothing on true. -/
inductive Instruction where
  | constant (n : Int)
  | nop
  /-- Opens a conditional on the topmost item, or on its opposite. -/
  | openBranch (inverted : Bool)
  | turnBranch
  | closeBranch
  | verify
  | giveUp
  | toAlt
  | fromAlt
  | rearrange (r : Rearrangement)
  | dupIfTrue
  | depth
  | size
  | pick
  | roll
  | equal (insist : Bool)
  | unary (f : UnaryOp)
  | binary (f : BinaryOp)
  | numEqualVerify
  | within
  | hash (a : Digest.Algorithm)
  | codeSeparator
  | checkSig (insist : Bool)
  | checkMultisig (insist : Bool)
  deriving DecidableEq

/-- The instruction of an opcode without data, if it has one. -/
def Instruction.ofOpcode? (op : Opcode) : Option Instruction :=
  match op.smallInt? with
  | some n => some (.constant n)
  | none =>
    match op with
    | .opNop => some .nop
    | .opIf => some (.openBranch false)
    | .opNotIf => some (.openBranch true)
    | .opElse => some .turnBranch
    | .opEndIf => some .closeBranch
    | .opVerify => some .verify
    | .opReturn => some .giveUp
    | .opToAltStack => some .toAlt
    | .opFromAltStack => some .fromAlt
    | .op2Drop => some (.rearrange .drop2)
    | .op2Dup => some (.rearrange .dup2)
    | .op3Dup => some (.rearrange .dup3)
    | .op2Over => some (.rearrange .over2)
    | .op2Rot => some (.rearrange .rot2)
    | .op2Swap => some (.rearrange .swap2)
    | .opIfDup => some .dupIfTrue
    | .opDepth => some .depth
    | .opDrop => some (.rearrange .drop)
    | .opDup => some (.rearrange .dup)
    | .opNip => some (.rearrange .nip)
    | .opOver => some (.rearrange .over1)
    | .opPick => some .pick
    | .opRoll => some .roll
    | .opRot => some (.rearrange .rot)
    | .opSwap => some (.rearrange .swap)
    | .opTuck => some (.rearrange .tuck)
    | .opSize => some .size
    | .opEqual => some (.equal false)
    | .opEqualVerify => some (.equal true)
    | .op1Add => some (.unary .increment)
    | .op1Sub => some (.unary .decrement)
    | .opNegate => some (.unary .negate)
    | .opAbs => some (.unary .abs)
    | .opNot => some (.unary .not)
    | .op0NotEqual => some (.unary .notZero)
    | .opAdd => some (.binary .add)
    | .opSub => some (.binary .sub)
    | .opBoolAnd => some (.binary .boolAnd)
    | .opBoolOr => some (.binary .boolOr)
    | .opNumEqual => some (.binary .equal)
    | .opNumEqualVerify => some .numEqualVerify
    | .opNumNotEqual => some (.binary .notEqual)
    | .opLessThan => some (.binary .less)
    | .opGreaterThan => some (.binary .greater)
    | .opLessThanOrEqual => some (.binary .lessOrEqual)
    | .opGreaterThanOrEqual => some (.binary .greaterOrEqual)
    | .opMin => some (.binary .min)
    | .opMax => some (.binary .max)
    | .opWithin => some .within
    | .opRipemd160 => some (.hash .ripemd160)
    | .opSha1 => some (.hash .sha1)
    | .opSha256 => some (.hash .sha256)
    | .opHash160 => some (.hash .hash160)
    | .opHash256 => some (.hash .hash256)
    | .opCodeSeparator => some .codeSeparator
    | .opCheckSig => some (.checkSig false)
    | .opCheckSigVerify => some (.checkSig true)
    | .opCheckMultisig => some (.checkMultisig false)
    | .opCheckMultisigVerify => some (.checkMultisig true)
    | _ => if .opNop1 ≤ op ∧ op ≤ .opNop10 then some .nop else none

end ChainRules.Script
