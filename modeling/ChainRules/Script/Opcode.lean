/-!
# Opcodes

The first byte of a script operation. Opcodes up to `opPushData4` push data and those up to `op16` a
small number; none of them counts towards the limit on operations.
-/

namespace ChainRules.Script

/-- The byte that says what an operation does. -/
abbrev Opcode := UInt8

/-- How the data of an operation follows its opcode. -/
inductive DataForm where
  /-- No data follows. -/
  | bare
  /-- The opcode itself says how many bytes follow. -/
  | fixed (size : Nat)
  /-- A length of `width` bytes stands before the data. -/
  | counted (width : Nat)
  deriving DecidableEq

namespace Opcode

/-! ## Opcodes by name

Of ranges of opcodes that are only treated alike the first and the last have a name here. -/

-- Opcodes that push. Up to `opPushBytes75` the opcode itself says how many bytes of data follow.
@[match_pattern] abbrev opPushBytes75 : Opcode := 0x4b
@[match_pattern] abbrev opPushData1 : Opcode := 0x4c
@[match_pattern] abbrev opPushData2 : Opcode := 0x4d
@[match_pattern] abbrev opPushData4 : Opcode := 0x4e
@[match_pattern] abbrev op1Negate : Opcode := 0x4f
@[match_pattern] abbrev opReserved : Opcode := 0x50
@[match_pattern] abbrev op1 : Opcode := 0x51
@[match_pattern] abbrev op16 : Opcode := 0x60

-- Opcodes that steer.
@[match_pattern] abbrev opNop : Opcode := 0x61
@[match_pattern] abbrev opIf : Opcode := 0x63
@[match_pattern] abbrev opNotIf : Opcode := 0x64
@[match_pattern] abbrev opVerIf : Opcode := 0x65
@[match_pattern] abbrev opVerNotIf : Opcode := 0x66
@[match_pattern] abbrev opElse : Opcode := 0x67
@[match_pattern] abbrev opEndIf : Opcode := 0x68
@[match_pattern] abbrev opVerify : Opcode := 0x69
@[match_pattern] abbrev opReturn : Opcode := 0x6a

-- Opcodes that move items.
@[match_pattern] abbrev opToAltStack : Opcode := 0x6b
@[match_pattern] abbrev opFromAltStack : Opcode := 0x6c
@[match_pattern] abbrev op2Drop : Opcode := 0x6d
@[match_pattern] abbrev op2Dup : Opcode := 0x6e
@[match_pattern] abbrev op3Dup : Opcode := 0x6f
@[match_pattern] abbrev op2Over : Opcode := 0x70
@[match_pattern] abbrev op2Rot : Opcode := 0x71
@[match_pattern] abbrev op2Swap : Opcode := 0x72
@[match_pattern] abbrev opIfDup : Opcode := 0x73
@[match_pattern] abbrev opDepth : Opcode := 0x74
@[match_pattern] abbrev opDrop : Opcode := 0x75
@[match_pattern] abbrev opDup : Opcode := 0x76
@[match_pattern] abbrev opNip : Opcode := 0x77
@[match_pattern] abbrev opOver : Opcode := 0x78
@[match_pattern] abbrev opPick : Opcode := 0x79
@[match_pattern] abbrev opRoll : Opcode := 0x7a
@[match_pattern] abbrev opRot : Opcode := 0x7b
@[match_pattern] abbrev opSwap : Opcode := 0x7c
@[match_pattern] abbrev opTuck : Opcode := 0x7d

-- Opcodes on strings and bits.
@[match_pattern] abbrev opCat : Opcode := 0x7e
@[match_pattern] abbrev opRight : Opcode := 0x81
@[match_pattern] abbrev opSize : Opcode := 0x82
@[match_pattern] abbrev opInvert : Opcode := 0x83
@[match_pattern] abbrev opXor : Opcode := 0x86
@[match_pattern] abbrev opEqual : Opcode := 0x87
@[match_pattern] abbrev opEqualVerify : Opcode := 0x88

-- Opcodes on numbers.
@[match_pattern] abbrev op1Add : Opcode := 0x8b
@[match_pattern] abbrev op1Sub : Opcode := 0x8c
@[match_pattern] abbrev op2Mul : Opcode := 0x8d
@[match_pattern] abbrev op2Div : Opcode := 0x8e
@[match_pattern] abbrev opNegate : Opcode := 0x8f
@[match_pattern] abbrev opAbs : Opcode := 0x90
@[match_pattern] abbrev opNot : Opcode := 0x91
@[match_pattern] abbrev op0NotEqual : Opcode := 0x92
@[match_pattern] abbrev opAdd : Opcode := 0x93
@[match_pattern] abbrev opSub : Opcode := 0x94
@[match_pattern] abbrev opMul : Opcode := 0x95
@[match_pattern] abbrev opRShift : Opcode := 0x99
@[match_pattern] abbrev opBoolAnd : Opcode := 0x9a
@[match_pattern] abbrev opBoolOr : Opcode := 0x9b
@[match_pattern] abbrev opNumEqual : Opcode := 0x9c
@[match_pattern] abbrev opNumEqualVerify : Opcode := 0x9d
@[match_pattern] abbrev opNumNotEqual : Opcode := 0x9e
@[match_pattern] abbrev opLessThan : Opcode := 0x9f
@[match_pattern] abbrev opGreaterThan : Opcode := 0xa0
@[match_pattern] abbrev opLessThanOrEqual : Opcode := 0xa1
@[match_pattern] abbrev opGreaterThanOrEqual : Opcode := 0xa2
@[match_pattern] abbrev opMin : Opcode := 0xa3
@[match_pattern] abbrev opMax : Opcode := 0xa4
@[match_pattern] abbrev opWithin : Opcode := 0xa5

-- Opcodes that hash and that check signatures.
@[match_pattern] abbrev opRipemd160 : Opcode := 0xa6
@[match_pattern] abbrev opSha1 : Opcode := 0xa7
@[match_pattern] abbrev opSha256 : Opcode := 0xa8
@[match_pattern] abbrev opHash160 : Opcode := 0xa9
@[match_pattern] abbrev opHash256 : Opcode := 0xaa
@[match_pattern] abbrev opCodeSeparator : Opcode := 0xab
@[match_pattern] abbrev opCheckSig : Opcode := 0xac
@[match_pattern] abbrev opCheckSigVerify : Opcode := 0xad
@[match_pattern] abbrev opCheckMultisig : Opcode := 0xae
@[match_pattern] abbrev opCheckMultisigVerify : Opcode := 0xaf

-- Opcodes that do nothing.
@[match_pattern] abbrev opNop1 : Opcode := 0xb0
@[match_pattern] abbrev opNop10 : Opcode := 0xb9

/-! ## Kinds of opcodes -/

/-- How the data of an operation follows the opcode. -/
def dataForm (op : Opcode) : DataForm :=
  if op ≤ opPushBytes75 then .fixed op.toNat
  else if op = opPushData1 then .counted 1
  else if op = opPushData2 then .counted 2
  else if op = opPushData4 then .counted 4
  else .bare

/-- Whether the opcode only pushes. -/
def isPush (op : Opcode) : Bool :=
  op ≤ op16 && op ≠ opReserved

/-- Whether the operation counts towards the limit on operations. -/
def isCounted (op : Opcode) : Bool :=
  op16 < op

/-- Whether the opcode fails a script even where it is not executed: the withdrawn string, bit and
multiplicative operations. -/
def isDisabled (op : Opcode) : Bool :=
  (opCat ≤ op && op ≤ opRight) || (opInvert ≤ op && op ≤ opXor) || op = op2Mul || op = op2Div ||
    (opMul ≤ op && op ≤ opRShift)

/-- Whether the opcode opens, turns or closes a conditional. -/
def isConditional (op : Opcode) : Bool :=
  op = opIf || op = opNotIf || op = opElse || op = opEndIf

/-- Whether the opcode fails a script even where it is not executed, for want of a meaning: the two
withdrawn conditionals. -/
def isForbiddenBranch (op : Opcode) : Bool :=
  op = opVerIf || op = opVerNotIf

/-- The number that the opcode pushes by itself. -/
def smallInt? (op : Opcode) : Option Int :=
  if op = op1Negate then some (-1)
  else if op1 ≤ op ∧ op ≤ op16 then some (op.toNat - op1.toNat + 1)
  else none

/-- The names of the opcodes from `opPushData1` to `opNop10`, in order. -/
def names : List String :=
  ["OP_PUSHDATA1", "OP_PUSHDATA2", "OP_PUSHDATA4", "OP_1NEGATE", "OP_RESERVED",
   "OP_1", "OP_2", "OP_3", "OP_4", "OP_5", "OP_6", "OP_7", "OP_8", "OP_9", "OP_10", "OP_11", "OP_12",
   "OP_13", "OP_14", "OP_15", "OP_16",
   "OP_NOP", "OP_VER", "OP_IF", "OP_NOTIF", "OP_VERIF", "OP_VERNOTIF", "OP_ELSE", "OP_ENDIF",
   "OP_VERIFY", "OP_RETURN",
   "OP_TOALTSTACK", "OP_FROMALTSTACK", "OP_2DROP", "OP_2DUP", "OP_3DUP", "OP_2OVER", "OP_2ROT",
   "OP_2SWAP", "OP_IFDUP", "OP_DEPTH", "OP_DROP", "OP_DUP", "OP_NIP", "OP_OVER", "OP_PICK", "OP_ROLL",
   "OP_ROT", "OP_SWAP", "OP_TUCK",
   "OP_CAT", "OP_SUBSTR", "OP_LEFT", "OP_RIGHT", "OP_SIZE",
   "OP_INVERT", "OP_AND", "OP_OR", "OP_XOR", "OP_EQUAL", "OP_EQUALVERIFY", "OP_RESERVED1",
   "OP_RESERVED2",
   "OP_1ADD", "OP_1SUB", "OP_2MUL", "OP_2DIV", "OP_NEGATE", "OP_ABS", "OP_NOT", "OP_0NOTEQUAL",
   "OP_ADD", "OP_SUB", "OP_MUL", "OP_DIV", "OP_MOD", "OP_LSHIFT", "OP_RSHIFT", "OP_BOOLAND",
   "OP_BOOLOR", "OP_NUMEQUAL", "OP_NUMEQUALVERIFY", "OP_NUMNOTEQUAL", "OP_LESSTHAN",
   "OP_GREATERTHAN", "OP_LESSTHANOREQUAL", "OP_GREATERTHANOREQUAL", "OP_MIN", "OP_MAX", "OP_WITHIN",
   "OP_RIPEMD160", "OP_SHA1", "OP_SHA256", "OP_HASH160", "OP_HASH256", "OP_CODESEPARATOR",
   "OP_CHECKSIG", "OP_CHECKSIGVERIFY", "OP_CHECKMULTISIG", "OP_CHECKMULTISIGVERIFY",
   "OP_NOP1", "OP_NOP2", "OP_NOP3", "OP_NOP4", "OP_NOP5", "OP_NOP6", "OP_NOP7", "OP_NOP8", "OP_NOP9",
   "OP_NOP10"]

/-- The name of an opcode in diagnostics. -/
def name (op : Opcode) : String :=
  if op = 0 then "OP_0"
  else if op ≤ opPushBytes75 then "OP_PUSHBYTES"
  else (names[op.toNat - opPushData1.toNat]?).getD "OP_INVALIDOPCODE"

theorem length_names : names.length = opNop10.toNat - opPushData1.toNat + 1 := rfl

end Opcode

end ChainRules.Script
