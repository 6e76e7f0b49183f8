import ChainRules.Script.Instruction
import ChainRules.Script.Operation
import ChainRules.Token

/-!
# The script machine

A machine has a main and an alternate stack, the conditionals that are open, a count of operations and
the part of the script that a signature commits to. `Machine.execute` is one step; `Machine.run` runs
a list of operations. Every question put to the signature checker is kept, in order, also when the run
is aborted.
-/

namespace ChainRules.Script

/-- Answers whether a signature by a key commits to a script code. -/
abbrev Checker := (signature key : Bytes) → (code : List Operation) → Bool

/-- A question put to the checker, and its answer. -/
structure Query where
  signature : Bytes
  key : Bytes
  code : List Operation
  answer : Bool
  deriving DecidableEq

/-- Limits on scripts. -/
structure Limits where
  /-- Bytes of a script. -/
  scriptSize : Nat
  /-- Bytes of a pushed item. -/
  itemSize : Nat
  /-- Items on both stacks together. -/
  stackSize : Nat
  /-- Counted operations of a script. -/
  operations : Nat
  /-- Keys of one multiple signature. -/
  keys : Nat

/-- The limits of the network. -/
def limits : Limits where
  scriptSize := 10000
  itemSize := 520
  stackSize := 1000
  operations := 201
  keys := 20

/-- The state of a script machine. -/
structure Machine where
  /-- The main stack. -/
  main : Stack
  /-- The alternate stack. -/
  alt : Stack
  /-- For each open conditional, innermost first, whether its current branch is taken. -/
  branches : List Bool
  /-- How many operations were counted in this script. -/
  opCount : Nat
  /-- The operations after the last separator that was executed in this script. -/
  code : List Operation
  token : Token
  /-- The questions put to the checker so far. -/
  queries : List Query
  deriving DecidableEq

/-- A computation on a machine that may be aborted. -/
abbrev Exec := EStateM Abort Machine

namespace Machine

/-- A machine with empty stacks. -/
def empty (token : Token) : Machine where
  main := []
  alt := []
  branches := []
  opCount := 0
  code := []
  token := token
  queries := []

/-- Whether all open conditionals are in a branch that is taken. -/
def isExecuting (m : Machine) : Bool :=
  m.branches.all id

/-- The truth of the topmost item, if there is one. -/
def top? (m : Machine) : Option Bool :=
  m.main.head?.map Item.isTrue

/-- The machine with an item put on top of the main stack. -/
def pushed (m : Machine) (item : Item) : Machine :=
  { m with main := item :: m.main }

/-- The script code that a check of `signatures` commits to: the operations since the last separator
without those that push one of the signatures. -/
def scriptCode (m : Machine) (signatures : List Bytes) : List Operation :=
  m.code.filter fun o => !signatures.any fun s => s ≠ [] && o.data = some s

/-- The machine after a question to the checker. -/
def asked (m : Machine) (q : Query) : Machine :=
  { m with queries := m.queries ++ [q] }

end Machine

namespace Exec

/-- Puts an item on top of the main stack. -/
def push (item : Item) : Exec Unit :=
  modify (·.pushed item)

/-- Takes the topmost item off the main stack. -/
def pop (op : Opcode) : Exec Item := fun m =>
  match m.main with
  | [] => .error (.stackUnderflow op) m
  | item :: rest => .ok item { m with main := rest }

/-- Insists on at least `n` items on the main stack. -/
def require (op : Opcode) (n : Nat) : Exec Unit := do
  if (← get).main.length < n then throw (.stackUnderflow op)

/-- An item as a numeric operand. -/
def number (item : Item) : Exec Int :=
  match item.number with
  | .ok n => return n
  | .error cause => throw cause

/-- Takes the topmost item off the main stack as a numeric operand. -/
def popNumber (op : Opcode) : Exec Int := do
  number (← pop op)

/-- Pushes the shortest form of a number. -/
def pushNumber (n : Int) : Exec Unit :=
  push (Number.encode n)

/-- Delivers an answer: pushes it, or insists that it is true. -/
def deliver (op : Opcode) (insist answer : Bool) : Exec Unit := do
  if insist then
    if !answer then throw (.verifyFailed op)
  else push (Item.ofBool answer)

/-- Counts `n` more operations towards the limit. -/
def count (n : Nat) : Exec Unit := do
  modify fun m => { m with opCount := m.opCount + n }
  if limits.operations < (← get).opCount then throw .opCount

/-- Polls the token. -/
def poll : Exec Unit := do
  let token := (← get).token
  modify fun m => { m with token := token.polled }
  if token.isCancelled then throw .cancelled

/-- Puts a question to the checker. -/
def ask (check : Checker) (signature key : Bytes) (code : List Operation) : Exec Bool := do
  let answer := check signature key code
  modify (·.asked ⟨signature, key, code, answer⟩)
  return answer

/-- Matches signatures with keys in order, each key tried once; gives up as soon as more signatures
than keys are left. -/
def matchSignatures (check : Checker) (code : List Operation) :
    (signatures keys : List Bytes) → Exec Bool
  | [], _ => return true
  | _ :: _, [] => return false
  | s :: signatures, k :: keys => do
    let left := if ← ask check s k code then signatures else s :: signatures
    if keys.length < left.length then return false
    else matchSignatures check code left keys

/-- Checks several signatures against several keys. From the top, the main stack holds the number of
keys, the keys, the number of signatures, the signatures and one more item; all of it is taken. -/
def checkMultisig (check : Checker) (op : Opcode) : Exec Bool := do
  let keyCount ← popNumber op
  if keyCount < 0 ∨ limits.keys < keyCount then throw (.pubkeyCount keyCount)
  count keyCount.toNat
  require op (keyCount.toNat + 1)
  let keys := (← get).main.take keyCount.toNat
  modify fun m => { m with main := m.main.drop keyCount.toNat }
  let sigCount ← popNumber op
  if sigCount < 0 ∨ keyCount < sigCount then throw (.sigCount sigCount)
  require op (sigCount.toNat + 1)
  let signatures := (← get).main.take sigCount.toNat
  modify fun m => { m with main := m.main.drop (sigCount.toNat + 1) }
  matchSignatures check ((← get).scriptCode signatures) signatures keys

/-- The item at a depth below the top. -/
def itemAt (n : Int) : Exec Item := fun m =>
  match if n < 0 then none else m.main[n.toNat]? with
  | some item => .ok item m
  | none => .error .invalidStackOperation m

/-- Executes an instruction. `rest` is what follows the operation in the script, and `executing` is
false only for instructions on conditionals, which are then skipped. -/
def perform (check : Checker) (op : Opcode) (rest : List Operation) (executing : Bool) :
    Instruction → Exec Unit
  | .constant n => pushNumber n
  | .nop => return ()
  | .openBranch inverted => do
    let taken ← if executing then (fun item => item.isTrue != inverted) <$> pop op else pure false
    modify fun m => { m with branches := taken :: m.branches }
  | .turnBranch => fun m =>
    match m.branches with
    | [] => .error .unbalancedConditional m
    | taken :: outer => .ok () { m with branches := (!taken) :: outer }
  | .closeBranch => fun m =>
    match m.branches with
    | [] => .error .unbalancedConditional m
    | _ :: outer => .ok () { m with branches := outer }
  | .verify => do
    deliver op true (← pop op).isTrue
  | .giveUp => throw .opReturn
  | .toAlt => do
    let item ← pop op
    modify fun m => { m with alt := item :: m.alt }
  | .fromAlt => fun m =>
    match m.alt with
    | [] => .error (.stackUnderflow op) m
    | item :: rest => .ok () { m with alt := rest, main := item :: m.main }
  | .rearrange r => fun m =>
    match r.apply? m.main with
    | none => .error (.stackUnderflow op) m
    | some main => .ok () { m with main }
  | .dupIfTrue => do
    let item ← pop op
    push item
    if item.isTrue then push item
  | .depth => do
    pushNumber (← get).main.length
  | .size => do
    let item ← pop op
    push item
    pushNumber item.length
  | .pick => do
    let n ← popNumber op
    push (← itemAt n)
  | .roll => do
    let n ← popNumber op
    let item ← itemAt n
    modify fun m => { m with main := item :: m.main.eraseIdx n.toNat }
  | .equal insist => do
    let b ← pop op
    let a ← pop op
    deliver op insist (a = b)
  | .unary f => do
    pushNumber (f.eval (← popNumber op))
  | .binary f => do
    require op 2
    let b ← popNumber op
    let a ← popNumber op
    pushNumber (f.eval a b)
  | .numEqualVerify => do
    require op 2
    let b ← popNumber op
    let a ← popNumber op
    deliver op true (a = b)
  | .within => do
    require op 3
    let upper ← popNumber op
    let lower ← popNumber op
    let n ← popNumber op
    push (Item.ofBool (lower ≤ n && n < upper))
  | .hash a => do
    push (a.digest (← pop op))
  | .codeSeparator => modify fun m => { m with code := rest }
  | .checkSig insist => do
    require op 2
    let key ← pop op
    let signature ← pop op
    let code := (← get).scriptCode [signature]
    deliver op insist (← ask check signature key code)
  | .checkMultisig insist => do
    deliver op insist (← checkMultisig check op)

/-- Executes one operation, with `rest` after it in the script: the token, the size of the item and
the count of operations come first, then disabled opcodes; a push or an instruction takes effect only
where execution is on, conditionals apart; last the size of the stacks. -/
def execute (check : Checker) (o : Operation) (rest : List Operation) : Exec Unit := do
  poll
  let executing := (← get).isExecuting
  if let some data := o.data then
    if limits.itemSize < data.length then throw (.pushSize data.length)
  if o.opcode.isCounted then count 1
  if o.opcode.isDisabled then throw (.disabledOpcode o.opcode)
  match o.data with
  | some data => if executing then push data
  | none =>
    if executing || o.opcode.isConditional || o.opcode.isForbiddenBranch then
      match Instruction.ofOpcode? o.opcode with
      | some i => perform check o.opcode rest executing i
      | none => throw (.badOpcode o.opcode)
  let m ← get
  if limits.stackSize < m.main.length + m.alt.length then throw .stackSize

/-- Executes operations in order. -/
def run (check : Checker) : List Operation → Exec Unit
  | [] => return ()
  | o :: rest => do
    execute check o rest
    run check rest

/-- Runs decoded operations as one script: the stacks are kept, while conditionals, count and code
start anew, and every conditional must be closed at the end. -/
def operations (check : Checker) (ops : List Operation) : Exec Unit := do
  modify fun m => { m with branches := [], opCount := 0, code := ops }
  run check ops
  if !(← get).branches.isEmpty then throw .unbalancedConditional

/-- Runs a script in its written form. -/
def script (check : Checker) (bytes : Bytes) : Exec Unit := do
  if limits.scriptSize < bytes.length then throw (.scriptSize bytes.length)
  match parse bytes with
  | .ok ops => operations check ops
  | .error cause => throw cause

/-- Runs the unlocking script and then the locking script over the same stacks, and answers whether
the topmost item is true in the end. -/
def spend (check : Checker) (unlock lock : Bytes) : Exec Bool := do
  script check unlock
  script check lock
  return (← get).top?.getD false

end Exec

/-- Whether an unlocking script opens a locking script, and the machine in the end, from a machine
with empty stacks. -/
def spend (check : Checker) (token : Token) (unlock lock : Bytes) : EStateM.Result Abort Machine Bool :=
  Exec.spend check unlock lock (Machine.empty token)

end ChainRules.Script
