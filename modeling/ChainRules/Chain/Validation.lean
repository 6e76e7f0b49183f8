import ChainRules.Chain.Inputs
import ChainRules.Chain.Rules
import ChainRules.Chain.Settings
import ChainRules.Merkle.Tree
import ChainRules.Signature.Checker
import ChainRules.Work.Target

/-!
# Validation

A validation examines what it is given and then stores it. A block passes through stages: it is read and
its predecessor found, its work and its Merkle root are checked, its inputs are resolved and their
scripts run. A loose transaction passes through the stages that apply to it. What is left when nothing
speaks against it is a candidate, and storing a candidate no longer heeds cancellation.
-/

namespace ChainRules.Chain

/-- Runs the scripts of one spend. -/
def verifySpend (spend : Spend) : Run Unit := fun s =>
  let unlock := (spend.tx.inputs[spend.inputIndex]?.map Input.script).getD []
  let check := Signature.inputChecker spend.tx spend.inputIndex
  match Script.spend check s.token unlock spend.output.script with
  | .ok answer m =>
    let s := { s with token := m.token }
    if answer then .ok () s
    else .error (.invalid (.scriptFalse spend.txIndex spend.inputIndex)) s
  | .error cause m =>
    let s := { s with token := m.token }
    if cause = .cancelled then .error .cancelled s
    else .error (.invalid (.scriptAborted spend.txIndex spend.inputIndex cause)) s

/-- Runs the scripts of all spends but those of coinbases, up to the first failure. Where scripts run
side by side, a cancelled token hides the outcome, and the order of the list stands for whichever order
the workers end in: if several spends fail, the one that is named is the one whose failure is known
first, which need not be the first of the list. -/
def verifySpends (settings : Settings) (spends : List Spend) : Run Unit := do
  let inputs := spends.filter (!·.tx.isCoinbase)
  if inputs.isEmpty then return
  Run.poll
  if settings.parallelScripts then
    let outcome ← Run.attempt (inputs.forM verifySpend)
    Run.poll
    Run.ofExcept outcome
  else inputs.forM verifySpend

/-- Stores entries in order. -/
def commit (entries : List Entry) : Run Unit :=
  entries.forM Run.write

/-- The height of a block with the given header: zero without a predecessor, otherwise one above a
predecessor that is stored and has a height. Heights are words of 64 bits, and the sum is the word's as
long as the height of the predecessor is below `2 ^ 64 - 1`. -/
def heightOf (header : Header) : Run Nat := do
  if header.isGenesis then return 0
  match ← Run.lookup header.previous with
  | some (.block _) =>
    match (← get).heights.get? header.previous with
    | some height => return height + 1
    | none => throw (.invalid (.previousWithoutHeight header.previous))
  | _ => throw (.invalid (.unknownPrevious header.previous))

/-- Refuses a block, other than a first one, whose coinbase claims a height too far above the tip. -/
def checkClaimedHeight (settings : Settings) (heights : Heights) (b : Block) :
    Except Violation Unit :=
  match settings.maxHeightLead, heights.tip, b.coinbase?.bind Transaction.claimedHeight? with
  | some lead, some (_, tip), some claimed =>
    if !b.header.isGenesis && decide ((tip + lead : Nat) < claimed) then
      .error (.farHeight claimed lead tip)
    else .ok ()
  | _, _, _ => .ok ()

/-- Refuses a header without enough work. -/
def checkWork (header : Header) : Except Violation Unit := do
  if !(← header.hasWork) then throw (.aboveTarget header.id)

/-- Refuses a header that does not commit to the given transactions. -/
def checkMerkleRoot (header : Header) (txs : List Identified) : Except Fault Unit := do
  let root ← Merkle.rootOf (txs.map Identified.id)
  if root ≠ header.merkleRoot then throw (.invalid (.merkleMismatch header.merkleRoot root))

/-- Refuses a block for its header: for the height that it claims, or for its work. -/
def checkHeader (settings : Settings) (heights : Heights) (b : Block) : Except Violation Unit := do
  checkClaimedHeight settings heights b
  checkWork b.header

/-- Refuses a block for its transactions, each by itself, or for its Merkle root. -/
def checkContents (b : Block) : Except Fault Unit := do
  b.checkStructure.mapError .invalid
  checkMerkleRoot b.header (b.transactions.map .ofTransaction)

/-- The header at the front of a payload. -/
def leadingHeader (payload : Bytes) : Except Fault Header :=
  match Header.read (.start payload) with
  | .ok header _ => .ok header
  | .error cause _ => .error (.malformed cause)

/-- The block that a payload is. -/
def readBlock (payload : Bytes) : Except Fault Block :=
  match Block.decode payload with
  | .ok b => .ok b
  | .error cause => .error (.malformed cause)

/-! ## Examination -/

/-- What a validation comes to if nothing speaks against it: a block at a height, or a loose
transaction. -/
inductive Candidate where
  | block (b : Block) (height : Nat)
  | transaction (tx : Transaction)
  deriving DecidableEq

/-- Takes a block whose height is known through the stages up to the first write. -/
def examineAt (settings : Settings) (b : Block) (height : Nat) : Run Candidate := do
  modify fun s =>
    { s with progress := { s.progress with blockId := some b.id, height := some height } }
  Run.check (checkHeader settings (← get).heights b)
  Run.reach .powChecked
  Run.ofExcept (checkContents b)
  Run.reach .merkleChecked
  let spends ← resolve (b.transactions.map .ofTransaction)
  Run.reach .inputsResolved
  verifySpends settings spends
  Run.reach .scriptsVerified
  Run.poll
  return .block b height

/-- Takes a block through the stages up to the first write. -/
def examineBlock (settings : Settings) (b : Block) : Run Candidate := do
  Run.poll
  let height ← heightOf b.header
  Run.reach .parsed
  examineAt settings b height

/-- Takes a payload through the stages up to the first write. The predecessor is looked for while the
payload is read; if both fail, it is the payload that is at fault. -/
def examinePayload (settings : Settings) (payload : Bytes) : Run Candidate := do
  Run.poll
  if settings.maxBlockSize < payload.length then
    throw (.malformed (.oversizedBlock payload.length settings.maxBlockSize))
  let header ← Run.ofExcept (leadingHeader payload)
  let height ← Run.attempt (heightOf header)
  let b ← Run.ofExcept (readBlock payload)
  let height ← Run.ofExcept height
  Run.reach .parsed
  examineAt settings b height

/-- Takes the payload of a loose transaction through the stages that apply to it, up to the first
write. -/
def examineTransaction (settings : Settings) (payload : Bytes) : Run Candidate := do
  Run.poll
  match Transaction.decode payload with
  | .error cause => throw (.malformed cause)
  | .ok tx =>
    Run.check tx.check
    if tx.isCoinbase then throw (.invalid .looseCoinbase)
    let spends ← resolve [.ofTransaction tx]
    verifySpends settings spends
    Run.poll
    return .transaction tx

/-! ## Storing -/

/-- What is stored of a candidate, in order. -/
def Candidate.entries : Candidate → List Entry
  | .block b _ => b.entries
  | .transaction tx => [.transaction tx]

/-- Stores a candidate and, for a block, records its height. -/
def Candidate.persist : Candidate → Run Unit
  | .block b height => do
    commit b.entries
    Run.record b.id height
    Run.reach .accepted
  | .transaction tx => commit [.transaction tx]

/-- Takes a block through all stages. -/
def validateBlock (settings : Settings) (b : Block) : Run Unit :=
  examineBlock settings b >>= Candidate.persist

/-- Takes a payload through all stages. -/
def validatePayload (settings : Settings) (payload : Bytes) : Run Unit :=
  examinePayload settings payload >>= Candidate.persist

/-- Takes the payload of a loose transaction through the stages that apply to it. -/
def validateTransaction (settings : Settings) (payload : Bytes) : Run Unit :=
  examineTransaction settings payload >>= Candidate.persist

/-! ## Reports -/

/-- The outcome of a validation, and how far it came. -/
structure Report where
  verdict : Verdict
  /-- The last stage that was reached; `rejected` if there was none. -/
  stage : Stage
  blockId : Option Hash256
  height : Option Nat
  deriving DecidableEq

/-- Runs a validation from the start and reports on it. -/
def report (validation : Run Unit) (s : Session) : Report × Session :=
  match validation { s with progress := .start } with
  | .ok _ t => (⟨.okay, .accepted, t.progress.blockId, t.progress.height⟩, t)
  | .error fault t =>
    (⟨fault.verdict, t.progress.stage.getD .rejected, t.progress.blockId, t.progress.height⟩, t)

end ChainRules.Chain
