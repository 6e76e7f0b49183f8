import ChainRules.Chain.Heights
import ChainRules.Chain.Store
import ChainRules.Token

/-!
# Validation sessions

A session is the state that validation works on: the store and the height index, the caller's token,
and how far validation has come. Cancellation may strike in the middle of a look-up or right after a
write, which a session expresses by triggers on the number of look-ups and writes so far.
-/

namespace ChainRules.Chain

/-- How far validation has come. -/
inductive Stage where
  /-- The payload is read and its predecessor known. -/
  | parsed
  | powChecked
  | merkleChecked
  | inputsResolved
  | scriptsVerified
  | accepted
  | rejected
  deriving DecidableEq

/-- The name of a stage in reports. -/
def Stage.name : Stage → String
  | .parsed => "parsed"
  | .powChecked => "pow-checked"
  | .merkleChecked => "merkle-checked"
  | .inputsResolved => "inputs-resolved"
  | .scriptsVerified => "scripts-verified"
  | .accepted => "accepted"
  | .rejected => "rejected"

/-- What is known so far of a block under validation. -/
structure Progress where
  stage : Option Stage
  blockId : Option Hash256
  height : Option Nat
  deriving DecidableEq

/-- The start of a validation. -/
def Progress.start : Progress :=
  ⟨none, none, none⟩

/-- When the caller's token is cancelled: at the start or the end of a look-up, or after a write,
each counted from one. -/
structure Triggers where
  beforeLookup : Option Nat
  afterLookup : Option Nat
  afterWrite : Option Nat
  deriving DecidableEq

/-- Triggers that never strike. -/
def Triggers.never : Triggers :=
  ⟨none, none, none⟩

/-- The state that validation works on. -/
structure Session where
  store : Store
  heights : Heights
  /-- Whether the store refuses writes. -/
  readOnly : Bool
  triggers : Triggers
  /-- How many look-ups there were. -/
  lookups : Nat
  /-- How many writes succeeded. -/
  writes : Nat
  token : Token
  progress : Progress
  deriving DecidableEq

/-- A step of validation: it may fail, and what it did to the session before stays done. -/
abbrev Run := EStateM Fault Session

namespace Session

/-- A session over a store, with nothing recorded yet. -/
def start (store : Store) (readOnly : Bool) (triggers : Triggers) : Session where
  store := store
  heights := .empty
  readOnly := readOnly
  triggers := triggers
  lookups := 0
  writes := 0
  token := .never
  progress := .start

/-- The session with its token cancelled if a trigger strikes at the given count. -/
def strike (s : Session) (trigger : Option Nat) (count : Nat) : Session :=
  if trigger = some count then { s with token := s.token.cancel } else s

end Session

namespace Run

/-- A check as a step of validation. -/
def check {α : Type} : Except Violation α → Run α
  | .ok x => return x
  | .error cause => throw (.invalid cause)

/-- A result as a step of validation. -/
def ofExcept {α : Type} : Except Fault α → Run α
  | .ok x => return x
  | .error fault => throw fault

/-- Runs a step and answers with its failure instead of failing. -/
def attempt {α : Type} (step : Run α) : Run (Except Fault α) := fun s =>
  match step s with
  | .ok x t => .ok (.ok x) t
  | .error fault t => .ok (.error fault) t

/-- Polls the token. -/
def poll : Run Unit := fun s =>
  let t := { s with token := s.token.polled }
  if s.token.isCancelled then .error .cancelled t else .ok () t

/-- Looks an entry up, unless the token is cancelled. -/
def lookup (id : Hash256) : Run (Option Entry) := do
  modify fun s => { s with lookups := s.lookups + 1 }
  modify fun s => s.strike s.triggers.beforeLookup s.lookups
  let found ← attempt do
    poll
    return (← get).store.get? id
  modify fun s => s.strike s.triggers.afterLookup s.lookups
  ofExcept found

/-- Stores an entry, whether or not the token is cancelled. -/
def write (e : Entry) : Run Unit := do
  let s ← get
  if s.readOnly then throw (.unsupported (.readOnlyStore e.kind e.id))
  let store ← ofExcept (s.store.put e)
  modify fun s => { s with store, writes := s.writes + 1 }
  modify fun s => s.strike s.triggers.afterWrite s.writes

/-- Stores an entry, unless the token is cancelled. -/
def put (e : Entry) : Run Unit := do
  poll
  write e

/-- Whether an entry is stored, unless the token is cancelled. -/
def contains (id : Hash256) : Run Bool := do
  poll
  return (← get).store.contains id

/-- Records a height. -/
def record (id : Hash256) (height : Nat) : Run Unit := do
  let heights ← ofExcept ((← get).heights.record id height)
  modify fun s => { s with heights }

/-- Notes that a stage is reached. -/
def reach (stage : Stage) : Run Unit :=
  modify fun s => { s with progress := { s.progress with stage := some stage } }

end Run

end ChainRules.Chain
