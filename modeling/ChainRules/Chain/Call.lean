import ChainRules.Chain.Validation

/-!
# Calls

A ledger is what a call of the validator leaves behind: the store and the height index. A call brings
its own settings and token, and the token may be cancelled before the call, at any poll, in the middle
of a look-up or right after a write.
-/

namespace ChainRules.Chain

/-- A store and a height index. -/
structure Ledger where
  store : Store
  heights : Heights
  deriving DecidableEq

/-- A ledger without entries and heights. -/
def Ledger.empty : Ledger := ⟨.empty, .empty⟩

/-- The ledger that a session works on. -/
def Session.ledger (s : Session) : Ledger := ⟨s.store, s.heights⟩

/-- What a validator may be asked for. -/
inductive Request where
  /-- To take the payload of a block. -/
  | payload (bytes : Bytes)
  /-- To take a block that is read already. -/
  | block (b : Block)
  /-- To take the payload of a loose transaction. -/
  | transaction (bytes : Bytes)
  deriving DecidableEq

namespace Request

/-- The examination that a request is put through. -/
def examine (settings : Settings) : Request → Run Candidate
  | payload bytes => examinePayload settings bytes
  | block b => examineBlock settings b
  | transaction bytes => examineTransaction settings bytes

/-- The validation that serves a request. -/
def run (settings : Settings) : Request → Run Unit
  | payload bytes => validatePayload settings bytes
  | block b => validateBlock settings b
  | transaction bytes => validateTransaction settings bytes

/-- A validation is an examination and then the storing of what was examined. -/
theorem run_eq (settings : Settings) (r : Request) :
    r.run settings = r.examine settings >>= Candidate.persist := by
  cases r <;> rfl

/-- What a request asks to be stored: the block with its transactions or the transaction, if it can be
read. -/
def parts : Request → List Entry
  | payload bytes =>
    match Block.decode bytes with
    | .ok b => b.entries
    | .error _ => []
  | block b => b.entries
  | transaction bytes =>
    match Transaction.decode bytes with
    | .ok tx => [.transaction tx]
    | .error _ => []

end Request

/-- A request with everything that its caller chooses. -/
structure Call where
  settings : Settings
  request : Request
  token : Token
  triggers : Triggers
  deriving DecidableEq

/-- Whether no one cancels the token of the call. -/
structure Call.Undisturbed (c : Call) : Prop where
  token : c.token = .never
  triggers : c.triggers = .never

namespace Ledger

/-- The session in which a call is served. -/
def session (l : Ledger) (c : Call) : Session where
  store := l.store
  heights := l.heights
  readOnly := false
  triggers := c.triggers
  lookups := 0
  writes := 0
  token := c.token
  progress := .start

/-- Serves a call: the report to the caller and the ledger after it. -/
def call (l : Ledger) (c : Call) : Report × Ledger :=
  let (result, s) := report (c.request.run c.settings) (l.session c)
  (result, s.ledger)

/-- The ledger after calls that were served in order, starting without entries and heights. -/
def after (history : List Call) : Ledger :=
  history.foldl (fun l c => (l.call c).2) .empty

theorem after_concat (history : List Call) (c : Call) :
    after (history ++ [c]) = ((after history).call c).2 := by
  simp [after]

/-- What holds of the empty ledger and is kept by every call holds after every history. -/
theorem after_induction {P : Ledger → Prop} (hempty : P .empty)
    (hcall : ∀ l c, P l → P (l.call c).2) (history : List Call) : P (after history) := by
  have hserved : ∀ l, P l → P (history.foldl (fun l c => (l.call c).2) l) := by
    induction history with
    | nil => exact fun l hl => hl
    | cons c history ih => exact fun l hl => ih _ (hcall l c hl)
  exact hserved .empty hempty

end Ledger

end ChainRules.Chain
