import ChainRules.Codec.Transaction
import ChainRules.Script.Operation

/-!
# What a signature commits to

A signature covers a view of the spending transaction: only the signed input carries a script, namely
the script code without separators, and the hash type chooses how much of the other inputs and of the
outputs is seen. The digest is the double SHA-256 of the view and the hash type. Where the signed
input, or the one output that it should cover, does not exist there is no view, and the digest is the
number one.
-/

namespace ChainRules.Signature

/-- How much of the outputs a signature covers. -/
inductive Coverage where
  | all
  | none
  /-- Only the output with the index of the signed input. -/
  | single
  deriving DecidableEq

/-- The hash type: a coverage in its low five bits, and a flag that leaves out the other inputs. -/
abbrev HashType := UInt32

namespace HashType

/-- How much of the outputs the type covers. -/
def coverage (t : HashType) : Coverage :=
  if t &&& 0x1f = 2 then .none else if t &&& 0x1f = 3 then .single else .all

/-- Whether the type leaves out all inputs but the signed one. -/
def anyoneCanPay (t : HashType) : Bool :=
  t &&& 0x80 ≠ 0

end HashType

/-- The operations of a script code that a signature commits to: all but the separators. -/
def withoutSeparators (code : List Script.Operation) : List Script.Operation :=
  code.filter (·.opcode ≠ .opCodeSeparator)

/-- An input as it is seen by the signature of another input. -/
def blankInput (coverage : Coverage) (input : Input) : Input :=
  { input with script := [], sequence := if coverage = .all then input.sequence else 0 }

/-- The inputs of the view, for a signature of the input at `index`. -/
def viewInputs (t : HashType) (code : List Script.Operation) (index : Nat) (inputs : List Input) :
    List Input :=
  let seen := inputs.mapIdx fun i input =>
    if i = index then { input with script := Script.encode (withoutSeparators code) }
    else blankInput t.coverage input
  if t.anyoneCanPay then (seen.drop index).take 1 else seen

/-- An output that takes a place but is not covered. -/
def blankOutput : Output :=
  ⟨-1, []⟩

/-- The outputs of the view, for a signature of the input at `index`. -/
def viewOutputs (coverage : Coverage) (index : Nat) (outputs : List Output) : List Output :=
  match coverage with
  | .all => outputs
  | .none => []
  | .single => List.replicate index blankOutput ++ (outputs.drop index).take 1

/-- The transaction as a signature of the input at `index` sees it. -/
def view? (tx : Transaction) (index : Nat) (code : List Script.Operation) (t : HashType) :
    Option Transaction :=
  if tx.inputs.length ≤ index then none
  else if t.coverage = .single ∧ tx.outputs.length ≤ index then none
  else some { tx with
    inputs := viewInputs t code index tx.inputs
    outputs := viewOutputs t.coverage index tx.outputs }

/-- The byte string that is hashed for a signature, if there is one. -/
def preimage? (tx : Transaction) (index : Nat) (code : List Script.Operation) (t : HashType) :
    Option Bytes :=
  (view? tx index code t).map fun view => view.encode ++ Bytes.ofNatLe 4 t.toNat

/-- The digest that a signature of the input at `index` signs. -/
def digest (tx : Transaction) (index : Nat) (code : List Script.Operation) (t : HashType) : Hash256 :=
  match preimage? tx index code t with
  | some bytes => Digest.hash256 bytes
  | none => .one

end ChainRules.Signature
