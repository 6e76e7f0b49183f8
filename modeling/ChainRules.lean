import ChainRules.Bytes
import ChainRules.Bytes.Lemmas
import ChainRules.Chain.Call
import ChainRules.Chain.Entry
import ChainRules.Chain.Heights
import ChainRules.Chain.Inputs
import ChainRules.Chain.Rules
import ChainRules.Chain.Session
import ChainRules.Chain.Settings
import ChainRules.Chain.Store
import ChainRules.Chain.Validation
import ChainRules.Chain.Violation
import ChainRules.Codec.Block
import ChainRules.Codec.CompactSize
import ChainRules.Codec.Cursor
import ChainRules.Codec.Malformed
import ChainRules.Codec.Transaction
import ChainRules.Curve.Ecdsa
import ChainRules.Curve.Field
import ChainRules.Curve.LooseSignature
import ChainRules.Curve.Point
import ChainRules.Curve.PublicKey
import ChainRules.Digest.Algorithm
import ChainRules.Digest.Registry
import ChainRules.Digest.Ripemd160
import ChainRules.Digest.Scrypt
import ChainRules.Digest.Sha1
import ChainRules.Digest.Sha256
import ChainRules.Digest.Words
import ChainRules.Fault
import ChainRules.Hash256
import ChainRules.Json.Ledger
import ChainRules.Json.Parser
import ChainRules.Json.Printer
import ChainRules.Json.Record
import ChainRules.Json.Settings
import ChainRules.Json.Value
import ChainRules.Keys
import ChainRules.Ledger.Block
import ChainRules.Ledger.Transaction
import ChainRules.Merkle.Branch
import ChainRules.Merkle.Tree
import ChainRules.Peer.Command
import ChainRules.Peer.Inventory
import ChainRules.Peer.Payload
import ChainRules.Proofs.Chain.Acceptance
import ChainRules.Proofs.Chain.Atomicity
import ChainRules.Proofs.Chain.Binding
import ChainRules.Proofs.Chain.ClaimedHeight
import ChainRules.Proofs.Chain.Coherence
import ChainRules.Proofs.Chain.Commit
import ChainRules.Proofs.Chain.Commuting
import ChainRules.Proofs.Chain.Contents
import ChainRules.Proofs.Chain.Examination
import ChainRules.Proofs.Chain.Growth
import ChainRules.Proofs.Chain.Judgement
import ChainRules.Proofs.Chain.Kinds
import ChainRules.Proofs.Chain.Loose
import ChainRules.Proofs.Chain.LooseAcceptance
import ChainRules.Proofs.Chain.Observation
import ChainRules.Proofs.Chain.Progress
import ChainRules.Proofs.Chain.Recording
import ChainRules.Proofs.Chain.Reporting
import ChainRules.Proofs.Chain.Resolution
import ChainRules.Proofs.Chain.SinglePass
import ChainRules.Proofs.Chain.Spending
import ChainRules.Proofs.Chain.Stability
import ChainRules.Proofs.Chain.TransactionRules
import ChainRules.Proofs.Chain.Transparency
import ChainRules.Proofs.Chain.Unreadable
import ChainRules.Proofs.Chain.WrittenBlock
import ChainRules.Proofs.Codec.CompactSize
import ChainRules.Proofs.Codec.Exact
import ChainRules.Proofs.Codec.Ledger
import ChainRules.Proofs.Codec.Payload
import ChainRules.Proofs.Digest.Registry
import ChainRules.Proofs.Merkle.Arena
import ChainRules.Proofs.Merkle.Branches
import ChainRules.Proofs.Merkle.Levels
import ChainRules.Proofs.Outcomes
import ChainRules.Proofs.Peer.Command
import ChainRules.Proofs.Peer.Payload
import ChainRules.Proofs.Script.Arithmetic
import ChainRules.Proofs.Script.Balance
import ChainRules.Proofs.Script.Budget
import ChainRules.Proofs.Script.Cancellation
import ChainRules.Proofs.Script.Canonical
import ChainRules.Proofs.Script.Composition
import ChainRules.Proofs.Script.Course
import ChainRules.Proofs.Script.Decoding
import ChainRules.Proofs.Script.Effects
import ChainRules.Proofs.Script.Encoding
import ChainRules.Proofs.Script.Framing
import ChainRules.Proofs.Script.Inquiry
import ChainRules.Proofs.Script.KeyHash
import ChainRules.Proofs.Script.Limits
import ChainRules.Proofs.Script.Moves
import ChainRules.Proofs.Script.Multisig
import ChainRules.Proofs.Script.Numbers
import ChainRules.Proofs.Script.Phases
import ChainRules.Proofs.Script.Rewriting
import ChainRules.Proofs.Script.Skipping
import ChainRules.Proofs.Script.Step
import ChainRules.Proofs.Signature.Commitment
import ChainRules.Proofs.Signature.Replay
import ChainRules.Script.Abort
import ChainRules.Script.Instruction
import ChainRules.Script.Machine
import ChainRules.Script.Number
import ChainRules.Script.Opcode
import ChainRules.Script.Operation
import ChainRules.Signature.Checker
import ChainRules.Signature.Preimage
import ChainRules.Text.ExtendingMark
import ChainRules.Text.Hex
import ChainRules.Text.Quoted
import ChainRules.Text.Unprintable
import ChainRules.Token
import ChainRules.Work.Target
import ChainRules.Work.Word256
import ChainRules.Proofs.Work.Easiest
import ChainRules.Proofs.Work.Target
