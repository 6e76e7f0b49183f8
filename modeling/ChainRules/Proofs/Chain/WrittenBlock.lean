import ChainRules.Proofs.Chain.Atomicity
import ChainRules.Proofs.Codec.Payload

/-!
# Blocks in their written form

A block may be offered as it is or in its written form. The payload is read while the predecessor is
looked for, and it is the payload that is at fault if both fail. As the written form of a block is
read back without a fault, header first, that makes no difference.
-/

namespace ChainRules.Chain

/-- The payload of a block that is not too long is examined as the block is. -/
theorem examinePayload_encode {settings : Settings} {b : Block}
    (hsize : b.encode.length ≤ settings.maxBlockSize) (hfits : b.Fits) :
    examinePayload settings b.encode = examineBlock settings b := by
  have hread : readBlock b.encode = .ok b := readBlock_eq_ok_iff.2 ⟨hfits, rfl⟩
  unfold examinePayload examineBlock
  rw [if_neg (Nat.not_lt.2 hsize), leadingHeader_encode, hread]
  have hlookup := Run.attempt_around_ok (heightOf b.header) b fun height b => do
    Run.reach .parsed
    examineAt settings b height
  exact congrArg (Run.poll >>= ·) (funext fun _ => hlookup)

namespace Ledger

/-- Whatever a ledger contains, and whenever the token is cancelled, a block that is not too long is
answered in the same way in its written form and as it is, with the same ledger afterwards. The
limit on the length is itself a machine word. -/
theorem call_payload_eq_call_block (l : Ledger) (settings : Settings) (b : Block) (token : Token)
    (triggers : Triggers) (hlimit : settings.maxBlockSize < 2 ^ 64)
    (hsize : b.encode.length ≤ settings.maxBlockSize) :
    l.call ⟨settings, .payload b.encode, token, triggers⟩ =
      l.call ⟨settings, .block b, token, triggers⟩ := by
  have hfits : b.Fits := Block.fits_of_length (hsize.trans_lt hlimit)
  have hrun : (Request.payload b.encode).run settings = (Request.block b).run settings :=
    congrArg (· >>= Candidate.persist) (examinePayload_encode hsize hfits)
  unfold call
  dsimp only
  rw [hrun]
  rfl

/-- The sample block is offered in its written form and as it is. -/
theorem call_payload_eq_call_block_sample :
    (after [sampleCall]).call sampleCall =
      (after [sampleCall]).call ⟨.standard, .block sampleBlock, .never, .never⟩ :=
  call_payload_eq_call_block _ .standard sampleBlock .never .never (by decide) (by decide +kernel)

end Ledger

end ChainRules.Chain
