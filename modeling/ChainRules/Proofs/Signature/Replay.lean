import ChainRules.Proofs.Chain.Judgement
import ChainRules.Proofs.Signature.Commitment

/-!
# Signatures stay with their input

What is hashed for signatures of two inputs of one transaction differs, so a signature of one of
them is none of the other. Where a signature sees all inputs, the script code tells which one is
signed, as the scripts of the others are left out; where it sees the signed input alone, the output
that is spent tells it, as a transaction spends no output twice.
-/

namespace ChainRules

/-- Different inputs of a transaction that keeps the rules spend different outputs. -/
theorem Transaction.prevout_ne_of_check {tx : Transaction} (h : tx.check = .ok ()) {i j : Nat}
    (hij : i ≠ j) {a b : Input} (ha : tx.inputs[i]? = some a) (hb : tx.inputs[j]? = some b) :
    a.prevout ≠ b.prevout := by
  intro heq
  have hi : i < (tx.inputs.map Input.prevout).length := by
    rw [List.length_map]
    exact (List.getElem?_eq_some_iff.1 ha).1
  refine hij ((List.getElem?_inj hi (prevouts_nodup_of_check h)).1 ?_)
  rw [List.getElem?_map, List.getElem?_map, ha, hb, Option.map_some, Option.map_some, heq]

namespace Signature

variable {tx : Transaction} {i j : Nat} {t : HashType} {code₁ code₂ : List Script.Operation}
  {inputs : List Input} {a b : Input}

/-- Where all inputs are seen, only the signed one has a script. -/
theorem viewInputs_ne_of_code (hflag : t.anyoneCanPay = false) (hij : i ≠ j)
    (ha : inputs[i]? = some a) (hcode : Script.encode (withoutSeparators code₁) ≠ []) :
    viewInputs t code₁ i inputs ≠ viewInputs t code₂ j inputs := by
  intro heq
  simp only [viewInputs_eq, hflag, Bool.false_eq_true, if_false] at heq
  have hsame := congrArg (fun seen : List Input => seen[i]?) heq
  simp only [getElem?_seen, ha, Option.map_some, seenInput, if_true, if_neg hij,
    Option.some.injEq] at hsame
  exact hcode (congrArg Input.script hsame)

/-- Where the signed input alone is seen, it names the output that it spends. -/
theorem viewInputs_ne_of_prevout (hflag : t.anyoneCanPay = true) (ha : inputs[i]? = some a)
    (hb : inputs[j]? = some b) (hprevout : a.prevout ≠ b.prevout) :
    viewInputs t code₁ i inputs ≠ viewInputs t code₂ j inputs := by
  rw [viewInputs_anyoneCanPay hflag code₁ ha, viewInputs_anyoneCanPay hflag code₂ hb, ne_eq,
    List.singleton_inj, signedInput_inj]
  exact fun hsame => hprevout hsame.1.1

/-- Two inputs of a transaction that keeps the rules are never seen in the same way. -/
theorem view_ne (checked : tx.check = .ok ()) (hij : i ≠ j) (hi : i < tx.inputs.length)
    (hj : j < tx.inputs.length) (hcode : Script.encode (withoutSeparators code₁) ≠ []) :
    view tx i code₁ t ≠ view tx j code₂ t := by
  have ha := List.getElem?_eq_getElem hi
  have hb := List.getElem?_eq_getElem hj
  intro heq
  have hinputs : viewInputs t code₁ i tx.inputs = viewInputs t code₂ j tx.inputs :=
    congrArg Transaction.inputs heq
  cases hflag : t.anyoneCanPay with
  | true =>
    have hprevout := Transaction.prevout_ne_of_check checked hij ha hb
    exact viewInputs_ne_of_prevout hflag ha hb hprevout hinputs
  | false => exact viewInputs_ne_of_code hflag hij ha hcode hinputs

/-- The byte strings that are hashed for signatures of two inputs of one transaction differ,
whatever the hash types are, if the transaction keeps the rules and the script codes are not empty.
Only where there is nothing to sign are both digests the number one. -/
theorem preimages_distinct {t₁ t₂ : HashType} (checked : tx.check = .ok ()) (fits : tx.Fits)
    (different : i ≠ j) (signable₁ : Signable tx i t₁) (signable₂ : Signable tx j t₂)
    (nonempty₁ : Script.encode (withoutSeparators code₁) ≠ [])
    (short₁ : (Script.encode (withoutSeparators code₁)).length < 2 ^ 64)
    (short₂ : (Script.encode (withoutSeparators code₂)).length < 2 ^ 64) :
    ∃ p₁ p₂, digest tx i code₁ t₁ = Digest.hash256 p₁ ∧ digest tx j code₂ t₂ = Digest.hash256 p₂ ∧
      preimage? tx i code₁ t₁ = some p₁ ∧ preimage? tx j code₂ t₂ = some p₂ ∧ p₁ ≠ p₂ := by
  have h₁ := preimage?_of_signable signable₁ code₁
  have h₂ := preimage?_of_signable signable₂ code₂
  refine ⟨_, _, by rw [digest, h₁], by rw [digest, h₂], h₁, h₂, fun heq => ?_⟩
  obtain ⟨hview, htype⟩ := Transaction.encode_append_inj
    (view_fits signable₁ fits short₁) (view_fits signable₂ fits short₂) heq
  obtain rfl := Bytes.ofNatLe_word32_inj.1 htype
  exact view_ne checked different signable₁.1 signable₂.1 nonempty₁ hview

/-- With hash type 0x83 a signature sees one input and one output, and yet it does not serve for the
other input with the same script code. -/
theorem preimages_distinct_single_anyoneCanPay :
    ∃ p₁ p₂, preimage? (secondFixed 0 [] 50) 0 [.bare .opCheckSig] 0x83 = some p₁ ∧
      preimage? (secondFixed 0 [] 50) 1 [.bare .opCheckSig] 0x83 = some p₂ ∧ p₁ ≠ p₂ := by
  have fits := secondFixed_fits 0 [] 50 (by decide)
  have signable : ∀ i < 2, Signable (secondFixed 0 [] 50) i 0x83 := by
    intro i hi
    exact ⟨hi, fun hshort => absurd hi (Nat.not_lt.2 hshort.2)⟩
  have nonempty : Script.encode (withoutSeparators [.bare .opCheckSig]) ≠ [] := by decide
  have short : (Script.encode (withoutSeparators [.bare .opCheckSig])).length < 2 ^ 64 := by decide
  obtain ⟨p₁, p₂, -, -, h₁, h₂, hne⟩ := preimages_distinct (by decide) fits Nat.zero_ne_one
    (signable 0 (by decide)) (signable 1 (by decide)) nonempty short short
  exact ⟨p₁, p₂, h₁, h₂, hne⟩

end Signature

end ChainRules
