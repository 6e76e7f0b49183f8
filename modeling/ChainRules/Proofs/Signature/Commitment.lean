import ChainRules.Proofs.Codec.Ledger
import ChainRules.Signature.Preimage

/-!
# What the bytes behind a signature determine

The byte string that is hashed for a signature determines the fields that the hash type covers, and
is determined by them: `Agree` lists these fields for two signatures of an input with the same
index. The unlocking scripts are not among them.
-/

namespace ChainRules

/-- The transaction with other unlocking scripts. -/
def Transaction.withScripts (script : Nat → Bytes) (tx : Transaction) : Transaction :=
  { tx with inputs := tx.inputs.mapIdx fun i input => { input with script := script i } }

namespace Signature

/-- Whether the input exists and, where only one output is to be covered, that output as well. -/
def Signable (tx : Transaction) (index : Nat) (t : HashType) : Prop :=
  index < tx.inputs.length ∧ ¬(t &&& 0x1f = 3 ∧ tx.outputs.length ≤ index)

/-- Two transactions and script codes agree in all that a signature of the input at `index` with
hash type `t` covers. The low five bits 2 leave out the outputs, 3 all but the one output, and both
leave out the sequence numbers of other inputs; the bit 0x80 leaves out the other inputs. -/
structure Agree (index : Nat) (t : HashType) (tx₁ tx₂ : Transaction)
    (code₁ code₂ : List Script.Operation) : Prop where
  version : tx₁.version = tx₂.version
  lockTime : tx₁.lockTime = tx₂.lockTime
  signed : ∀ a b, tx₁.inputs[index]? = some a → tx₂.inputs[index]? = some b →
    a.prevout = b.prevout ∧ a.sequence = b.sequence
  code : Script.encode (withoutSeparators code₁) = Script.encode (withoutSeparators code₂)
  others : t &&& 0x80 = 0 → tx₁.inputs.length = tx₂.inputs.length ∧
    ∀ j a b, j ≠ index → tx₁.inputs[j]? = some a → tx₂.inputs[j]? = some b →
      a.prevout = b.prevout ∧ (t &&& 0x1f ≠ 2 → t &&& 0x1f ≠ 3 → a.sequence = b.sequence)
  outputs : t &&& 0x1f ≠ 2 →
    if t &&& 0x1f = 3 then tx₁.outputs[index]? = tx₂.outputs[index]? else tx₁.outputs = tx₂.outputs

namespace HashType

theorem coverage_eq_single_iff (t : HashType) : t.coverage = .single ↔ t &&& 0x1f = 3 := by
  unfold coverage
  split_ifs with hnone
  · simp [hnone]
  · simp_all
  · simp_all

theorem coverage_eq_all_iff (t : HashType) :
    t.coverage = .all ↔ t &&& 0x1f ≠ 2 ∧ t &&& 0x1f ≠ 3 := by
  unfold coverage
  split_ifs <;> simp_all

theorem anyoneCanPay_eq_false_iff (t : HashType) : t.anyoneCanPay = false ↔ t &&& 0x80 = 0 := by
  simp [anyoneCanPay]

end HashType

/-! ## The inputs of a view -/

theorem blankInput_inj {coverage : Coverage} {a b : Input} :
    blankInput coverage a = blankInput coverage b ↔
      a.prevout = b.prevout ∧ (coverage = .all → a.sequence = b.sequence) := by
  unfold blankInput
  rw [Input.mk.injEq]
  by_cases hall : coverage = .all <;> simp [hall]

theorem signedInput_inj {a b : Input} {s s' : Bytes} :
    ({ a with script := s } : Input) = { b with script := s' } ↔
      (a.prevout = b.prevout ∧ a.sequence = b.sequence) ∧ s = s' := by
  rw [Input.mk.injEq]
  tauto

/-- An input as the signature of the input at `index` sees it. -/
def seenInput (coverage : Coverage) (script : Bytes) (index i : Nat) (input : Input) : Input :=
  if i = index then { input with script := script } else blankInput coverage input

theorem getElem?_seen (coverage : Coverage) (script : Bytes) (index j : Nat) (inputs : List Input) :
    (inputs.mapIdx (seenInput coverage script index))[j]? =
      inputs[j]?.map (seenInput coverage script index j) := by
  rw [List.getElem?_mapIdx]

theorem viewInputs_eq (t : HashType) (code : List Script.Operation) (index : Nat)
    (inputs : List Input) :
    viewInputs t code index inputs =
      let seen := inputs.mapIdx
        (seenInput t.coverage (Script.encode (withoutSeparators code)) index)
      if t.anyoneCanPay then (seen.drop index).take 1 else seen := rfl

/-- Only the signed input is left where others may be added. -/
theorem viewInputs_anyoneCanPay {t : HashType} (h : t.anyoneCanPay = true)
    (code : List Script.Operation) {index : Nat} {inputs : List Input} {a : Input}
    (ha : inputs[index]? = some a) :
    viewInputs t code index inputs =
      [{ a with script := Script.encode (withoutSeparators code) }] := by
  simp only [viewInputs_eq, h, if_true]
  rw [List.take_one, List.head?_drop, getElem?_seen, ha]
  simp [seenInput]

theorem mapIdx_eq_mapIdx_iff {α β : Type} {f g : Nat → α → β} {xs ys : List α} :
    xs.mapIdx f = ys.mapIdx g ↔ xs.length = ys.length ∧
      ∀ j a b, xs[j]? = some a → ys[j]? = some b → f j a = g j b := by
  refine ⟨?_, ?_⟩
  · intro heq
    refine ⟨by simpa using congrArg List.length heq, fun j a b ha hb => ?_⟩
    have hj := congrArg (fun l : List β => l[j]?) heq
    simpa [ha, hb] using hj
  · intro hgiven
    obtain ⟨hlen, hsame⟩ := hgiven
    apply List.ext_getElem?
    intro j
    rw [List.getElem?_mapIdx, List.getElem?_mapIdx]
    by_cases hj : j < xs.length
    · have hj' : j < ys.length := hlen ▸ hj
      rw [List.getElem?_eq_getElem hj, List.getElem?_eq_getElem hj', Option.map_some,
        Option.map_some]
      exact congrArg some (hsame j _ _ (List.getElem?_eq_getElem hj) (List.getElem?_eq_getElem hj'))
    · have hj' : ¬j < ys.length := hlen ▸ hj
      rw [List.getElem?_eq_none (Nat.le_of_not_lt hj), List.getElem?_eq_none (Nat.le_of_not_lt hj')]
      rfl

theorem viewInputs_eq_iff {t : HashType} {index : Nat} {code₁ code₂ : List Script.Operation}
    {inputs₁ inputs₂ : List Input} {a b : Input} (ha : inputs₁[index]? = some a)
    (hb : inputs₂[index]? = some b) :
    viewInputs t code₁ index inputs₁ = viewInputs t code₂ index inputs₂ ↔
      ((a.prevout = b.prevout ∧ a.sequence = b.sequence) ∧
        Script.encode (withoutSeparators code₁) = Script.encode (withoutSeparators code₂)) ∧
      (t.anyoneCanPay = false → inputs₁.length = inputs₂.length ∧
        ∀ j a b, j ≠ index → inputs₁[j]? = some a → inputs₂[j]? = some b →
          a.prevout = b.prevout ∧ (t.coverage = .all → a.sequence = b.sequence)) := by
  cases hflag : t.anyoneCanPay with
  | true =>
    rw [viewInputs_anyoneCanPay hflag code₁ ha, viewInputs_anyoneCanPay hflag code₂ hb,
      List.singleton_inj, signedInput_inj]
    simp
  | false =>
    simp only [viewInputs_eq, hflag, Bool.false_eq_true, if_false, forall_const]
    rw [mapIdx_eq_mapIdx_iff]
    refine ⟨?_, ?_⟩
    · intro hgiven
      obtain ⟨hlen, hsame⟩ := hgiven
      have hsigned := hsame index a b ha hb
      simp only [seenInput, if_true] at hsigned
      refine ⟨signedInput_inj.1 hsigned, hlen, fun j x y hj hx hy => ?_⟩
      have hother := hsame j x y hx hy
      simp only [seenInput, if_neg hj] at hother
      exact blankInput_inj.1 hother
    · intro hgiven
      obtain ⟨hsigned, hlen, hothers⟩ := hgiven
      refine ⟨hlen, fun j x y hx hy => ?_⟩
      by_cases hj : j = index
      · subst j
        obtain rfl : a = x := Option.some.inj (ha.symm.trans hx)
        obtain rfl : b = y := Option.some.inj (hb.symm.trans hy)
        simp only [seenInput, if_true]
        exact signedInput_inj.2 hsigned
      · simp only [seenInput, if_neg hj]
        exact blankInput_inj.2 (hothers j x y hj hx hy)

/-! ## The outputs of a view -/

theorem take_one_drop {α : Type} (xs : List α) (n : Nat) :
    (xs.drop n).take 1 = xs[n]?.toList := by
  rw [List.take_one, List.head?_drop]

theorem viewOutputs_eq_iff {coverage : Coverage} {index : Nat} {outputs₁ outputs₂ : List Output} :
    viewOutputs coverage index outputs₁ = viewOutputs coverage index outputs₂ ↔
      (coverage = .single → outputs₁[index]? = outputs₂[index]?) ∧
      (coverage = .all → outputs₁ = outputs₂) := by
  cases coverage with
  | all => simp [viewOutputs]
  | none => simp [viewOutputs]
  | single =>
    simp only [viewOutputs, take_one_drop, List.append_cancel_left_eq, forall_const, reduceCtorEq,
      false_implies, and_true]
    cases outputs₁[index]? <;> cases outputs₂[index]? <;> simp

/-! ## The whole view -/

theorem mem_viewInputs {t : HashType} {code : List Script.Operation} {index : Nat}
    {inputs : List Input} {i : Input} (hi : i ∈ viewInputs t code index inputs) :
    i.script = [] ∨ i.script = Script.encode (withoutSeparators code) := by
  have hseen : i ∈ inputs.mapIdx
      (seenInput t.coverage (Script.encode (withoutSeparators code)) index) := by
    rw [viewInputs_eq] at hi
    dsimp only at hi
    split at hi
    · exact List.mem_of_mem_drop (List.mem_of_mem_take hi)
    · exact hi
  obtain ⟨j, hj, rfl⟩ := List.mem_mapIdx.1 hseen
  unfold seenInput
  split
  · exact .inr rfl
  · exact .inl rfl

theorem length_viewInputs_le (t : HashType) (code : List Script.Operation) (index : Nat)
    (inputs : List Input) : (viewInputs t code index inputs).length ≤ inputs.length := by
  rw [viewInputs_eq]
  dsimp only
  split
  · rw [List.length_take, List.length_drop, List.length_mapIdx]
    omega
  · rw [List.length_mapIdx]

theorem length_viewOutputs_le {coverage : Coverage} {index : Nat} {outputs : List Output}
    (h : coverage = .single → index < outputs.length) :
    (viewOutputs coverage index outputs).length ≤ outputs.length := by
  cases coverage with
  | all => simp [viewOutputs]
  | none => simp [viewOutputs]
  | single =>
    have hindex := h rfl
    simp only [viewOutputs, List.length_append, List.length_replicate, List.length_take,
      List.length_drop]
    omega

theorem mem_viewOutputs {coverage : Coverage} {index : Nat} {outputs : List Output} {o : Output}
    (ho : o ∈ viewOutputs coverage index outputs) : o = blankOutput ∨ o ∈ outputs := by
  cases coverage with
  | all => exact .inr ho
  | none => simp [viewOutputs] at ho
  | single =>
    rcases List.mem_append.1 ho with hblank | hown
    · exact .inl (List.eq_of_mem_replicate hblank)
    · exact .inr (List.mem_of_mem_drop (List.mem_of_mem_take hown))

/-- The transaction that is hashed for a signable input. -/
def view (tx : Transaction) (index : Nat) (code : List Script.Operation) (t : HashType) :
    Transaction :=
  { tx with
    inputs := viewInputs t code index tx.inputs
    outputs := viewOutputs t.coverage index tx.outputs }

theorem view?_of_signable {tx : Transaction} {index : Nat} {t : HashType}
    (h : Signable tx index t) (code : List Script.Operation) :
    view? tx index code t = some (view tx index code t) := by
  obtain ⟨hinput, houtput⟩ := h
  have hsingle : ¬(t.coverage = .single ∧ tx.outputs.length ≤ index) := by
    rwa [HashType.coverage_eq_single_iff]
  rw [view?, if_neg (Nat.not_le.2 hinput), if_neg hsingle]
  rfl

theorem view_fits {tx : Transaction} {index : Nat} {t : HashType} {code : List Script.Operation}
    (h : Signable tx index t) (hfits : tx.Fits)
    (hcode : (Script.encode (withoutSeparators code)).length < 2 ^ 64) :
    (view tx index code t).Fits := by
  refine ⟨?_, ?_⟩
  · refine ⟨Nat.lt_of_le_of_lt (length_viewInputs_le ..) hfits.inputs.1, fun i hi => ?_⟩
    unfold Input.Fits
    rcases mem_viewInputs hi with hscript | hscript
    · rw [hscript]
      exact Nat.two_pow_pos 64
    · rw [hscript]
      exact hcode
  · have hindex : t.coverage = .single → index < tx.outputs.length := by
      intro hsingle
      by_contra hshort
      exact h.2 ⟨(HashType.coverage_eq_single_iff t).1 hsingle, Nat.le_of_not_lt hshort⟩
    refine ⟨Nat.lt_of_le_of_lt (length_viewOutputs_le hindex) hfits.outputs.1, fun o ho => ?_⟩
    rcases mem_viewOutputs ho with rfl | hmem
    · exact Nat.two_pow_pos 64
    · exact hfits.outputs.2 o hmem

/-- Two views are the same exactly if all that the hash type covers is. -/
theorem view_eq_iff {tx₁ tx₂ : Transaction} {index : Nat} {code₁ code₂ : List Script.Operation}
    {t : HashType} (h₁ : Signable tx₁ index t) (h₂ : Signable tx₂ index t) :
    view tx₁ index code₁ t = view tx₂ index code₂ t ↔ Agree index t tx₁ tx₂ code₁ code₂ := by
  have ha := List.getElem?_eq_getElem h₁.1
  have hb := List.getElem?_eq_getElem h₂.1
  rw [view, view, Transaction.mk.injEq, viewInputs_eq_iff ha hb, viewOutputs_eq_iff,
    HashType.anyoneCanPay_eq_false_iff, HashType.coverage_eq_single_iff,
    HashType.coverage_eq_all_iff]
  refine ⟨?_, ?_⟩
  · intro hgiven
    obtain ⟨hversion, ⟨⟨hsigned, hcode⟩, hothers⟩, ⟨hsingle, hall⟩, hlockTime⟩ := hgiven
    refine ⟨hversion, hlockTime, ?_, hcode, ?_, ?_⟩
    · intro a b ha' hb'
      obtain rfl := Option.some.inj (ha.symm.trans ha')
      obtain rfl := Option.some.inj (hb.symm.trans hb')
      exact hsigned
    · intro hflag
      obtain ⟨hlen, hsame⟩ := hothers hflag
      refine ⟨hlen, fun j a b hj ha' hb' => ?_⟩
      obtain ⟨hprevout, hsequence⟩ := hsame j a b hj ha' hb'
      exact ⟨hprevout, fun hnone hsingle => hsequence ⟨hnone, hsingle⟩⟩
    · intro hnone
      split
      · exact hsingle ‹_›
      · exact hall ⟨hnone, ‹_›⟩
  · intro hgiven
    obtain ⟨hversion, hlockTime, hsigned, hcode, hothers, houtputs⟩ := hgiven
    refine ⟨hversion, ⟨⟨hsigned _ _ ha hb, hcode⟩, ?_⟩, ⟨?_, ?_⟩, hlockTime⟩
    · intro hflag
      obtain ⟨hlen, hsame⟩ := hothers hflag
      refine ⟨hlen, fun j a b hj ha' hb' => ?_⟩
      obtain ⟨hprevout, hsequence⟩ := hsame j a b hj ha' hb'
      exact ⟨hprevout, fun hall => hsequence hall.1 hall.2⟩
    · intro hsingle
      have hnone : t &&& 0x1f ≠ 2 := by
        rw [hsingle]
        decide
      simpa [hsingle] using houtputs hnone
    · intro hgiven
      obtain ⟨hnone, hsingle⟩ := hgiven
      simpa [hsingle] using houtputs hnone

theorem preimage?_of_signable {tx : Transaction} {index : Nat} {t : HashType}
    (h : Signable tx index t) (code : List Script.Operation) :
    preimage? tx index code t =
      some ((view tx index code t).encode ++ Bytes.ofNatLe 4 t.toNat) := by
  rw [preimage?, view?_of_signable h code]
  rfl

theorem viewInputs_withScripts (t : HashType) (code : List Script.Operation) (index : Nat)
    (script : Nat → Bytes) (tx : Transaction) :
    viewInputs t code index (tx.withScripts script).inputs = viewInputs t code index tx.inputs := by
  have hseen : ∀ (scriptCode : Bytes) (i : Nat) (input : Input),
      seenInput t.coverage scriptCode index i { input with script := script i } =
        seenInput t.coverage scriptCode index i input := fun _ _ _ => rfl
  rw [viewInputs_eq, viewInputs_eq, Transaction.withScripts, List.mapIdx_mapIdx]
  simp only [Function.comp_def, hseen]

/-- No unlocking script is hashed for a signature. -/
theorem preimage?_withScripts (tx : Transaction) (script : Nat → Bytes) (index : Nat)
    (code : List Script.Operation) (t : HashType) :
    preimage? (tx.withScripts script) index code t = preimage? tx index code t := by
  have hlen : (tx.withScripts script).inputs.length = tx.inputs.length := by
    simp [Transaction.withScripts]
  unfold preimage? view?
  rw [hlen, viewInputs_withScripts]
  rfl

/-- The byte strings that are hashed for two signatures of the input at `index` are equal if and
only if the hash types are, and all that they cover is. Unlocking scripts have no influence on the
digest. -/
theorem preimage_eq_iff_agree {index : Nat} {tx₁ tx₂ : Transaction}
    {code₁ code₂ : List Script.Operation} {t₁ t₂ : HashType}
    (fits₁ : tx₁.Fits) (fits₂ : tx₂.Fits)
    (short₁ : (Script.encode (withoutSeparators code₁)).length < 2 ^ 64)
    (short₂ : (Script.encode (withoutSeparators code₂)).length < 2 ^ 64)
    (signable₁ : Signable tx₁ index t₁) (signable₂ : Signable tx₂ index t₂) :
    (∃ p₁ p₂, digest tx₁ index code₁ t₁ = Digest.hash256 p₁ ∧
      digest tx₂ index code₂ t₂ = Digest.hash256 p₂ ∧
      preimage? tx₁ index code₁ t₁ = some p₁ ∧ preimage? tx₂ index code₂ t₂ = some p₂ ∧
      (p₁ = p₂ ↔ t₁ = t₂ ∧ Agree index t₁ tx₁ tx₂ code₁ code₂)) ∧
    ∀ (tx : Transaction) (script : Nat → Bytes) (i : Nat) (code : List Script.Operation)
      (t : HashType), digest (tx.withScripts script) i code t = digest tx i code t := by
  have h₁ := preimage?_of_signable signable₁ code₁
  have h₂ := preimage?_of_signable signable₂ code₂
  refine ⟨?_, ?_⟩
  · refine ⟨_, _, ?_, ?_, h₁, h₂, ?_⟩
    · rw [digest, h₁]
    · rw [digest, h₂]
    refine ⟨?_, ?_⟩
    · intro heq
      obtain ⟨hview, htype⟩ := Transaction.encode_append_inj
        (view_fits signable₁ fits₁ short₁) (view_fits signable₂ fits₂ short₂) heq
      obtain rfl := Bytes.ofNatLe_word32_inj.1 htype
      exact ⟨rfl, (view_eq_iff signable₁ signable₂).1 hview⟩
    · intro hgiven
      obtain ⟨rfl, hagree⟩ := hgiven
      rw [(view_eq_iff signable₁ signable₂).2 hagree]
  · intro tx script i code t
    unfold digest
    rw [preimage?_withScripts]

/-- A transaction with two inputs and two outputs, of which the second ones are fixed. -/
def secondFixed (index : UInt32) (script : Bytes) (value : Int64) : Transaction where
  version := 1
  inputs := [⟨⟨.one, index⟩, script, index⟩, ⟨⟨.one, 7⟩, script, 3⟩]
  outputs := [⟨value, script⟩, ⟨50, [0x51]⟩]
  lockTime := 0

theorem secondFixed_fits (index : UInt32) (script : Bytes) (value : Int64)
    (h : script.length < 2 ^ 64) : (secondFixed index script value).Fits := by
  constructor <;> simpa [secondFixed, Input.Fits, Output.Fits] using h

/-- With hash type 0x83 the other input, the other output, both unlocking scripts and separators may
differ. -/
theorem preimage_single_anyoneCanPay :
    ((secondFixed 0 [] 10).Fits ∧ (secondFixed 1 [0x51] 20).Fits) ∧
    (Signable (secondFixed 0 [] 10) 1 0x83 ∧ Signable (secondFixed 1 [0x51] 20) 1 0x83) ∧
    ∃ p, preimage? (secondFixed 0 [] 10) 1 [.bare .opCheckSig] 0x83 = some p ∧
      preimage? (secondFixed 1 [0x51] 20) 1 [.bare .opCodeSeparator, .bare .opCheckSig] 0x83 =
        some p := by
  have fits₁ := secondFixed_fits 0 [] 10 (by decide)
  have fits₂ := secondFixed_fits 1 [0x51] 20 (by decide)
  have signable₁ : Signable (secondFixed 0 [] 10) 1 0x83 := by
    constructor <;> decide
  have signable₂ : Signable (secondFixed 1 [0x51] 20) 1 0x83 := by
    constructor <;> decide
  have short₁ : (Script.encode (withoutSeparators [.bare .opCheckSig])).length < 2 ^ 64 := by decide
  have short₂ : (Script.encode (withoutSeparators
      [.bare .opCodeSeparator, .bare .opCheckSig])).length < 2 ^ 64 := by
    decide
  obtain ⟨p₁, p₂, -, -, h₁, h₂, hiff⟩ :=
    (preimage_eq_iff_agree fits₁ fits₂ short₁ short₂ signable₁ signable₂).1
  have heq : p₁ = p₂ := by
    refine hiff.2 ⟨rfl, rfl, rfl, ?_, by decide, fun hflag => ?_, fun _ => by decide⟩
    · intro a b ha hb
      cases ha
      cases hb
      exact ⟨rfl, rfl⟩
    · exact absurd hflag (by decide)
  exact ⟨⟨fits₁, fits₂⟩, ⟨signable₁, signable₂⟩, p₁, h₁, heq ▸ h₂⟩

end Signature

end ChainRules
