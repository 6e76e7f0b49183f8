import ChainRules.Proofs.Chain.Atomicity

/-!
# Acceptance

A payload is accepted if and only if it is the written form of a block that keeps the rules. That it
is accepted once it keeps them takes more than the stages of validation: what is stored so far must
not stand in its way, which is so because store and height index fit together.
-/

namespace ChainRules.Chain

namespace Ledger

/-- Where ids are distinct, only one transaction is offered under an id. -/
theorem Coherent.offers_unique {l : Ledger} (h : l.Coherent) {b : Block}
    (hids : DistinctIds (l.store.items ++ b.entries)) {id : Hash256} {source source' : Transaction}
    (hoffers : l.Offers b.transactions id source) (hoffers' : l.Offers b.transactions id source') :
    source = source' := by
  have hentry : ∀ {tx}, l.Offers b.transactions id tx →
      .transaction tx ∈ l.store.items ++ b.entries ∧ tx.id = id := by
    rintro tx (⟨htx, hid⟩ | hstored)
    · refine ⟨List.mem_append_right _ (List.mem_append_left _ ?_), hid⟩
      exact List.mem_map_of_mem htx
    · refine ⟨List.mem_append_left _ ?_, h.keyed.id_eq hstored⟩
      exact List.mem_map_of_mem (f := Prod.snd) (mem_of_underKey hstored)
  obtain ⟨hmem, hid⟩ := hentry hoffers
  obtain ⟨hmem', hid'⟩ := hentry hoffers'
  have hsame := hids _ hmem _ hmem' (hid.trans hid'.symm)
  cases hsame
  rfl

/-- A call that no one cancels ends well if and only if the judgement is in favour of its request.
-/
theorem Coherent.okay_iff_judged {l : Ledger} (h : l.Coherent) {c : Call} (hc : c.Undisturbed)
    (hids : DistinctIds (l.store.items ++ c.request.parts)) :
    (l.call c).1.verdict = .okay ↔ ∃ candidate, l.judge c.settings c.request = .ok candidate := by
  rw [(l.call_undisturbed hc).1, verdictOf_eq_okay_iff]
  unfold Ledger.serve
  cases hjudged : l.judge c.settings c.request with
  | error fault => simp
  | ok candidate => simp [h.keep_ok hjudged hids]

/-- What is judged in favour of is accepted and kept, where ids are distinct. -/
theorem Coherent.call_of_judged {l : Ledger} (h : l.Coherent) {c : Call} (hc : c.Undisturbed)
    {candidate : Candidate} (hjudged : l.judge c.settings c.request = .ok candidate)
    (hids : DistinctIds (l.store.items ++ c.request.parts)) :
    (l.call c).1.verdict = .okay ∧ (l.keep candidate).1 = .ok () ∧
      (l.call c).2 = (l.keep candidate).2 := by
  have hokay := (h.okay_iff_judged hc hids).2 ⟨candidate, hjudged⟩
  obtain ⟨candidate', hjudged', hkept, hledger⟩ := kept_of_okay hokay
  rw [hjudged, Except.ok.injEq] at hjudged'
  subst hjudged'
  exact ⟨hokay, hkept, hledger⟩

theorem Coherent.judged_block_iff {l : Ledger} (h : l.Coherent) {settings : Settings} {b : Block}
    (hids : DistinctIds (l.store.items ++ b.entries)) :
    (∃ candidate, l.judge settings (.block b) = .ok candidate) ↔
      ∃ height, l.Admits settings b height := by
  refine ⟨?_, ?_⟩
  · rintro ⟨candidate, hjudged⟩
    obtain ⟨height, hplaced, hjudgedAt⟩ := judge_block_eq_ok_iff.1 hjudged
    exact ⟨height, admits_of_judge hplaced hjudgedAt⟩
  · rintro ⟨height, hadmits⟩
    exact ⟨_, judge_of_admits hadmits fun id a a' => h.offers_unique hids⟩

/-- After every history, a payload whose validation no one cancels is accepted if and only if it is
not too long and the written form of a block that keeps the rules, provided that no two different
entries among the stored ones, the block and its transactions share an id. -/
theorem payload_okay_iff_admits (history : List Call) (settings : Settings) (payload : Bytes)
    (hids : DistinctIds ((after history).store.items ++ (Request.payload payload).parts)) :
    ((after history).call ⟨settings, .payload payload, .never, .never⟩).1.verdict = .okay ↔
      payload.length ≤ settings.maxBlockSize ∧ ∃ b height, b.Fits ∧ payload = b.encode ∧
        (after history).Admits settings b height := by
  have h := coherent_after history
  rw [h.okay_iff_judged ⟨rfl, rfl⟩ hids]
  simp only [judge_payload_eq_ok_iff]
  have hblock : ∀ b, b.Fits → payload = b.encode →
      ((∃ candidate, (after history).judge settings (.block b) = .ok candidate) ↔
        ∃ height, (after history).Admits settings b height) := by
    intro b hfits heq
    refine h.judged_block_iff ?_
    rw [Request.parts, Block.decode_eq_ok_iff.2 ⟨hfits, heq⟩] at hids
    exact hids
  refine ⟨?_, ?_⟩
  · rintro ⟨candidate, hsize, b, hfits, heq, hjudged⟩
    obtain ⟨height, hadmits⟩ := (hblock b hfits heq).1 ⟨candidate, hjudged⟩
    exact ⟨hsize, b, height, hfits, heq, hadmits⟩
  · rintro ⟨hsize, b, height, hfits, heq, hadmits⟩
    obtain ⟨candidate, hjudged⟩ := (hblock b hfits heq).2 ⟨height, hadmits⟩
    exact ⟨candidate, hsize, b, hfits, heq, hjudged⟩

end Ledger

/-! ## A block on top of another -/

/-- The coinbase of a second block, whose output is opened by the item 3. -/
def sampleLock : Transaction where
  version := 1
  inputs := [⟨⟨.zero, 0xffffffff⟩, [], 0⟩]
  outputs := [⟨50, [0x53, 0x87]⟩]
  lockTime := 0

/-- A transaction that spends the outputs of both coinbases, the second one's with a script. -/
def sampleJoin (script : Bytes) : Transaction where
  version := 1
  inputs := [⟨⟨sampleCoinbase.id, 0⟩, [], 0⟩, ⟨⟨sampleLock.id, 0⟩, script, 0⟩]
  outputs := [⟨100, [0x51]⟩]
  lockTime := 0

/-- A block on top of the sample block, with a nonce that brings its id below the target for either
script below. Of the outputs that it spends one is in the store and one in the block. -/
def sampleSecond (script : Bytes) : Block where
  header := ⟨1, sampleBlock.id, Merkle.parent sampleLock.id (sampleJoin script).id, 0,
    Target.easiestBits, 5⟩
  transactions := [sampleLock, sampleJoin script]

namespace Ledger

/-- After the sample block the second one keeps the rules at height one if its script brings the item
3, and breaks them at every height if it brings the item 4. -/
theorem payload_okay_iff_admits_sample :
    (after [sampleCall]).Admits .standard (sampleSecond [0x53]) 1 ∧
      ∀ height, ¬(after [sampleCall]).Admits .standard (sampleSecond [0x54]) height := by
  -- all that is computed, at once, so that every hash is computed once
  obtain ⟨hbelow, hlinked, hrun⟩ :
      (after [sampleCall]).heights.get? sampleBlock.id = some 0 ∧ sampleBlock.id ≠ .zero ∧
        ∀ script ∈ [[0x53], [0x54]],
          let payload := (sampleSecond script).encode
          let call : Call := ⟨.standard, .payload payload, .never, .never⟩
          DistinctIds ((after [sampleCall]).store.items ++ (Request.payload payload).parts) ∧
            Block.decode payload = .ok (sampleSecond script) ∧
            payload.length ≤ Settings.standard.maxBlockSize ∧
            (((after [sampleCall]).call call).1.verdict = .okay ↔ script = [0x53]) := by
    decide +kernel
  have hiff : ∀ script ∈ [[0x53], [0x54]], script = [0x53] ↔
      ∃ height, (after [sampleCall]).Admits .standard (sampleSecond script) height := by
    intro script hscript
    obtain ⟨hids, hread, hsize, hverdict⟩ := hrun script hscript
    obtain ⟨hfits, -⟩ := Block.decode_eq_ok_iff.1 hread
    rw [← hverdict, payload_okay_iff_admits [sampleCall] .standard _ hids]
    refine ⟨?_, fun hgiven => ?_⟩
    · rintro ⟨-, b, height, hfits', heq, hadmits⟩
      have hb := Block.decode_eq_ok_iff.2 ⟨hfits', heq⟩
      rw [hread, Except.ok.injEq] at hb
      rw [hb]
      exact ⟨height, hadmits⟩
    · obtain ⟨height, hadmits⟩ := hgiven
      exact ⟨hsize, _, height, hfits, rfl, hadmits⟩
  refine ⟨?_, fun height hadmits => ?_⟩
  · obtain ⟨height, hadmits⟩ := (hiff [0x53] List.mem_cons_self).1 rfl
    obtain ⟨hzero, -⟩ | ⟨-, -, below, -, hheight, rfl⟩ := hadmits.placed
    · exact absurd hzero hlinked
    · obtain rfl : below = 0 := Option.some.inj (hheight.symm.trans hbelow)
      exact hadmits
  · have hscript := (hiff [0x54] (List.mem_cons_of_mem _ List.mem_cons_self)).2 ⟨height, hadmits⟩
    exact absurd hscript (by decide)

end Ledger

end ChainRules.Chain
