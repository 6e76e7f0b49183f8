import ChainRules.Proofs.Chain.Coherence

/-!
# All or nothing

Storing goes entry by entry and cannot be undone, and the height is recorded after it. Still a call
either leaves the ledger as it was or adds its whole candidate, provided that no two different
entries share an id: as store and height index fit together, nothing that comes after the last poll
can fail.
-/

namespace ChainRules.Chain

namespace Ledger

/-- What was kept without a failure is found. -/
theorem found_of_keep {l : Ledger} {candidate : Candidate} (h : (l.keep candidate).1 = .ok ()) :
    (∀ e ∈ candidate.entries, (l.keep candidate).2.store.get? e.id = some e) ∧
      ∀ b height, candidate = .block b height →
        (l.keep candidate).2.heights.get? b.id = some height := by
  rcases l.keep_cases candidate with ⟨fault, heq⟩ | ⟨hstored, heights, heq, hheights⟩
  · rw [heq] at h
    cases h
  · rw [heq]
    refine ⟨fun e he => Store.get?_putAll hstored he, fun b height hcandidate => ?_⟩
    subst hcandidate
    exact Heights.get?_record_self hheights

/-- Nothing that is done for a candidate after the last poll can fail, where ids are distinct. -/
theorem Coherent.keep_ok {l : Ledger} (h : l.Coherent) {settings : Settings} {r : Request}
    {candidate : Candidate} (hjudged : l.judge settings r = .ok candidate)
    (hids : DistinctIds (l.store.items ++ r.parts)) : (l.keep candidate).1 = .ok () := by
  refine (h.keep hjudged).2 (Store.putAll_of_distinctIds h.keyed ?_)
  rw [(judge_cases hjudged).1]
  exact hids

/-- A call that does not end well leaves the ledger as it was. -/
theorem Coherent.unchanged {l : Ledger} (h : l.Coherent) {c : Call}
    (hids : DistinctIds (l.store.items ++ c.request.parts))
    (hverdict : (l.call c).1.verdict ≠ .okay) : (l.call c).2 = l := by
  rcases l.call_cases c with ⟨-, -, hsame⟩ | ⟨hserved, hledger⟩
  · exact hsame
  · rw [hserved] at hverdict
    rw [hledger]
    unfold Ledger.serve at hverdict ⊢
    cases hjudged : l.judge c.settings c.request with
    | error fault => rfl
    | ok candidate =>
      rw [hjudged] at hverdict
      exact absurd ((verdictOf_eq_okay_iff _).2 (h.keep_ok hjudged hids)) hverdict

/-- A call that ends well has stored all parts of its request and recorded the height of a block. -/
theorem stored_of_okay {l : Ledger} {c : Call} (hverdict : (l.call c).1.verdict = .okay) :
    c.request.parts ≠ [] ∧ (∀ e ∈ c.request.parts, (l.call c).2.store.get? e.id = some e) ∧
      ∀ b, .block b ∈ c.request.parts → ∃ height, l.Placed b.header height ∧
        (l.call c).2.heights.get? b.id = some height := by
  obtain ⟨candidate, hjudged, hkept, hledger⟩ := kept_of_okay hverdict
  obtain ⟨hentries, hcandidate⟩ := judge_cases hjudged
  obtain ⟨hstored, hheight⟩ := found_of_keep hkept
  rw [← hentries, hledger]
  cases candidate with
  | transaction tx =>
    refine ⟨List.cons_ne_nil _ _, hstored, fun b hb => ?_⟩
    simp [Candidate.entries] at hb
  | block b height =>
    refine ⟨by simp [Candidate.entries, Block.entries], hstored, fun b' hb' => ?_⟩
    obtain rfl : b' = b := by simpa [Candidate.entries, Block.entries] using hb'
    exact ⟨height, hcandidate.placed, hheight b' height rfl⟩

/-- Once a request is examined, nothing that is left to do can fail. -/
theorem Coherent.persist_ok {l : Ledger} (h : l.Coherent) {c : Call}
    (hids : DistinctIds (l.store.items ++ c.request.parts)) {candidate : Candidate} {s : Session}
    (hexamined : c.request.examine c.settings (l.session c) = .ok candidate s) :
    ∃ t, candidate.persist s = .ok () t := by
  obtain ⟨t, hkeeps, hresult | ⟨hstop, -⟩⟩ := examine_observes c.settings c.request (l.session c)
  · change _ = outcome t (l.judge c.settings c.request) at hresult
    rw [hexamined] at hresult
    cases hjudged : l.judge c.settings c.request with
    | error fault =>
      rw [hjudged] at hresult
      cases hresult
    | ok candidate' =>
      rw [hjudged] at hresult
      cases hresult
      have hl : s.ledger = l := hkeeps.ledger
      obtain ⟨u, -, hpersist⟩ := persist_run candidate (s := s) hkeeps.readOnly
      rw [hl, h.keep_ok hjudged hids] at hpersist
      exact ⟨u, hpersist⟩
  · rw [hexamined] at hstop
    cases hstop

/-- After every history, a call that does not end well leaves the ledger as it was, whenever its
token is cancelled, and one that ends well has stored its whole request. The last clause says that
of the two steps into which a call falls the second cannot fail. -/
theorem call_all_or_nothing (history : List Call) (c : Call)
    (hids : DistinctIds ((after history).store.items ++ c.request.parts)) :
    (((after history).call c).1.verdict ≠ .okay → ((after history).call c).2 = after history) ∧
      (((after history).call c).1.verdict = .okay → c.request.parts ≠ [] ∧
        (∀ e ∈ c.request.parts, ((after history).call c).2.store.get? e.id = some e) ∧
        ∀ b, .block b ∈ c.request.parts → ∃ height, (after history).Placed b.header height ∧
          ((after history).call c).2.heights.get? b.id = some height) ∧
      ∀ candidate s, c.request.examine c.settings ((after history).session c) = .ok candidate s →
        ∃ t, candidate.persist s = .ok () t := by
  have h := coherent_after history
  exact ⟨h.unchanged hids, stored_of_okay, fun candidate s => h.persist_ok hids⟩

end Ledger

/-! ## A block without predecessor -/

/-- A coinbase with an output that every input opens. -/
def sampleCoinbase : Transaction where
  version := 1
  inputs := [⟨⟨.zero, 0xffffffff⟩, [], 0⟩]
  outputs := [⟨50, [0x51]⟩]
  lockTime := 0

/-- A block of that coinbase alone, with a nonce that brings its id below the target. -/
def sampleBlock : Block where
  header := ⟨1, .zero, sampleCoinbase.id, 0, Target.easiestBits, 2⟩
  transactions := [sampleCoinbase]

/-- The block is offered as a payload, by a caller who does not cancel. -/
def sampleCall : Call :=
  ⟨.standard, .payload sampleBlock.encode, .never, .never⟩

namespace Ledger

/-- The coinbase of the sample block is found after the block was offered to an empty ledger. -/
theorem call_all_or_nothing_sample :
    ((after []).call sampleCall).2.store.get? sampleCoinbase.id =
      some (.transaction sampleCoinbase) :=
  ((call_all_or_nothing [] sampleCall (by decide +kernel)).2.1 (by decide +kernel)).2.1
    (.transaction sampleCoinbase) (by decide +kernel)

end Ledger

end ChainRules.Chain
