import ChainRules.Proofs.Chain.Acceptance
import ChainRules.Proofs.Chain.Loose

/-!
# Loose transactions

A loose transaction takes the way of a block of one transaction: its inputs are looked through for
outputs of its own list, the store is asked for the rest, and it is stored like any other candidate.
What this amounts to is said without that way: every input opens an output of a stored transaction. An
input that refers to the transaction itself, to a block or to nothing finds none.
-/

namespace ChainRules.Chain

namespace Ledger

/-- The rules for a loose transaction that is to be accepted into a ledger. -/
structure AdmitsLoose (l : Ledger) (tx : Transaction) : Prop where
  checked : tx.check = .ok ()
  loose : tx.isCoinbase = false
  /-- Every input names an output of a stored transaction, and opens it. -/
  spends : ∀ i input, tx.inputs[i]? = some input → ∃ source output,
    l.store.get? input.prevout.hash = some (.transaction source) ∧
      source.outputs[input.prevout.index.toNat]? = some output ∧ tx.Opens i input output

variable {l : Ledger} {tx : Transaction}

/-- Without transactions before it, a transaction finds its sources in the store alone. -/
theorem paired_alone_iff (hloose : tx.isCoinbase = false) :
    Paired (l.source? []) tx ↔ ∀ i input, tx.inputs[i]? = some input → ∃ source output,
      l.store.get? input.prevout.hash = some (.transaction source) ∧
        source.outputs[input.prevout.index.toNat]? = some output ∧ tx.Opens i input output := by
  have hspending : tx.spending = tx.inputs := by
    rw [Transaction.spending, hloose]
    rfl
  have hsource : ∀ id source, l.source? [] id = some source ↔
      l.store.get? id = some (.transaction source) :=
    fun id source => Store.transaction?_eq_some_iff
  unfold Paired Finds
  simp only [hspending, hsource]

theorem judge_loose_iff {settings : Settings} {payload : Bytes} {candidate : Candidate} :
    l.judge settings (.transaction payload) = .ok candidate ↔
      ∃ tx, tx.Fits ∧ payload = tx.encode ∧ l.AdmitsLoose tx ∧ candidate = .transaction tx := by
  simp only [judge_transaction_eq_ok_iff, Transaction.decode_eq_ok_iff]
  constructor
  · rintro ⟨tx, ⟨hfits, heq⟩, hcandidate, hchecked, hloose, -, hpaired⟩
    exact ⟨tx, hfits, heq, ⟨hchecked, hloose, (paired_alone_iff hloose).1 hpaired⟩, hcandidate⟩
  · rintro ⟨tx, hfits, heq, hadmits, hcandidate⟩
    have hspentOnce : (spentOutpoints [tx]).Nodup := by
      rw [spentOutpoints_singleton hadmits.loose]
      exact Transaction.prevouts_nodup_of_check hadmits.checked
    exact ⟨tx, ⟨hfits, heq⟩, hcandidate, hadmits.checked, hadmits.loose, hspentOnce,
      (paired_alone_iff hadmits.loose).2 hadmits.spends⟩

/-- A loose transaction that is kept is put into the store, and no height is recorded. -/
theorem keep_loose (h : (l.keep (.transaction tx)).1 = .ok ()) :
    l.store.put (.transaction tx) = .ok (l.keep (.transaction tx)).2.store ∧
      (l.keep (.transaction tx)).2.heights = l.heights := by
  unfold keep Candidate.entries Store.putAll at h ⊢
  cases hput : l.store.put (.transaction tx) with
  | error fault =>
    rw [hput] at h
    cases h
  | ok store => exact ⟨rfl, rfl⟩

/-- After every history, the payload of a loose transaction whose validation no one cancels is
accepted if and only if it is the written form of a transaction that keeps the rules, provided that
no two different entries among the stored ones and the transaction share an id. Then the transaction
is found under its id, and all else is as it was; otherwise everything is. -/
theorem loose_okay_iff_admits (history : List Call) (settings : Settings) (payload : Bytes)
    (hids : DistinctIds ((after history).store.items ++ (Request.transaction payload).parts)) :
    let l := after history
    let served := l.call ⟨settings, .transaction payload, .never, .never⟩
    (served.1.verdict = .okay ↔ ∃ tx, tx.Fits ∧ payload = tx.encode ∧ l.AdmitsLoose tx) ∧
      (served.1.verdict = .okay → ∃ tx, tx.Fits ∧ payload = tx.encode ∧
        l.store.put (.transaction tx) = .ok served.2.store ∧
        (∀ id, served.2.store.get? id =
          if id = tx.id then some (.transaction tx) else l.store.get? id) ∧
        served.2.heights = l.heights) ∧
      (served.1.verdict ≠ .okay → served.2 = l) := by
  intro l served
  have h : l.Coherent := coherent_after history
  refine ⟨?_, fun hokay => ?_, h.unchanged hids⟩
  · rw [h.okay_iff_judged ⟨rfl, rfl⟩ hids]
    simp only [judge_loose_iff]
    constructor
    · rintro ⟨_, tx, hfits, heq, hadmits, -⟩
      exact ⟨tx, hfits, heq, hadmits⟩
    · rintro ⟨tx, hfits, heq, hadmits⟩
      exact ⟨_, tx, hfits, heq, hadmits, rfl⟩
  · obtain ⟨candidate, hjudged, hkept, hledger⟩ := kept_of_okay hokay
    obtain ⟨tx, hfits, heq, -, rfl⟩ := judge_loose_iff.1 hjudged
    obtain ⟨hput, hheights⟩ := keep_loose hkept
    rw [← hledger] at hput hheights
    exact ⟨tx, hfits, heq, hput, fun id => Store.get?_of_put hput id, hheights⟩

/-- The output of a coinbase is spent by a loose transaction, once a block has brought the coinbase. -/
theorem loose_okay_iff_admits_spend :
    ∃ tx, sampleSpend.encode = tx.encode ∧ (after [sampleCall]).AdmitsLoose tx := by
  have hexact :=
    loose_okay_iff_admits [sampleCall] .standard sampleSpend.encode (by decide +kernel)
  obtain ⟨tx, -, heq, hadmits⟩ := hexact.1.1 (by decide +kernel)
  exact ⟨tx, heq, hadmits⟩

end Ledger

end ChainRules.Chain
