import ChainRules.Proofs.Chain.Stability
import ChainRules.Proofs.Codec.Payload

/-!
# Transactions of accepted blocks

A transaction is judged by the same rules in a block and on its own. In a block it may spend outputs
of the transactions before it, which the store has never seen; once the block is accepted these are
stored as well, and under their ids nothing else can be. So every transaction of an accepted block,
its coinbase apart, is accepted on its own from then on, and nothing is left to store.
-/

namespace ChainRules.Chain

theorem Candidate.exists_eq_block {candidate : Candidate} {b : Block}
    (h : .block b ∈ candidate.entries) : ∃ height, candidate = .block b height := by
  cases candidate with
  | transaction tx => simp [Candidate.entries] at h
  | block b' height =>
    obtain rfl : b = b' := by simpa [Candidate.entries, Block.entries] using h
    exact ⟨height, rfl⟩

theorem spentOutpoints_singleton {tx : Transaction} (hloose : tx.isCoinbase = false) :
    spentOutpoints [tx] = tx.inputs.map Input.prevout := by
  rw [spentOutpoints, List.flatMap_singleton, Transaction.spending, hloose]
  rfl

namespace Ledger

variable {l l' : Ledger} {pre : List Transaction} {tx : Transaction}

/-- What is offered to a transaction behind others is found in the store once these are stored. -/
theorem Grows.source?_of_offers (hgrows : l.Grows l')
    (hstored : ∀ tx ∈ pre, l'.store.get? tx.id = some (.transaction tx)) {id : Hash256}
    {source : Transaction} (h : l.Offers pre id source) : l'.source? [] id = some source := by
  have hfound : l'.store.get? id = some (.transaction source) := by
    rcases h with ⟨hpre, rfl⟩ | hold
    · exact hstored source hpre
    · exact hgrows.store _ _ hold
  exact Store.transaction?_eq_some_iff.2 hfound

theorem Grows.paired_of_spends (hgrows : l.Grows l')
    (hstored : ∀ tx ∈ pre, l'.store.get? tx.id = some (.transaction tx)) (h : l.Spends pre tx) :
    Paired (l'.source? []) tx := by
  intro i input hi
  obtain ⟨source, output, hoffers, hrest⟩ := h i input hi
  exact ⟨source, output, hgrows.source?_of_offers hstored hoffers, hrest⟩

/-- The judgement on a transaction of a block that keeps the rules is in its favour once all
transactions of the block are stored. -/
theorem Admits.judge_transaction {settings : Settings} {b : Block} {height : Nat}
    (h : l.Admits settings b height) (hgrows : l.Grows l')
    (hstored : ∀ tx ∈ b.transactions, l'.store.get? tx.id = some (.transaction tx))
    (htx : tx ∈ b.transactions) (hloose : tx.isCoinbase = false) (hfits : tx.Fits)
    (settings' : Settings) :
    l'.judge settings' (.transaction tx.encode) = .ok (.transaction tx) := by
  have hchecked := h.checked tx htx
  obtain ⟨pre, post, heq⟩ := List.append_of_mem htx
  have hpre : ∀ tx ∈ pre, l'.store.get? tx.id = some (.transaction tx) := by
    intro tx hmem
    apply hstored
    rw [heq]
    exact List.mem_append_left _ hmem
  have hspentOnce : (spentOutpoints [tx]).Nodup := by
    rw [spentOutpoints_singleton hloose]
    exact Transaction.prevouts_nodup_of_check hchecked
  exact judge_transaction_eq_ok_iff.2 ⟨tx, Transaction.decode_eq_ok_iff.2 ⟨hfits, rfl⟩, rfl,
    hchecked, hloose, hspentOnce, hgrows.paired_of_spends hpre (h.spends pre tx post heq)⟩

/-- Whatever is called for after a block was accepted, each of its transactions but the coinbase is
accepted on its own, with any settings, if no one cancels the call, and leaves the ledger exactly as
it is. -/
theorem accepted_loose (history further : List Call) (c : Call)
    (haccepted : ((after history).call c).1.verdict = .okay) {b : Block}
    (hb : .block b ∈ c.request.parts) {tx : Transaction} (htx : tx ∈ b.transactions)
    (hloose : tx.isCoinbase = false) (hshort : tx.encode.length < 2 ^ 64) (settings : Settings) :
    let later := after (history ++ c :: further)
    let loose : Call := ⟨settings, .transaction tx.encode, .never, .never⟩
    (later.call loose).1.verdict = .okay ∧ (later.call loose).2 = later := by
  intro later loose
  have hgrows : ((after history).call c).2.Grows later := Grows.after_call history further c
  obtain ⟨candidate, hjudged, -, -⟩ := kept_of_okay haccepted
  obtain ⟨hentries, hrules⟩ := judge_cases hjudged
  rw [← hentries] at hb
  obtain ⟨height, rfl⟩ := Candidate.exists_eq_block hb
  have hadmits : (after history).Admits c.settings b height := hrules
  have hstored : ∀ tx ∈ b.transactions, later.store.get? tx.id = some (.transaction tx) := by
    intro tx hmem
    have hpart : .transaction tx ∈ c.request.parts := by
      rw [← hentries]
      exact List.mem_append_left _ (List.mem_map_of_mem hmem)
    exact hgrows.store _ _ ((stored_of_okay haccepted).2.1 _ hpart)
  have hjudged' : later.judge settings (.transaction tx.encode) = .ok (.transaction tx) :=
    hadmits.judge_transaction ((Grows.call _ c).trans hgrows) hstored htx hloose
      (Transaction.fits_of_length hshort) settings
  have hkept : later.keep (.transaction tx) = (.ok (), later) :=
    keep_of_found (List.forall_mem_singleton.2 (hstored tx htx)) nofun
  exact call_of_kept ⟨rfl, rfl⟩ hjudged' hkept

end Ledger

/-! ## A block that spends its own coinbase -/

/-- A transaction that spends the output of the sample coinbase. -/
def sampleSpend : Transaction where
  version := 1
  inputs := [⟨⟨sampleCoinbase.id, 0⟩, [], 0⟩]
  outputs := [⟨20, [0x51]⟩]
  lockTime := 0

/-- A block of both, with a nonce that brings its id below the target. -/
def samplePair : Block where
  header :=
    ⟨1, .zero, Merkle.parent sampleCoinbase.id sampleSpend.id, 0, Target.easiestBits, 1⟩
  transactions := [sampleCoinbase, sampleSpend]

namespace Ledger

/-- The call that offers the block of both. -/
def samplePairCall : Call :=
  ⟨.standard, .block samplePair, .never, .never⟩

/-- The spent output was never stored before the block, and is found in the store after it. -/
theorem accepted_loose_pair :
    ((after []).call samplePairCall).1.verdict = .okay ∧
      ((after [samplePairCall]).call
        ⟨.standard, .transaction sampleSpend.encode, .never, .never⟩).1.verdict = .okay := by
  have haccepted : ((after []).call samplePairCall).1.verdict = .okay := by decide +kernel
  have hb : .block samplePair ∈ samplePairCall.request.parts :=
    List.mem_append_right _ List.mem_cons_self
  have htx : sampleSpend ∈ samplePair.transactions := List.mem_cons_of_mem _ List.mem_cons_self
  have hloose : sampleSpend.isCoinbase = false := by decide +kernel
  have hshort : sampleSpend.encode.length < 2 ^ 64 := by decide +kernel
  obtain ⟨hverdict, -⟩ :=
    accepted_loose [] [] samplePairCall haccepted hb htx hloose hshort .standard
  rw [List.nil_append] at hverdict
  exact ⟨haccepted, hverdict⟩

end Ledger

end ChainRules.Chain
