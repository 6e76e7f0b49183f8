import ChainRules.Proofs.Chain.Growth
import ChainRules.Proofs.Chain.Transparency

/-!
# Acceptance is stable

What was accepted once is accepted again, however the ledger has grown since, and then there is
nothing left to do: every entry is found as it is and the height is recorded already.
-/

namespace ChainRules.Chain

/-- Storing entries that are there already does nothing. -/
theorem Store.putAll_of_found {s : Store} {es : List Entry}
    (h : ∀ e ∈ es, s.get? e.id = some e) : s.putAll es = (.ok (), s) := by
  induction es with
  | nil => rfl
  | cons e es ih =>
    obtain ⟨hfirst, hrest⟩ := List.forall_mem_cons.1 h
    rw [putAll, put_eq_ok_iff.2 (.inr ⟨hfirst, rfl⟩)]
    exact ih hrest

namespace Ledger

variable {l l' : Ledger}

/-- Keeping what is there already does nothing. -/
theorem keep_of_found {candidate : Candidate}
    (hstored : ∀ e ∈ candidate.entries, l.store.get? e.id = some e)
    (hheight : ∀ b height, candidate = .block b height → l.heights.get? b.id = some height) :
    l.keep candidate = (.ok (), l) := by
  unfold keep
  rw [Store.putAll_of_found hstored]
  cases candidate with
  | transaction tx => rfl
  | block b height =>
    have hrecorded := hheight b height rfl
    dsimp only
    rw [Heights.record_eq_ok_iff.2 (.inr ⟨hrecorded, rfl⟩)]

/-- Keeping a candidate once more does nothing. -/
theorem keep_again {candidate : Candidate} (hkept : (l.keep candidate).1 = .ok ())
    (hgrows : (l.keep candidate).2.Grows l') : l'.keep candidate = (.ok (), l') := by
  obtain ⟨hstored, hheight⟩ := found_of_keep hkept
  refine keep_of_found (fun e he => hgrows.store _ _ (hstored e he)) fun b height hcandidate => ?_
  exact hgrows.heights _ _ (hheight b height hcandidate)

/-- A call that no one cancels is accepted and changes nothing, if the judgement is in favour of a
candidate that is kept already. -/
theorem call_of_kept {c : Call} (hc : c.Undisturbed) {candidate : Candidate}
    (hjudged : l.judge c.settings c.request = .ok candidate)
    (hkept : l.keep candidate = (.ok (), l)) :
    (l.call c).1.verdict = .okay ∧ (l.call c).2 = l := by
  have hserved : l.serve c.settings c.request = (.ok (), l) := by
    unfold Ledger.serve
    rw [hjudged]
    exact hkept
  obtain ⟨hverdict, hsame⟩ := l.call_undisturbed hc
  rw [hserved] at hverdict hsame
  exact ⟨hverdict, hsame⟩

/-- Whatever was accepted and whatever is called for later, the same request is accepted again if no
one cancels it, and leaves the ledger exactly as it is. -/
theorem accepted_again (history further : List Call) (c : Call)
    (haccepted : ((after history).call c).1.verdict = .okay) :
    let later := after (history ++ c :: further)
    (later.call c.calm).1.verdict = .okay ∧ (later.call c.calm).2 = later := by
  intro later
  obtain ⟨candidate, hjudged, hkept, hledger⟩ := kept_of_okay haccepted
  have hgrows : ((after history).call c).2.Grows later := Grows.after_call history further c
  have hjudged' : later.judge c.settings c.request = .ok candidate :=
    (coherent_after history).judge_mono ((Grows.call _ c).trans hgrows) hjudged
  rw [hledger] at hgrows
  exact call_of_kept ⟨rfl, rfl⟩ hjudged' (keep_again hkept hgrows)

/-- The sample block is offered a second time. -/
theorem accepted_again_sample :
    ((after [sampleCall]).call sampleCall).2 = after [sampleCall] :=
  (accepted_again [] [] sampleCall (by decide +kernel)).2

end Ledger

end ChainRules.Chain
