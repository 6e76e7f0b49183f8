import ChainRules.Proofs.Chain.Atomicity

/-!
# Cancelled calls

A token may be cancelled at any moment of a call. Either the call notices in time, answers that it
was cancelled and leaves the ledger alone, or nothing of the cancellation can be seen. Once the
first write is due it is too late: storing does not look at the token.
-/

namespace ChainRules.Chain

/-- The call with a token that no one cancels. -/
def Call.calm (c : Call) : Call :=
  { c with token := .never, triggers := .never }

namespace Ledger

/-- The calls come to one verdict and leave one ledger behind. -/
structure Agree (l : Ledger) (c c' : Call) : Prop where
  verdict : (l.call c).1.verdict = (l.call c').1.verdict
  ledger : (l.call c).2 = (l.call c').2

/-- The token is alive when the first write is due, or when the call is refused before any write. -/
def AliveToWrite (l : Ledger) (c : Call) : Prop :=
  ∃ result s, c.request.examine c.settings (l.session c) = outcome s result ∧
    s.token.isCancelled = false

/-- A call that its token does not stop agrees with the calm one, which no token stops. -/
theorem agree_calm {l : Ledger} {c : Call}
    (hverdict : (l.call c).1.verdict = verdictOf (l.serve c.settings c.request).1)
    (hledger : (l.call c).2 = (l.serve c.settings c.request).2) : l.Agree c c.calm := by
  have hcalm : c.calm.Undisturbed := ⟨rfl, rfl⟩
  obtain ⟨hverdict', hledger'⟩ := l.call_undisturbed hcalm
  exact ⟨hverdict.trans hverdict'.symm, hledger.trans hledger'.symm⟩

/-- What the caller's token can do to a call is to stop it without a trace before the first write;
a token that is alive until then, or that is cancelled by a write, does nothing. -/
theorem cancellation_transparent (l : Ledger) (c : Call) :
    (l.Agree c c.calm ∨ ((l.call c).1.verdict = .cancelled ∧ (l.call c).2 = l)) ∧
      (l.AliveToWrite c → l.Agree c c.calm) ∧
      (c.token = .never → c.triggers.beforeLookup = none → c.triggers.afterLookup = none →
        l.Agree c c.calm) := by
  obtain ⟨t, hstop, hdisturbed, hcancelled⟩ | ⟨hverdict, hledger⟩ := l.call_examined c
  · refine ⟨.inr hcancelled, ?_, ?_⟩
    · intro halive
      obtain ⟨result, s, hexamined, halive⟩ := halive
      rw [hstop] at hexamined
      have hsame : t = s := by
        cases result with
        | ok candidate => cases hexamined
        | error fault =>
          injection hexamined
      rw [← hsame, hdisturbed.cancelled] at halive
      cases halive
    · intro htoken hbefore hafter
      exact absurd ⟨htoken, hbefore, hafter⟩ hdisturbed.not_undisturbed
  · have hagree := agree_calm hverdict hledger
    exact ⟨.inl hagree, fun _ => hagree, fun _ _ _ => hagree⟩

/-- The token is cancelled by the first write, and the block is accepted all the same. -/
theorem cancellation_transparent_first_write :
    let c : Call := { sampleCall with triggers := ⟨none, none, some 1⟩ }
    (Ledger.empty.call c).1.verdict = .okay ∧
      (Ledger.empty.call c).2 = (Ledger.empty.call sampleCall).2 := by
  intro c
  have hcalm : c.calm = sampleCall := rfl
  have hagree := (cancellation_transparent .empty c).2.2 rfl rfl rfl
  rw [hcalm] at hagree
  have hokay : (Ledger.empty.call sampleCall).1.verdict = .okay := by decide +kernel
  exact ⟨hagree.verdict.trans hokay, hagree.ledger⟩

end Ledger

end ChainRules.Chain
