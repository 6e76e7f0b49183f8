import ChainRules.Proofs.Chain.Coherence

/-!
# Growing ledgers

Calls only ever add to a ledger, and the tip only ever rises. A judgement in favour of a request is
not withdrawn when the ledger grows: places stay what they are, inputs find the sources that they
found before, and a block that has a predecessor was already measured against a tip.
-/

namespace ChainRules.Chain

namespace Ledger

/-- The second ledger has all that the first one has, and a tip that is not lower. -/
structure Grows (l l' : Ledger) : Prop where
  store : l'.store.Extends l.store
  heights : ∀ id n, l.heights.get? id = some n → l'.heights.get? id = some n
  tip : ∀ top, l.heights.tip = some top → ∃ top', l'.heights.tip = some top' ∧ top.2 ≤ top'.2

variable {l l' : Ledger}

namespace Grows

theorem refl (l : Ledger) : l.Grows l :=
  ⟨.refl l.store, fun _ _ hn => hn, fun top htop => ⟨top, htop, le_rfl⟩⟩

theorem trans {l'' : Ledger} (h : l.Grows l') (h' : l'.Grows l'') : l.Grows l'' := by
  refine ⟨h'.store.trans h.store, fun id n hn => h'.heights id n (h.heights id n hn), ?_⟩
  intro top htop
  obtain ⟨mid, hmid, hle⟩ := h.tip top htop
  obtain ⟨top', htop', hle'⟩ := h'.tip mid hmid
  exact ⟨top', htop', hle.trans hle'⟩

theorem storing {store : Store} (h : store.Extends l.store) : l.Grows { l with store := store } :=
  ⟨h, fun _ _ hn => hn, fun top htop => ⟨top, htop, le_rfl⟩⟩

theorem recording {id : Hash256} {height : Nat} {heights : Heights}
    (hr : l.heights.record id height = .ok heights) : l.Grows { l with heights := heights } :=
  ⟨.refl l.store, fun _ _ hn => (Heights.get?_record_iff hr).2 (.inl hn),
    fun _ htop => Heights.le_tip_record hr htop⟩

theorem keep (l : Ledger) (candidate : Candidate) : l.Grows (l.keep candidate).2 := by
  have hstored := storing (l := l) (l.store.extends_putAll candidate.entries)
  rcases l.keep_cases candidate with ⟨fault, heq⟩ | ⟨-, heights, heq, hheights⟩
  · rw [heq]
    exact hstored
  · rw [heq]
    cases candidate with
    | transaction tx =>
      rw [hheights]
      exact hstored
    | block b height => exact (recording hheights).trans (storing (l.store.extends_putAll _))

theorem serve (l : Ledger) (settings : Settings) (r : Request) :
    l.Grows (l.serve settings r).2 := by
  unfold Ledger.serve
  cases l.judge settings r with
  | error fault => exact refl l
  | ok candidate => exact keep l candidate

theorem call (l : Ledger) (c : Call) : l.Grows (l.call c).2 := by
  rcases l.call_cases c with ⟨-, -, hsame⟩ | ⟨-, hserved⟩
  · rw [hsame]
    exact refl l
  · rw [hserved]
    exact serve l c.settings c.request

/-- Whatever is called for later, what was there stays. -/
theorem after_append (history further : List Call) :
    (after history).Grows (after (history ++ further)) := by
  induction further using List.reverseRecOn with
  | nil =>
    rw [List.append_nil]
    exact refl _
  | append_singleton further c ih =>
    rw [← List.append_assoc, after_concat]
    exact ih.trans (call _ c)

theorem after_call (history further : List Call) (c : Call) :
    ((after history).call c).2.Grows (after (history ++ c :: further)) := by
  rw [← after_concat]
  have hlater := after_append (history ++ [c]) further
  rwa [List.append_assoc, List.singleton_append] at hlater

end Grows

/-! ## Judgements stay -/

/-- The source of an input stays the one that it is: transactions before it come first, and what is
stored under an id does not change. -/
theorem Grows.source? (h : l.Grows l') {pre : List Transaction} {id : Hash256} {tx : Transaction}
    (hsource : l.source? pre id = some tx) : l'.source? pre id = some tx := by
  unfold Ledger.source? at hsource ⊢
  rcases Option.or_eq_some_iff.1 hsource with hpre | ⟨hnone, hstored⟩
  · rw [hpre, Option.some_or]
  · rw [hnone, Option.none_or]
    exact Store.transaction?_eq_some_iff.2 (h.store _ _ (Store.transaction?_eq_some_iff.1 hstored))

theorem Grows.paired (h : l.Grows l') {pre : List Transaction} {tx : Transaction}
    (hpaired : Paired (l.source? pre) tx) : Paired (l'.source? pre) tx := by
  intro i input hi
  obtain ⟨source, output, hsource, hrest⟩ := hpaired i input hi
  exact ⟨source, output, h.source? hsource, hrest⟩

/-- A block that does not claim too much does not claim too much above a higher tip. If there was no
tip to measure it against, then it has no predecessor and is not measured at all. -/
theorem Coherent.claimable_mono (h : l.Coherent) (hgrows : l.Grows l') {settings : Settings}
    {b : Block} {height : Nat} (hplaced : l.Placed b.header height)
    (hclaimable : l.Claimable settings b) : l'.Claimable settings b := by
  intro lead tip' top' claimed hlead hnext htip' hclaimed
  obtain ⟨hzero, -⟩ | ⟨-, -, below, -, hbelow, -⟩ := hplaced
  · exact absurd hzero hnext
  · obtain ⟨top, htip, -⟩ := h.le_tip_of_recorded hbelow
    obtain ⟨_, hraised, hle⟩ := hgrows.tip top htip
    rw [htip', Option.some.injEq] at hraised
    subst hraised
    have hmeasured := hclaimable lead top.1 top.2 claimed hlead hnext htip hclaimed
    dsimp only at hle
    omega

/-- A judgement in favour of a request is kept up by every ledger that has grown from the one that
gave it. -/
theorem Coherent.judge_mono (h : l.Coherent) (hgrows : l.Grows l') {settings : Settings}
    {r : Request} {candidate : Candidate} (hjudged : l.judge settings r = .ok candidate) :
    l'.judge settings r = .ok candidate := by
  have hblock : ∀ b, l.judge settings (.block b) = .ok candidate →
      l'.judge settings (.block b) = .ok candidate := by
    intro b hb
    obtain ⟨height, hplaced, hat⟩ := judge_block_eq_ok_iff.1 hb
    obtain ⟨hcandidate, hclaimable, hwork, hstructure, hroot, hnodup, hpaired⟩ :=
      judgeAt_eq_ok_iff.1 hat
    refine judge_block_eq_ok_iff.2 ⟨height, hplaced.mono hgrows.store hgrows.heights, ?_⟩
    refine judgeAt_eq_ok_iff.2 ⟨hcandidate, h.claimable_mono hgrows hplaced hclaimable, hwork,
      hstructure, hroot, hnodup, fun pre tx post heq => ?_⟩
    obtain ⟨htotal, hpaired⟩ := hpaired pre tx post heq
    exact ⟨htotal, hgrows.paired hpaired⟩
  cases r with
  | payload bytes =>
    obtain ⟨hsize, b, hfits, heq, hb⟩ := judge_payload_eq_ok_iff.1 hjudged
    exact judge_payload_eq_ok_iff.2 ⟨hsize, b, hfits, heq, hblock b hb⟩
  | block b => exact hblock b hjudged
  | transaction bytes =>
    obtain ⟨tx, hdecode, hcandidate, hchecked, hloose, hnodup, hpaired⟩ :=
      judge_transaction_eq_ok_iff.1 hjudged
    exact judge_transaction_eq_ok_iff.2
      ⟨tx, hdecode, hcandidate, hchecked, hloose, hnodup, hgrows.paired hpaired⟩

end Ledger

end ChainRules.Chain
