import ChainRules.Proofs.Chain.Acceptance
import ChainRules.Proofs.Chain.Growth

/-!
# Independent blocks commute

Blocks that a ledger would each accept can be taken in any order, as none stands in the way of
another. What is found afterwards depends on which blocks were taken and not on their order, the
tip apart: of several blocks at the greatest height the first one taken is the tip.
-/

namespace ChainRules.Chain

/-- The request to take a block, by a caller who does not cancel. -/
def Call.ofBlock (settings : Settings) (b : Block) : Call :=
  ⟨settings, .block b, .never, .never⟩

theorem Call.ofBlock_undisturbed (settings : Settings) (b : Block) :
    (ofBlock settings b).Undisturbed :=
  ⟨rfl, rfl⟩

namespace Ledger

/-- The ledger after blocks were taken one after the other. -/
def afterBlocks (l : Ledger) (settings : Settings) (bs : List Block) : Ledger :=
  bs.foldl (fun l b => (l.call (.ofBlock settings b)).2) l

theorem afterBlocks_concat (l : Ledger) (settings : Settings) (bs : List Block) (b : Block) :
    l.afterBlocks settings (bs ++ [b]) =
      ((l.afterBlocks settings bs).call (.ofBlock settings b)).2 := by
  simp [afterBlocks]

/-- The tip once blocks were taken in order: the one before if none of them is higher, and otherwise
the first among those of the greatest height. The place of a block is the one that it has above the
ledger before. -/
def TipAfter (l : Ledger) (order : List Block) (tip : Option (Hash256 × Nat)) : Prop :=
  (tip = l.heights.tip ∧ ∀ b ∈ order, ∀ n, l.Placed b.header n →
      ∃ top, l.heights.tip = some top ∧ n ≤ top.2) ∨
    ∃ pre b post n, order = pre ++ b :: post ∧ l.Placed b.header n ∧ tip = some (b.id, n) ∧
      (∀ top, l.heights.tip = some top → top.2 < n) ∧
      (∀ b' ∈ pre, ∀ n', l.Placed b'.header n' → n' < n) ∧
      ∀ b' ∈ post, ∀ n', l.Placed b'.header n' → n' ≤ n

/-- The second ledger is the first one with blocks taken in order. -/
structure Takes (l : Ledger) (order : List Block) (l' : Ledger) : Prop where
  coherent : l'.Coherent
  grows : l.Grows l'
  store : ∀ id e, l'.store.get? id = some e ↔
    l.store.get? id = some e ∨ ∃ b ∈ order, e ∈ b.entries ∧ id = e.id
  heights : ∀ id n, l'.heights.get? id = some n ↔
    l.heights.get? id = some n ∨ ∃ b ∈ order, id = b.id ∧ l.Placed b.header n
  tip : l.TipAfter order l'.heights.tip

namespace TipAfter

variable {l : Ledger} {order : List Block} {b : Block} {n : Nat} {tip : Option (Hash256 × Nat)}

theorem nil (l : Ledger) : l.TipAfter [] l.heights.tip :=
  .inl ⟨rfl, nofun⟩

/-- No block that was taken is above the tip. -/
theorem le_of_mem (h : l.TipAfter order tip) (hb : b ∈ order) (hplaced : l.Placed b.header n) :
    ∃ top, tip = some top ∧ n ≤ top.2 := by
  rcases h with ⟨rfl, hnone⟩ | ⟨pre, b', post, n', rfl, hplaced', rfl, -, hpre, hpost⟩
  · exact hnone b hb n hplaced
  · refine ⟨_, rfl, ?_⟩
    rcases List.mem_append.1 hb with hb | hb
    · exact (hpre b hb n hplaced).le
    · rcases List.mem_cons.1 hb with rfl | hb
      · exact (hplaced.unique hplaced').le
      · exact hpost b hb n hplaced

/-- The tip before is not above the tip after. -/
theorem le_of_tip (h : l.TipAfter order tip) {top : Hash256 × Nat}
    (htop : l.heights.tip = some top) : ∃ top', tip = some top' ∧ top.2 ≤ top'.2 := by
  rcases h with ⟨rfl, -⟩ | ⟨pre, b', post, n', -, -, rfl, hlower, -, -⟩
  · exact ⟨top, htop, le_rfl⟩
  · exact ⟨_, rfl, (hlower top htop).le⟩

/-- One more block becomes the tip if it is higher than the tip so far. -/
theorem concat (h : l.TipAfter order tip) (hplaced : l.Placed b.header n) :
    l.TipAfter (order ++ [b]) (some (Heights.raised tip b.id n)) := by
  by_cases hhigher : ∀ top, tip = some top → top.2 < n
  · rw [Heights.raised_of_higher hhigher]
    refine .inr ⟨order, b, [], n, rfl, hplaced, rfl, ?_, ?_, nofun⟩
    · intro top htop
      obtain ⟨top', htop', hle⟩ := h.le_of_tip htop
      exact hle.trans_lt (hhigher top' htop')
    · intro b' hb' n' hplaced'
      obtain ⟨top', htop', hle⟩ := h.le_of_mem hb' hplaced'
      exact hle.trans_lt (hhigher top' htop')
  · push Not at hhigher
    obtain ⟨top, rfl, hle⟩ := hhigher
    have hlast : ∀ b' ∈ [b], ∀ n', l.Placed b'.header n' → n' ≤ top.2 := by
      intro b' hb' n' hplaced'
      rw [List.mem_singleton.1 hb'] at hplaced'
      rwa [hplaced'.unique hplaced]
    rw [Heights.raised_of_le hle]
    rcases h with ⟨htip, hnone⟩ | ⟨pre, b', post, n', rfl, hplaced', heq, hlower, hpre, hpost⟩
    · refine .inl ⟨htip, fun b' hb' n' hplaced' => ?_⟩
      rcases List.mem_append.1 hb' with hb' | hb'
      · exact hnone b' hb' n' hplaced'
      · exact ⟨top, htip.symm, hlast b' hb' n' hplaced'⟩
    · cases heq
      refine .inr ⟨pre, b', post ++ [b], n', by simp, hplaced', rfl, hlower, hpre, ?_⟩
      intro b'' hb'' n'' hplaced''
      rcases List.mem_append.1 hb'' with hb'' | hb''
      · exact hpost b'' hb'' n'' hplaced''
      · exact hlast b'' hb'' n'' hplaced''

end TipAfter

/-! ## Taking blocks in order -/

variable {l m : Ledger} {settings : Settings} {order bs : List Block} {b : Block}

theorem Takes.refl (h : l.Coherent) : l.Takes [] l where
  coherent := h
  grows := .refl l
  store := by simp
  heights := by simp
  tip := .nil l

/-- A block that is kept is one more that was taken. -/
theorem Takes.concat (h : l.Takes order m) {n : Nat} (hplaced : l.Placed b.header n)
    (hcoherent : (m.keep (.block b n)).2.Coherent) (hkept : (m.keep (.block b n)).1 = .ok ()) :
    l.Takes (order ++ [b]) (m.keep (.block b n)).2 := by
  have hgrows := h.grows.trans (.keep m (.block b n))
  rcases m.keep_cases (.block b n) with ⟨fault, heq⟩ | ⟨hstored, heights, heq, hrecord⟩
  · rw [heq] at hkept
    cases hkept
  · rw [heq] at hcoherent hgrows ⊢
    dsimp only at hrecord
    refine ⟨hcoherent, hgrows, fun id e => ?_, fun id n' => ?_, ?_⟩
    · rw [Store.get?_putAll_iff hstored, h.store]
      simp [Candidate.entries, or_and_right, exists_or, or_assoc]
    · have hsame : l.Placed b.header n' ↔ n' = n :=
        ⟨fun hplaced' => hplaced'.unique hplaced, fun heq => heq ▸ hplaced⟩
      rw [Heights.get?_record_iff hrecord, h.heights]
      simp [or_and_right, exists_or, or_assoc, hsame, and_comm]
    · rw [Heights.tip_record hrecord h.coherent.le_tip_of_recorded]
      exact h.tip.concat hplaced

/-- Blocks that the ledger would each accept: whichever of them were taken, another one is accepted
and is one more that was taken. -/
theorem Takes.call (h : l.Takes order m) (hl : l.Coherent)
    (hids : DistinctIds (l.store.items ++ bs.flatMap Block.entries)) (horder : order ⊆ bs)
    (hb : b ∈ bs) {candidate : Candidate} (hjudged : l.judge settings (.block b) = .ok candidate) :
    (m.call (.ofBlock settings b)).1.verdict = .okay ∧
      l.Takes (order ++ [b]) (m.call (.ofBlock settings b)).2 := by
  have hdistinct : DistinctIds (m.store.items ++ b.entries) := by
    refine hids.mono fun e he => ?_
    have hentries : ∀ b' ∈ bs, e ∈ b'.entries → e ∈ l.store.items ++ bs.flatMap Block.entries :=
      fun b' hb' he' => List.mem_append_right _ (List.mem_flatMap.2 ⟨b', hb', he'⟩)
    rcases List.mem_append.1 he with he | he
    · rw [h.coherent.keyed.mem_items_iff, h.store] at he
      rcases he with hold | ⟨b', hb', he', -⟩
      · exact List.mem_append_left _ (hl.keyed.mem_items_iff.2 hold)
      · exact hentries b' (horder hb') he'
    · exact hentries b hb he
  have hjudged' := hl.judge_mono h.grows hjudged
  obtain ⟨n, hplaced, hat⟩ := judge_block_eq_ok_iff.1 hjudged
  obtain ⟨rfl, -⟩ := judgeAt_eq_ok_iff.1 hat
  obtain ⟨hokay, hkept, hledger⟩ := h.coherent.call_of_judged (Call.ofBlock_undisturbed settings b)
    hjudged' hdistinct
  rw [hledger]
  exact ⟨hokay, h.concat hplaced (h.coherent.keep hjudged').1 hkept⟩

/-- Blocks that the ledger would each accept are taken in any order. -/
theorem Coherent.takes (h : l.Coherent)
    (hids : DistinctIds (l.store.items ++ bs.flatMap Block.entries))
    (hjudged : ∀ b ∈ bs, ∃ candidate, l.judge settings (.block b) = .ok candidate)
    (horder : order ⊆ bs) : l.Takes order (l.afterBlocks settings order) := by
  induction order using List.reverseRecOn with
  | nil => exact .refl h
  | append_singleton order b ih =>
    have hsub : order ⊆ bs := List.Subset.trans (List.subset_append_left _ _) horder
    have hb : b ∈ bs := horder (List.mem_append_right _ (List.mem_singleton_self b))
    obtain ⟨candidate, hcandidate⟩ := hjudged b hb
    rw [afterBlocks_concat]
    exact ((ih hsub).call h hids hsub hb hcandidate).2

/-- What is found after blocks were taken does not depend on their order, and neither does the
height of the tip. -/
theorem Takes.same {order' : List Block} {m' : Ledger} (h : l.Takes order m)
    (h' : l.Takes order' m') (hsame : ∀ b, b ∈ order ↔ b ∈ order') :
    (∀ id, m.store.get? id = m'.store.get? id) ∧ (∀ id, m.heights.get? id = m'.heights.get? id) ∧
      m.heights.tip.map Prod.snd = m'.heights.tip.map Prod.snd := by
  have hheights : ∀ id, m.heights.get? id = m'.heights.get? id := by
    intro id
    refine Option.ext fun n => ?_
    rw [h.heights, h'.heights]
    simp only [hsame]
  refine ⟨fun id => Option.ext fun e => ?_, hheights, h.coherent.tip_height_eq h'.coherent hheights⟩
  rw [h.store, h'.store]
  simp only [hsame]

/-- After every history, blocks that would each be accepted are accepted one after the other in
every order, provided that no two different entries among the stored ones, the blocks and their
transactions share an id. Every order leads to the same entries, the same heights and a tip of the
same height; the tip is the one before if no block is higher, and otherwise the first block taken
among those of the greatest height. -/
theorem independent_blocks_commute (history : List Call) (settings : Settings) (bs : List Block)
    (haccepted : ∀ b ∈ bs, ((after history).call (.ofBlock settings b)).1.verdict = .okay)
    (hids : DistinctIds ((after history).store.items ++ bs.flatMap Block.entries))
    (order : List Block) (horder : order.Perm bs) :
    let l := after history
    (∀ pre b post, order = pre ++ b :: post →
        ((l.afterBlocks settings pre).call (.ofBlock settings b)).1.verdict = .okay) ∧
      (∀ id, (l.afterBlocks settings order).store.get? id =
        (l.afterBlocks settings bs).store.get? id) ∧
      (∀ id, (l.afterBlocks settings order).heights.get? id =
        (l.afterBlocks settings bs).heights.get? id) ∧
      (l.afterBlocks settings order).heights.tip.map Prod.snd =
        (l.afterBlocks settings bs).heights.tip.map Prod.snd ∧
      l.TipAfter order (l.afterBlocks settings order).heights.tip := by
  intro l
  have hl : l.Coherent := coherent_after history
  have hjudged : ∀ b ∈ bs, ∃ candidate, l.judge settings (.block b) = .ok candidate := by
    intro b hb
    obtain ⟨candidate, hcandidate, -⟩ := kept_of_okay (haccepted b hb)
    exact ⟨candidate, hcandidate⟩
  have htaken : ∀ {order : List Block}, order ⊆ bs → l.Takes order (l.afterBlocks settings order) :=
    hl.takes hids hjudged
  have hinto := htaken horder.subset
  obtain ⟨hstore, hheights, htip⟩ := hinto.same (htaken (List.Subset.refl bs)) fun b => horder.mem_iff
  refine ⟨?_, hstore, hheights, htip, hinto.tip⟩
  intro pre b post heq
  have hb : b ∈ bs := horder.subset (heq ▸ List.mem_append_right _ List.mem_cons_self)
  have hpre : pre ⊆ bs := fun b' hb' => horder.subset (heq ▸ List.mem_append_left _ hb')
  obtain ⟨candidate, hcandidate⟩ := hjudged b hb
  exact ((htaken hpre).call hl hids hpre hb hcandidate).1

/-- Another block without predecessor, with the coinbase of the sample block. -/
def sampleTwin : Block :=
  { sampleBlock with header := { sampleBlock.header with nonce := 7 } }

/-- The two blocks without predecessor are taken in either order. -/
theorem independent_blocks_commute_twins :
    ((after []).afterBlocks .standard [sampleTwin, sampleBlock]).heights.tip.map Prod.snd =
      ((after []).afterBlocks .standard [sampleBlock, sampleTwin]).heights.tip.map Prod.snd :=
  (independent_blocks_commute [] .standard [sampleBlock, sampleTwin] (by decide +kernel)
    (by decide +kernel) [sampleTwin, sampleBlock] (.swap _ _ _)).2.2.2.1

end Ledger

end ChainRules.Chain
