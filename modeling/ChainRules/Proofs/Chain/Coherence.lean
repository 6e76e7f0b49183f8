import ChainRules.Proofs.Chain.Contents
import ChainRules.Proofs.Chain.Judgement

/-!
# Coherence of store and height index

The store and the height index are written separately, and storing may stop half-way, yet they
always fit together: the recorded ids are those of the stored blocks, each block stands right above
its predecessor and is stored with its transactions, and whatever a stored transaction spends is
stored as well. This holds after every history of calls, and no assumption on ids is needed: where
two entries share one, storing stops before it does harm.
-/

namespace ChainRules.Chain

namespace Ledger

/-- Following predecessors from the block under an id reaches one without a predecessor in so many
steps. -/
inductive Descends (l : Ledger) : Hash256 → Nat → Prop where
  | bottom {id : Hash256} {b : Block} (stored : l.store.get? id = some (.block b))
      (first : b.header.previous = .zero) : l.Descends id 0
  | above {id : Hash256} {b : Block} {n : Nat} (stored : l.store.get? id = some (.block b))
      (next : b.header.previous ≠ .zero) (below : l.Descends b.header.previous n) :
      l.Descends id (n + 1)

/-- Store and height index fit together. -/
structure Coherent (l : Ledger) : Prop where
  keyed : l.store.Keyed
  heightKeys : (l.heights.entries.map Prod.fst).Nodup
  topped : l.heights.Topped
  recorded : ∀ id, (∃ height, l.heights.get? id = some height) ↔
    ∃ b, l.store.get? id = some (.block b)
  placed : ∀ id b height, l.store.get? id = some (.block b) → l.heights.get? id = some height →
    l.Placed b.header height
  work : ∀ id b, l.store.get? id = some (.block b) → b.header.hasWork = .ok true
  merkleRoot : ∀ id b, l.store.get? id = some (.block b) →
    Merkle.rootOf (b.transactions.map Transaction.id) = .ok b.header.merkleRoot
  transactions : ∀ id b, l.store.get? id = some (.block b) → ∀ tx ∈ b.transactions,
    l.store.get? tx.id = some (.transaction tx)
  sources : ∀ id tx, l.store.get? id = some (.transaction tx) → ∀ i ∈ tx.spending, ∃ source,
    l.store.get? i.prevout.hash = some (.transaction source) ∧
      i.prevout.index.toNat < source.outputs.length

theorem coherent_empty : Coherent empty where
  keyed := Store.keyed_empty
  heightKeys := List.nodup_nil
  topped := Heights.topped_empty
  recorded _ := ⟨nofun, nofun⟩
  placed _ _ _ h := by cases h
  work _ _ h := by cases h
  merkleRoot _ _ h := by cases h
  transactions _ _ h := by cases h
  sources _ _ h := by cases h

/-- A place stays what it is while entries and heights are added. -/
theorem Placed.mono {l l' : Ledger} {header : Header} {height : Nat} (h : l.Placed header height)
    (hstore : l'.store.Extends l.store)
    (hheights : ∀ id n, l.heights.get? id = some n → l'.heights.get? id = some n) :
    l'.Placed header height := by
  rcases h with hbottom | ⟨hnext, b, below, hstored, hrecorded, rfl⟩
  · exact .inl hbottom
  · exact .inr ⟨hnext, b, below, hstore _ _ hstored, hheights _ _ hrecorded, rfl⟩

theorem Placed.unique {l : Ledger} {header : Header} {m n : Nat} (hm : l.Placed header m)
    (hn : l.Placed header n) : m = n := by
  rcases hm with ⟨hzero, rfl⟩ | ⟨hnext, b, below, -, hrecorded, rfl⟩
  · rcases hn with ⟨-, rfl⟩ | ⟨hnext, -⟩
    · rfl
    · exact absurd hzero hnext
  · rcases hn with ⟨hzero, -⟩ | ⟨-, b', below', -, hrecorded', rfl⟩
    · exact absurd hzero hnext
    · rw [hrecorded, Option.some.injEq] at hrecorded'
      rw [hrecorded']

namespace Coherent

variable {l : Ledger} {store : Store}

/-- A transaction is added whose sources are stored. -/
theorem putTransaction (h : l.Coherent) {tx : Transaction}
    (hput : l.store.put (.transaction tx) = .ok store)
    (hsources : ∀ i ∈ tx.spending, ∃ source,
      l.store.get? i.prevout.hash = some (.transaction source) ∧
        i.prevout.index.toNat < source.outputs.length) :
    Coherent { l with store := store } := by
  have hblock : ∀ id b, store.get? id = some (.block b) ↔ l.store.get? id = some (.block b) := by
    intro id b
    simp [Store.get?_put_iff hput]
  have hextends := Store.extends_put hput
  refine ⟨h.keyed.put hput, h.heightKeys, h.topped, ?_, ?_, ?_, ?_, ?_, ?_⟩
  · intro id
    rw [h.recorded]
    exact exists_congr fun b => (hblock id b).symm
  · intro id b height hb hheight
    exact (h.placed id b height ((hblock id b).1 hb) hheight).mono hextends fun _ _ hn => hn
  · exact fun id b hb => h.work id b ((hblock id b).1 hb)
  · exact fun id b hb => h.merkleRoot id b ((hblock id b).1 hb)
  · exact fun id b hb tx htx => hextends _ _ (h.transactions id b ((hblock id b).1 hb) tx htx)
  · intro id tx' htx' i hi
    rcases (Store.get?_put_iff hput).1 htx' with hold | ⟨hnew, -⟩
    · obtain ⟨source, hsource, hindex⟩ := h.sources id tx' hold i hi
      exact ⟨source, hextends _ _ hsource, hindex⟩
    · cases hnew
      obtain ⟨source, hsource, hindex⟩ := hsources i hi
      exact ⟨source, hextends _ _ hsource, hindex⟩

/-- A block is added in its place, after its transactions, and its height with it. -/
theorem addBlock (h : l.Coherent) {b : Block} {height : Nat} {heights : Heights}
    (hput : l.store.put (.block b) = .ok store)
    (hrecord : l.heights.record b.id height = .ok heights)
    (hplaced : l.Placed b.header height) (hwork : b.header.hasWork = .ok true)
    (hroot : Merkle.rootOf (b.transactions.map Transaction.id) = .ok b.header.merkleRoot)
    (htxs : ∀ tx ∈ b.transactions, l.store.get? tx.id = some (.transaction tx)) :
    Coherent ⟨store, heights⟩ := by
  have hextends := Store.extends_put hput
  have hheights : ∀ id n, heights.get? id = some n ↔
      l.heights.get? id = some n ∨ (n = height ∧ id = b.id) :=
    fun _ _ => Heights.get?_record_iff hrecord
  -- a block of the new store is one of the old store or the one that is added
  have hblock : ∀ {id b'}, store.get? id = some (.block b') →
      l.store.get? id = some (.block b') ∨ (b' = b ∧ id = b.id) := by
    intro id b' hb'
    simpa using (Store.get?_put_iff hput).1 hb'
  have htransaction : ∀ id tx, store.get? id = some (.transaction tx) →
      l.store.get? id = some (.transaction tx) := by
    intro id tx htx
    simpa using (Store.get?_put_iff hput).1 htx
  have hself : store.get? b.id = some (.block b) := Store.get?_put_self hput
  refine ⟨h.keyed.put hput, Heights.nodup_keys_record h.heightKeys hrecord, h.topped.record hrecord,
    fun id => ⟨?_, ?_⟩, ?_, ?_, ?_, ?_, ?_⟩
  · intro hgiven
    obtain ⟨n, hn⟩ := hgiven
    rcases (hheights id n).1 hn with hold | ⟨-, rfl⟩
    · obtain ⟨b', hb'⟩ := (h.recorded id).1 ⟨n, hold⟩
      exact ⟨b', hextends _ _ hb'⟩
    · exact ⟨b, hself⟩
  · intro hgiven
    obtain ⟨b', hb'⟩ := hgiven
    rcases hblock hb' with hold | ⟨-, rfl⟩
    · obtain ⟨n, hn⟩ := (h.recorded id).2 ⟨b', hold⟩
      exact ⟨n, (hheights id n).2 (.inl hn)⟩
    · exact ⟨height, (hheights _ _).2 (.inr ⟨rfl, rfl⟩)⟩
  · intro id b' n hb' hn
    refine Placed.mono (l := l) ?_ hextends fun id n hn => (hheights id n).2 (.inl hn)
    rcases (hheights id n).1 hn with hold | ⟨rfl, rfl⟩
    · -- an id that had a height had a block, and storing did not replace it
      obtain ⟨b'', hb''⟩ := (h.recorded id).1 ⟨n, hold⟩
      have hsame := hextends _ _ hb''
      rw [hb', Option.some.injEq, Entry.block.injEq] at hsame
      rw [← hsame] at hb''
      exact h.placed id b' n hb'' hold
    · rw [hself, Option.some.injEq, Entry.block.injEq] at hb'
      rw [← hb']
      exact hplaced
  · intro id b' hb'
    rcases hblock hb' with hold | ⟨rfl, -⟩
    · exact h.work id b' hold
    · exact hwork
  · intro id b' hb'
    rcases hblock hb' with hold | ⟨rfl, -⟩
    · exact h.merkleRoot id b' hold
    · exact hroot
  · intro id b' hb' tx htx
    rcases hblock hb' with hold | ⟨rfl, -⟩
    · exact hextends _ _ (h.transactions id b' hold tx htx)
    · exact hextends _ _ (htxs tx htx)
  · intro id tx htx i hi
    obtain ⟨source, hsource, hindex⟩ := h.sources id tx (htransaction id tx htx) i hi
    exact ⟨source, hextends _ _ hsource, hindex⟩

/-- The height of a block that was stored can be recorded: if the block is new its id has no height
yet, and otherwise the height is the one that it has. -/
theorem record_ok (h : l.Coherent) {b : Block} {height : Nat}
    (hput : l.store.put (.block b) = .ok store) (hplaced : l.Placed b.header height) :
    ∃ heights, l.heights.record b.id height = .ok heights := by
  rcases Store.put_eq_ok_iff.1 hput with ⟨hnew, -⟩ | ⟨hold, -⟩
  · have hunrecorded : l.heights.get? b.id = none := by
      rw [Option.eq_none_iff_forall_ne_some]
      intro n hn
      obtain ⟨b', hb'⟩ := (h.recorded b.id).1 ⟨n, hn⟩
      rw [Entry.id_block, hb'] at hnew
      cases hnew
    exact ⟨_, Heights.record_eq_ok_iff.2 (.inl ⟨hunrecorded, rfl⟩)⟩
  · obtain ⟨n, hn⟩ := (h.recorded b.id).2 ⟨b, hold⟩
    have hheight : n = height := (h.placed b.id b n hold hn).unique hplaced
    exact ⟨l.heights, Heights.record_eq_ok_iff.2 (.inr ⟨by rw [hn, hheight], rfl⟩)⟩

/-- Transactions are stored one after the other, each after its sources. Wherever storing stops,
what was stored so far fits together. -/
theorem putAll_transactions {heights : Heights} (l₀ : Ledger) (rest done : List Transaction)
    (h : Coherent ⟨store, heights⟩) (hextends : store.Extends l₀.store)
    (hdone : ∀ tx ∈ done, store.get? tx.id = some (.transaction tx))
    (hspends : ∀ pre tx post, rest = pre ++ tx :: post → l₀.Spends (done ++ pre) tx) :
    Coherent ⟨(store.putAll (rest.map .transaction)).2, heights⟩ := by
  induction rest generalizing store done with
  | nil => exact h
  | cons tx rest ih =>
    obtain ⟨hfirst, hrest⟩ :=
      (forall_split_cons_iff (P := fun pre tx => l₀.Spends (done ++ pre) tx)).1 hspends
    rw [List.append_nil] at hfirst
    -- a source is among `done`, which are stored by now, or it was stored from the start
    have hsources : ∀ i ∈ tx.spending, ∃ source,
        store.get? i.prevout.hash = some (.transaction source) ∧
          i.prevout.index.toNat < source.outputs.length := by
      intro i hi
      obtain ⟨j, hj⟩ := List.getElem?_of_mem hi
      obtain ⟨source, output, hoffers, houtput, -⟩ := hfirst j i hj
      refine ⟨source, ?_, (List.getElem?_eq_some_iff.1 houtput).1⟩
      rcases hoffers with ⟨hpre, hid⟩ | hstored
      · rw [← hid]
        exact hdone source hpre
      · exact hextends _ _ hstored
    rw [List.map_cons, Store.putAll]
    cases hput : store.put (.transaction tx) with
    | error fault => exact h
    | ok t =>
      refine ih (done ++ [tx]) (h.putTransaction hput hsources)
        ((Store.extends_put hput).trans hextends) (fun tx' htx' => ?_) fun pre tx' post heq => ?_
      · rcases List.mem_append.1 htx' with hold | hnew
        · exact Store.extends_put hput _ _ (hdone tx' hold)
        · rw [List.mem_singleton.1 hnew]
          exact Store.get?_put_self hput
      · rw [List.append_assoc]
        exact hrest pre tx' post heq

/-- Whatever becomes of a candidate, store and height index fit together after it; and once all of
it is stored its height is recorded. -/
theorem keep (h : l.Coherent) {settings : Settings} {r : Request} {candidate : Candidate}
    (hjudged : l.judge settings r = .ok candidate) :
    (l.keep candidate).2.Coherent ∧
      ((l.store.putAll candidate.entries).1 = .ok () → (l.keep candidate).1 = .ok ()) := by
  cases candidate with
  | transaction tx =>
    have hspends : l.Spends [] tx := (judge_cases hjudged).2
    have hcoherent := putAll_transactions l [tx] [] h (.refl _) nofun <|
      (forall_split_cons_iff (P := fun pre tx => l.Spends ([] ++ pre) tx)).2
        ⟨hspends, fun pre tx' post heq => by simp at heq⟩
    rw [List.map_singleton] at hcoherent
    unfold Ledger.keep
    dsimp only [Candidate.entries]
    cases hputAll : l.store.putAll [.transaction tx] with
    | mk result store =>
      rw [hputAll] at hcoherent
      cases result with
      | error fault => exact ⟨hcoherent, nofun⟩
      | ok u => exact ⟨hcoherent, fun _ => rfl⟩
  | block b height =>
    have hadmits : l.Admits settings b height := (judge_cases hjudged).2
    have hcoherent := putAll_transactions l b.transactions [] h (.refl _) nofun
      fun pre tx post heq => hadmits.spends pre tx post heq
    have hextends := l.store.extends_putAll (b.transactions.map .transaction)
    have hstored : (l.store.putAll (b.transactions.map .transaction)).1 = .ok () →
        ∀ tx ∈ b.transactions, (l.store.putAll (b.transactions.map .transaction)).2.get? tx.id =
          some (.transaction tx) :=
      fun hall tx htx => Store.get?_putAll hall (List.mem_map_of_mem htx)
    unfold Ledger.keep
    dsimp only [Candidate.entries, Block.entries]
    rw [Store.putAll_append]
    cases hputAll : l.store.putAll (b.transactions.map .transaction) with
    | mk result store =>
      rw [hputAll] at hcoherent hextends hstored
      cases result with
      | error fault => exact ⟨hcoherent, nofun⟩
      | ok u =>
        -- all transactions are stored; what is left is the block, and then its height
        have hplaced : Placed ⟨store, l.heights⟩ b.header height :=
          hadmits.placed.mono hextends fun _ _ hn => hn
        dsimp only [Store.putAll]
        cases hput : store.put (.block b) with
        | error fault => exact ⟨hcoherent, nofun⟩
        | ok store' =>
          obtain ⟨heights, hrecord⟩ := hcoherent.record_ok hput hplaced
          dsimp only at hrecord ⊢
          rw [hrecord]
          have hadded := hcoherent.addBlock hput hrecord hplaced hadmits.work hadmits.merkleRoot
            (hstored rfl)
          exact ⟨hadded, fun _ => rfl⟩

theorem serve (h : l.Coherent) (settings : Settings) (r : Request) :
    (l.serve settings r).2.Coherent := by
  unfold Ledger.serve
  cases hjudged : l.judge settings r with
  | error fault => exact h
  | ok candidate => exact (h.keep hjudged).1

theorem call (h : l.Coherent) (c : Call) : (l.call c).2.Coherent := by
  rcases l.call_cases c with ⟨-, -, hsame⟩ | ⟨-, hserved⟩
  · rw [hsame]
    exact h
  · rw [hserved]
    exact h.serve c.settings c.request

end Coherent

theorem coherent_after (history : List Call) : (after history).Coherent :=
  after_induction coherent_empty (fun _ c h => h.call c) history

namespace Coherent

variable {l : Ledger} {id : Hash256} {height n : Nat}

/-- A block descends as far as its height says. -/
theorem descends (h : l.Coherent) (hrecorded : l.heights.get? id = some height) :
    l.Descends id height := by
  induction height using Nat.strong_induction_on generalizing id with
  | _ height ih =>
    obtain ⟨b, hb⟩ := (h.recorded id).1 ⟨height, hrecorded⟩
    rcases h.placed id b height hb hrecorded with ⟨hzero, rfl⟩ | ⟨hnext, -, below, -, hbelow, rfl⟩
    · exact .bottom hb hzero
    · exact .above hb hnext (ih below (Nat.lt_succ_self below) hbelow)

/-- A block descends no other way. -/
theorem height_of_descends (h : l.Coherent) (hdescends : l.Descends id n)
    (hrecorded : l.heights.get? id = some height) : n = height := by
  induction hdescends generalizing height with
  | bottom stored first =>
    rcases h.placed _ _ _ stored hrecorded with ⟨-, rfl⟩ | ⟨hnext, -⟩
    · rfl
    · exact absurd first hnext
  | above stored next below ih =>
    rcases h.placed _ _ _ stored hrecorded with ⟨hzero, -⟩ | ⟨-, -, m, -, hm, rfl⟩
    · exact absurd hzero next
    · rw [ih hm]

theorem tip_eq_none_iff (h : l.Coherent) :
    l.heights.tip = none ↔ ∀ id, l.heights.get? id = none := by
  rw [h.topped.none_iff]
  refine ⟨?_, ?_⟩
  · intro hentries id
    rw [Heights.get?, hentries]
    rfl
  · intro hnone
    rw [List.eq_nil_iff_forall_not_mem]
    rintro ⟨id, n⟩ hmem
    have hfound : l.heights.get? id = some n := underKey_of_mem h.heightKeys hmem
    rw [hnone id] at hfound
    cases hfound

/-- The tip is recorded, and no height is greater. -/
theorem tip_greatest (h : l.Coherent) (htip : l.heights.tip = some (id, height)) :
    l.heights.get? id = some height ∧ ∀ other n, l.heights.get? other = some n → n ≤ height := by
  obtain ⟨before, after, hentries, hbefore, hafter⟩ := h.topped.first _ htip
  refine ⟨?_, ?_⟩
  · apply underKey_of_mem h.heightKeys
    rw [hentries]
    exact List.mem_append_right _ List.mem_cons_self
  · intro other n hn
    have hmem : (other, n) ∈ l.heights.entries := mem_of_underKey hn
    rw [hentries] at hmem
    rcases List.mem_append.1 hmem with hmem | hmem
    · exact (hbefore _ hmem).le
    · rcases List.mem_cons.1 hmem with heq | hmem
      · rw [(Prod.mk.inj heq).2]
      · exact hafter _ hmem

/-- What is recorded is not above the tip. -/
theorem le_tip_of_recorded (h : l.Coherent) (hrecorded : l.heights.get? id = some height) :
    ∃ top, l.heights.tip = some top ∧ height ≤ top.2 := by
  cases htip : l.heights.tip with
  | none =>
    rw [h.tip_eq_none_iff.1 htip] at hrecorded
    cases hrecorded
  | some top => exact ⟨top, rfl, (h.tip_greatest htip).2 id height hrecorded⟩

/-- The tip is not above that of a ledger with the same heights. -/
theorem le_tip_of_same {l' : Ledger} (h : l.Coherent) (h' : l'.Coherent)
    (hsame : ∀ id, l.heights.get? id = l'.heights.get? id) {top : Hash256 × Nat}
    (htip : l.heights.tip = some top) : ∃ top', l'.heights.tip = some top' ∧ top.2 ≤ top'.2 := by
  obtain ⟨hrecorded, -⟩ := h.tip_greatest htip
  rw [hsame] at hrecorded
  exact h'.le_tip_of_recorded hrecorded

/-- Where the heights are the same, the tips are equally high. -/
theorem tip_height_eq {l' : Ledger} (h : l.Coherent) (h' : l'.Coherent)
    (hsame : ∀ id, l.heights.get? id = l'.heights.get? id) :
    l.heights.tip.map Prod.snd = l'.heights.tip.map Prod.snd := by
  have hback : ∀ top, l'.heights.tip = some top → ∃ top', l.heights.tip = some top' ∧
      top.2 ≤ top'.2 := fun _ => h'.le_tip_of_same h fun id => (hsame id).symm
  cases htip : l.heights.tip with
  | none =>
    cases htip' : l'.heights.tip with
    | none => rfl
    | some top' =>
      obtain ⟨_, hsome, -⟩ := hback top' htip'
      rw [htip] at hsome
      cases hsome
  | some top =>
    obtain ⟨top', htip', hle⟩ := h.le_tip_of_same h' hsame htip
    obtain ⟨_, hsome, hge⟩ := hback top' htip'
    rw [htip, Option.some.injEq] at hsome
    subst hsome
    rw [htip', Option.map_some, Option.map_some, le_antisymm hle hge]

end Coherent

/-- After every history of calls the store and the height index fit together: in particular the
number of steps from a recorded block down to one without a predecessor is its height, and the tip
is a recorded block above which there is none. -/
theorem history_coherent (history : List Call) :
    (after history).Coherent ∧
      (∀ id height, (after history).heights.get? id = some height →
        ∀ n, (after history).Descends id n ↔ n = height) ∧
      ((after history).heights.tip = none ↔ ∀ id, (after history).heights.get? id = none) ∧
      ∀ tip height, (after history).heights.tip = some (tip, height) →
        (after history).heights.get? tip = some height ∧
          ∀ id n, (after history).heights.get? id = some n → n ≤ height := by
  have h := coherent_after history
  refine ⟨h, fun id height hrecorded n => ⟨fun hn => h.height_of_descends hn hrecorded, ?_⟩,
    h.tip_eq_none_iff, fun tip height htip => h.tip_greatest htip⟩
  rintro rfl
  exact h.descends hrecorded

end Ledger

end ChainRules.Chain
