import ChainRules.Proofs.Chain.Examination
import ChainRules.Proofs.Chain.SinglePass

/-!
# Resolving inputs

Resolving goes over a list of transactions twice, first to learn what the store has to be asked for
and then with the answers at hand. It comes to the same result as the single pass that asks for each
output in its turn.
-/

namespace ChainRules

namespace Chain

/-! ## The first pass -/

namespace Scan

variable {scan scan' : Scan}

/-- What one pass over some inputs leaves behind. -/
structure Passed (scan scan' : Scan) (inputs : List Input) : Prop where
  spent : scan'.spent = (inputs.map Input.prevout).reverse ++ scan.spent
  earlier : scan'.earlier = scan.earlier
  wanted : scan.wanted ⊆ scan'.wanted
  asked : ∀ i ∈ inputs, i.prevout.hash ∈ scan.earlier ∨ i.prevout.hash ∈ scan'.wanted

theorem input_eq_ok_iff {i : Input} :
    scan.input i = .ok scan' ↔ i.prevout ∉ scan.spent ∧ scan' = { scan with
      spent := i.prevout :: scan.spent
      wanted :=
        if i.prevout.hash ∈ scan.earlier ∨ i.prevout.hash ∈ scan.wanted then scan.wanted
        else scan.wanted ++ [i.prevout.hash] } := by
  unfold input
  dsimp only
  by_cases hspent : i.prevout ∈ scan.spent
  · simp [hspent]
  · simp [hspent, eq_comm]

theorem Passed.input {i : Input} (h : scan.input i = .ok scan') : Passed scan scan' [i] := by
  obtain ⟨hfresh, rfl⟩ := input_eq_ok_iff.1 h
  refine ⟨rfl, rfl, ?_, ?_⟩
  · dsimp only
    split
    · exact List.Subset.refl _
    · exact List.subset_append_left _ _
  · intro j hj
    rw [List.mem_singleton.1 hj]
    dsimp only
    split
    · assumption
    · exact .inr (List.mem_append_right _ (List.mem_singleton.2 rfl))

theorem Passed.append {scan'' : Scan} {is js : List Input} (h : Passed scan scan' is)
    (h' : Passed scan' scan'' js) : Passed scan scan'' (is ++ js) where
  spent := by rw [h'.spent, h.spent, List.map_append, List.reverse_append, List.append_assoc]
  earlier := h'.earlier.trans h.earlier
  wanted := List.Subset.trans h.wanted h'.wanted
  asked := by
    intro i hi
    rcases List.mem_append.1 hi with hi | hi
    · exact (h.asked i hi).imp_right fun hwanted => h'.wanted hwanted
    · rw [← h.earlier]
      exact h'.asked i hi

theorem passed_inputs {inputs : List Input} (h : inputs.foldlM input scan = .ok scan') :
    Passed scan scan' inputs := by
  induction inputs generalizing scan with
  | nil =>
    cases h
    exact ⟨rfl, rfl, List.Subset.refl _, fun _ h => by cases h⟩
  | cons i inputs ih =>
    rw [List.foldlM_cons, bind_eq_ok_iff] at h
    obtain ⟨mid, hi, hinputs⟩ := h
    exact (Passed.input hi).append (ih hinputs)

/-- Inputs are refused for the first output that is spent again. -/
theorem cause?_inputs (scan : Scan) (inputs : List Input) :
    cause? (inputs.foldlM input scan) =
      (firstRepeated? scan.spent (inputs.map Input.prevout)).map .spentTwice := by
  induction inputs generalizing scan with
  | nil => rfl
  | cons i inputs ih =>
    rw [List.foldlM_cons, List.map_cons, firstRepeated?]
    by_cases hspent : i.prevout ∈ scan.spent
    · have hrefused : scan.input i = .error (.spentTwice i.prevout) := if_pos hspent
      rw [hrefused, if_pos hspent]
      rfl
    · have htaken := input_eq_ok_iff.2 ⟨hspent, rfl⟩
      rw [htaken, if_neg hspent]
      exact ih _

theorem transaction_eq (scan : Scan) (t : Identified) :
    scan.transaction t =
      t.tx.spending.foldlM input scan >>= fun mid =>
        .ok { mid with earlier := t.id :: mid.earlier } := by
  unfold transaction Transaction.spending
  by_cases hcoinbase : t.tx.isCoinbase = true
  · simp only [hcoinbase, if_true]
    rfl
  · simp only [hcoinbase]
    rfl

theorem transaction_eq_ok_iff {t : Identified} :
    scan.transaction t = .ok scan' ↔
      ∃ mid, t.tx.spending.foldlM input scan = .ok mid ∧
        scan' = { mid with earlier := t.id :: mid.earlier } := by
  rw [transaction_eq, bind_eq_ok_iff]
  simp only [Except.ok.injEq, eq_comm]

/-- Transactions are refused for the first output that is spent again. -/
theorem cause?_transactions (scan : Scan) (txs : List Identified) :
    cause? (txs.foldlM transaction scan) =
      (firstRepeated? scan.spent (spentOutpoints (txs.map Identified.tx))).map .spentTwice := by
  induction txs generalizing scan with
  | nil => rfl
  | cons t txs ih =>
    rw [List.foldlM_cons, transaction_eq, List.map_cons, spentOutpoints_cons,
      firstRepeated?_append]
    have hinputs := cause?_inputs scan t.tx.spending
    cases hresult : t.tx.spending.foldlM input scan with
    | error cause =>
      rw [hresult] at hinputs
      obtain ⟨o, ho, rfl⟩ := Option.map_eq_some_iff.1 hinputs.symm
      rw [ho]
      rfl
    | ok mid =>
      rw [hresult] at hinputs
      have hnone := Option.map_eq_none_iff.1 hinputs.symm
      rw [hnone, Option.none_or, ← (passed_inputs hresult).spent]
      exact ih _

/-- What the transactions refer to is asked for, unless it was known before them or stands among
them. -/
theorem asked_transactions {txs : List Identified} (h : txs.foldlM transaction scan = .ok scan') :
    scan.wanted ⊆ scan'.wanted ∧
      ∀ pre t post, txs = pre ++ t :: post → ∀ i ∈ t.tx.spending, i.prevout.hash ∈ scan.earlier ∨
        i.prevout.hash ∈ pre.map Identified.id ∨ i.prevout.hash ∈ scan'.wanted := by
  induction txs generalizing scan with
  | nil =>
    cases h
    exact ⟨List.Subset.refl _, fun pre t post heq => by simp at heq⟩
  | cons t txs ih =>
    rw [List.foldlM_cons, bind_eq_ok_iff] at h
    obtain ⟨next, ht, htxs⟩ := h
    obtain ⟨mid, hinputs, rfl⟩ := transaction_eq_ok_iff.1 ht
    have hpassed := passed_inputs hinputs
    obtain ⟨hwanted, hasked⟩ := ih htxs
    refine ⟨List.Subset.trans hpassed.wanted hwanted, ?_⟩
    refine forall_split_cons_iff.2 ⟨fun i hi => ?_, fun pre t' post heq i hi => ?_⟩
    · exact (hpassed.asked i hi).imp_right fun hmid => .inr (hwanted hmid)
    · rcases hasked pre t' post heq i hi with hearlier | hpre | hask
      · rcases List.mem_cons.1 hearlier with hid | hearlier
        · exact .inr (.inl (by rw [hid]; exact List.mem_cons_self))
        · exact .inl (hpassed.earlier ▸ hearlier)
      · exact .inr (.inl (List.mem_cons_of_mem _ hpre))
      · exact .inr (.inr hask)

end Scan

theorem wantedIds_eq_ok_iff {txs : List Identified} {ids : List Hash256} :
    wantedIds txs = .ok ids ↔
      ∃ scan, txs.foldlM Scan.transaction .start = .ok scan ∧ scan.wanted = ids := by
  unfold wantedIds
  cases txs.foldlM Scan.transaction .start <;> simp [Functor.map, Except.map]

/-- The first pass fails exactly for an output that is spent again, and for the first such one. -/
theorem cause?_wantedIds (txs : List Identified) :
    cause? (wantedIds txs) =
      (firstRepeated? [] (spentOutpoints (txs.map Identified.tx))).map .spentTwice := by
  rw [wantedIds, cause?_map]
  exact Scan.cause?_transactions .start txs

/-- What an input refers to is asked for, unless a transaction before it has that id. -/
theorem mem_wantedIds {txs : List Identified} {ids : List Hash256} (h : wantedIds txs = .ok ids)
    {pre post : List Identified} {t : Identified} (heq : txs = pre ++ t :: post) {i : Input}
    (hi : i ∈ t.tx.spending) :
    i.prevout.hash ∈ pre.map Identified.id ∨ i.prevout.hash ∈ ids := by
  obtain ⟨scan, hscan, rfl⟩ := wantedIds_eq_ok_iff.1 h
  rcases (Scan.asked_transactions hscan).2 pre t post heq i hi with hnone | hmem
  · cases hnone
  · exact hmem

/-! ## The second pass -/

theorem Store.transactions_cons (s : Store) (id : Hash256) (ids : List Hash256) :
    s.transactions (id :: ids) =
      ((s.transaction? id).map fun tx => ⟨id, tx⟩).toList ++ s.transactions ids := by
  unfold transactions transaction?
  rw [List.map_cons, List.zip_cons_cons, List.filterMap_cons]
  cases s.get? id with
  | none => rfl
  | some e => cases e <;> rfl

theorem findTransaction?_transactions (s : Store) (ids : List Hash256) (id : Hash256) :
    findTransaction? (s.transactions ids) id = if id ∈ ids then s.transaction? id else none := by
  induction ids with
  | nil => rfl
  | cons first ids ih =>
    unfold findTransaction? at ih ⊢
    rw [Store.transactions_cons, List.find?_append, Option.map_or, ih]
    by_cases hid : id = first
    · subst hid
      cases s.transaction? id <;> simp
    · cases s.transaction? first <;> simp [hid, Ne.symm hid]

/-- Among the transactions before a place and the answers of the store, an id that was asked for
stands for the same transaction as at that place. -/
theorem findTransaction?_eq_sourceAt? {store : Store} {pre rest : List Identified}
    {ids : List Hash256} {id : Hash256} (h : id ∈ pre.map Identified.id ∨ id ∈ ids) :
    findTransaction? (pre ++ store.transactions ids) id =
      sourceAt? store (pre ++ rest) pre.length id := by
  have happend : findTransaction? (pre ++ store.transactions ids) id =
      ((pre.find? (·.id = id)).map Identified.tx).or
        (findTransaction? (store.transactions ids) id) := by
    simp only [findTransaction?, List.find?_append, Option.map_or]
  rw [happend, sourceAt?, List.take_left', findTransaction?_transactions]
  · by_cases hids : id ∈ ids
    · rw [if_pos hids]
    · obtain ⟨t, ht, rfl⟩ := List.mem_map.1 (h.resolve_right hids)
      have hsome : (pre.find? (·.id = t.id)).isSome :=
        List.find?_isSome.2 ⟨t, ht, decide_eq_true rfl⟩
      obtain ⟨source, hsource⟩ := Option.isSome_iff_exists.1 hsome
      rw [hsource, Option.map_some, Option.some_or, Option.some_or]
  · rfl

section SecondPass

variable {store : Store} {txs sources : List Identified} {tx : Transaction} {txIndex : Nat}

theorem resolveInputs_eq {inputs : List Input} (k : Nat)
    (h : ∀ input ∈ inputs, findTransaction? sources input.prevout.hash =
      sourceAt? store txs txIndex input.prevout.hash) :
    resolveInputs sources tx txIndex k inputs =
      (inputs.mapIdx fun j input => Demand.input tx txIndex (k + j) input.prevout).mapM
        (Demand.meet store txs) := by
  induction inputs generalizing k with
  | nil => rfl
  | cons input inputs ih =>
    obtain ⟨hfirst, hrest⟩ := List.forall_mem_cons.1 h
    have hbehind : resolveInputs sources tx txIndex (k + 1) inputs =
        (inputs.mapIdx fun j input => Demand.input tx txIndex (k + (j + 1)) input.prevout).mapM
          (Demand.meet store txs) := by
      simp only [ih (k + 1) hrest, Nat.add_assoc, Nat.add_comm 1]
    rw [resolveInputs, hbehind, spentOutput, hfirst, List.mapIdx_cons, List.mapM_cons, Demand.meet]
    cases sourceAt? store txs txIndex input.prevout.hash with
    | none => rfl
    | some source =>
      dsimp only
      cases source.outputs[input.prevout.index.toNat]? <;> rfl

theorem resolveTransaction_eq
    (h : ∀ input ∈ tx.spending, findTransaction? sources input.prevout.hash =
      sourceAt? store txs txIndex input.prevout.hash) :
    resolveTransaction sources txIndex tx =
      (Demand.ofTransaction txIndex tx).mapM (Demand.meet store txs) := by
  unfold resolveTransaction Demand.ofTransaction
  by_cases hcoinbase : tx.isCoinbase = true
  · rw [if_pos hcoinbase, if_pos hcoinbase, totalOutput?_eq, List.mapM_cons, Demand.meet]
    by_cases hrange : ∀ k ≤ tx.outputs.length, IsAmount (runningTotal tx.outputs k)
    · rw [if_pos hrange, if_pos hrange]
      rfl
    · rw [if_neg hrange, if_neg hrange]
      rfl
  · rw [Transaction.spending, if_neg hcoinbase] at h
    rw [if_neg hcoinbase, if_neg hcoinbase, resolveInputs_eq 0 h]
    simp only [Nat.zero_add]

/-- With the answers of the store at hand, the rest of a list is paired as in one pass. -/
theorem resolveAll_eq {fetched earlier rest : List Identified}
    (h : ∀ pre t post, rest = pre ++ t :: post → ∀ input ∈ t.tx.spending,
      findTransaction? (earlier ++ pre ++ fetched) input.prevout.hash =
        sourceAt? store (earlier ++ rest) (earlier ++ pre).length input.prevout.hash) :
    resolveAll fetched earlier rest =
      (rest.mapIdx fun i t => Demand.ofTransaction (earlier.length + i) t.tx).flatten.mapM
        (Demand.meet store (earlier ++ rest)) := by
  induction rest generalizing earlier with
  | nil => rfl
  | cons t rest ih =>
    obtain ⟨hfirst, hrest⟩ := forall_split_cons_iff.1 h
    simp only [List.append_nil] at hfirst
    -- the list as a whole stays the same while its front moves on by one transaction
    have hsplit : earlier ++ t :: rest = earlier ++ [t] ++ rest := by simp
    have hbehind : resolveAll fetched (earlier ++ [t]) rest =
        (rest.mapIdx fun i t => Demand.ofTransaction (earlier.length + (i + 1)) t.tx).flatten.mapM
          (Demand.meet store (earlier ++ t :: rest)) := by
      rw [ih]
      · rw [← hsplit]
        simp only [List.length_append, List.length_singleton, Nat.add_assoc, Nat.add_comm 1]
      · intro pre t' post heq input hinput
        rw [← hsplit, List.append_assoc earlier]
        exact hrest pre t' post heq input hinput
    rw [resolveAll, resolveTransaction_eq hfirst, hbehind, List.mapIdx_cons, List.flatten_cons,
      List.mapM_append]
    rfl

/-- If the store was asked for what the first pass wants, the second pass meets the demands. -/
theorem resolveAll_transactions {ids : List Hash256} (h : wantedIds txs = .ok ids) :
    resolveAll (store.transactions ids) [] txs = (demands txs).mapM (Demand.meet store txs) := by
  have hsources : ∀ pre t post, txs = pre ++ t :: post → ∀ input ∈ t.tx.spending,
      findTransaction? ([] ++ pre ++ store.transactions ids) input.prevout.hash =
        sourceAt? store ([] ++ txs) (([] : List Identified) ++ pre).length input.prevout.hash := by
    intro pre t post heq input hinput
    rw [List.nil_append, List.nil_append, heq]
    exact findTransaction?_eq_sourceAt? (mem_wantedIds h heq hinput)
  rw [resolveAll_eq hsources]
  simp only [List.length_nil, Nat.zero_add, List.nil_append, demands]

end SecondPass

/-- The two passes come to the same result as the single one. -/
theorem Ledger.resolve_eq (l : Ledger) (txs : List Identified) :
    l.resolve txs = (resolveInOrder l.store txs).mapError .invalid := by
  have hcause := cause?_wantedIds txs
  unfold resolve resolveInOrder
  cases hwanted : wantedIds txs with
  | error cause =>
    rw [hwanted] at hcause
    obtain ⟨o, ho, rfl⟩ := Option.map_eq_some_iff.1 hcause.symm
    rw [ho]
    rfl
  | ok ids =>
    rw [hwanted] at hcause
    have hnone := Option.map_eq_none_iff.1 hcause.symm
    rw [hnone]
    exact congrArg (Except.mapError Fault.invalid) (resolveAll_transactions hwanted)

/-! ## Resolving in a session -/

/-- Unless it is disturbed, resolving comes to what a single pass finds in the store. An output that
is spent twice is refused, and the first such one is named. Otherwise each demand is met in its
turn, up to the first that cannot be. What comes out stands in order, with every demand once, and
consists of exactly the spends that are owed. -/
theorem resolve_in_order (txs : List Identified) {s : Session} (hs : s.Undisturbed) :
    ∃ t result, s.Keeps t ∧ resolve txs s = outcome t (result.mapError .invalid) ∧
      (∀ pre o post, spentOutpoints (txs.map Identified.tx) = pre ++ o :: post → pre.Nodup →
        o ∈ pre → result = .error (.spentTwice o)) ∧
      ((spentOutpoints (txs.map Identified.tx)).Nodup →
        result = (demands txs).mapM (Demand.meet s.store txs)) ∧
      ∀ spends, result = .ok spends →
        spends.map Spend.place = (demands txs).map Demand.place ∧
          (spends.map Spend.place).Pairwise (· < ·) ∧
          ∀ spend, spend ∈ spends ↔ Owed s.store txs spend := by
  obtain ⟨t, hkeeps, hresult | ⟨-, hdisturbed⟩⟩ := resolve_observes txs s
  · have hpass := hresult.trans (congrArg (outcome t) (s.ledger.resolve_eq txs))
    refine ⟨t, _, hkeeps, hpass, ?_, ?_, ?_⟩
    · intro pre o post heq hnodup ho
      rw [resolveInOrder, heq, firstRepeated?_of_split hnodup ho]
    · intro hnodup
      rw [resolveInOrder, firstRepeated?_nil_eq_none_iff.2 hnodup]
      rfl
    · intro spends hspends
      exact resolved_contents (resolveInOrder_eq_ok_iff.1 hspends).2
  · exact absurd hs hdisturbed.not_undisturbed

/-- A coinbase, a transaction that shares its id, and one that spends an output under that id. -/
def sampleTwins : List Identified :=
  [⟨.one, ⟨1, [⟨⟨.zero, 0⟩, [], 0⟩], [⟨30, [0x51]⟩, ⟨20, []⟩], 0⟩⟩,
    ⟨.one, ⟨1, [], [⟨7, []⟩], 0⟩⟩,
    ⟨.zero, ⟨1, [⟨⟨.one, 0⟩, [], 0⟩], [⟨30, []⟩], 0⟩⟩]

/-- The coinbase spends the sum of its outputs, and the id stands for the coinbase. -/
theorem resolve_in_order_twins :
    (Session.start .empty false .never).Undisturbed ∧
      ∃ t, (Session.start .empty false .never).Keeps t ∧
        resolve sampleTwins (.start .empty false .never) =
          .ok [⟨⟨1, [⟨⟨.zero, 0⟩, [], 0⟩], [⟨30, [0x51]⟩, ⟨20, []⟩], 0⟩, 0, 0, ⟨50, []⟩⟩,
            ⟨⟨1, [⟨⟨.one, 0⟩, [], 0⟩], [⟨30, []⟩], 0⟩, 2, 0, ⟨30, [0x51]⟩⟩] t := by
  have hs : (Session.start .empty false .never).Undisturbed := ⟨rfl, rfl, rfl⟩
  obtain ⟨t, result, hkeeps, hresult, -, hmet, -⟩ := resolve_in_order sampleTwins hs
  have hnodup : (spentOutpoints (sampleTwins.map Identified.tx)).Nodup := by decide
  rw [hmet hnodup] at hresult
  exact ⟨hs, t, hkeeps, hresult⟩

end Chain

end ChainRules
