import ChainRules.Proofs.Chain.Resolution

/-!
# Inputs and what they spend

A list of transactions is resolved and its scripts succeed if and only if no output is spent twice
in it and every input, other than those of coinbases, opens an output of a transaction before it in
the list or in the store. The statement is about each transaction in its place; it follows from the
single pass that resolving amounts to.
-/

namespace ChainRules

/-- The scripts of an input and of an output succeed together, where the input stands at `i`. -/
def Transaction.Opens (tx : Transaction) (i : Nat) (input : Input) (output : Output) : Prop :=
  ∃ m, Script.spend (Signature.inputChecker tx i) .never input.script output.script = .ok true m

namespace Chain

/-! ## What inputs find -/

/-- Every input that spends refers to a transaction that has the output it names, and `P` holds of
the place of the input, the input and the output. -/
def Finds (sources : Hash256 → Option Transaction) (tx : Transaction)
    (P : Nat → Input → Output → Prop) : Prop :=
  ∀ i input, tx.spending[i]? = some input → ∃ source output,
    sources input.prevout.hash = some source ∧
      source.outputs[input.prevout.index.toNat]? = some output ∧ P i input output

/-- Every input that spends opens an output of the transaction that it refers to. -/
def Paired (sources : Hash256 → Option Transaction) (tx : Transaction) : Prop :=
  Finds sources tx tx.Opens

theorem Spend.verify_eq_ok_iff {tx : Transaction} {txIndex i : Nat} {input : Input}
    {output : Output} (h : tx.inputs[i]? = some input) :
    Spend.verify ⟨tx, txIndex, i, output⟩ = .ok () ↔ tx.Opens i input output := by
  unfold Spend.verify Transaction.Opens
  simp only [h, Option.map_some, Option.getD_some]
  cases Script.spend (Signature.inputChecker tx i) .never input.script output.script with
  | ok answer m => cases answer <;> simp
  | error cause m => by_cases hcause : cause = .cancelled <;> simp [hcause]

/-- The first pass succeeds if and only if no output is spent twice. -/
theorem exists_wantedIds_iff {txs : List Transaction} :
    (∃ ids, wantedIds (txs.map .ofTransaction) = .ok ids) ↔ (spentOutpoints txs).Nodup := by
  have hcause := cause?_wantedIds (txs.map .ofTransaction)
  rw [map_tx_ofTransaction] at hcause
  rw [← cause?_eq_none_iff, hcause, Option.map_eq_none_iff, firstRepeated?_nil_eq_none_iff]

theorem verifyAll_eq_ok_iff {spends : List Spend} :
    verifyAll spends = .ok () ↔
      ∀ spend ∈ spends, spend.tx.isCoinbase = false → spend.verify = .ok () := by
  unfold verifyAll
  rw [forM_eq_ok_iff]
  simp only [List.mem_filter, Bool.not_eq_true', and_imp]

/-- The scripts of the spends that were found succeed exactly if the inputs open their outputs. -/
theorem finds_verify_iff {sources : Hash256 → Option Transaction} {tx : Transaction}
    {txIndex : Nat} :
    (Finds sources tx fun i _ output => Spend.verify ⟨tx, txIndex, i, output⟩ = .ok ()) ↔
      Paired sources tx := by
  unfold Paired Finds Transaction.spending
  apply forall₃_congr
  intro i input hi
  have hinput : tx.inputs[i]? = some input := by
    split at hi
    · cases hi
    · exact hi
  simp only [Spend.verify_eq_ok_iff hinput]

/-- The transaction that an input refers to if `pre` stand before its own: one of these, or else a
stored one. -/
def Ledger.source? (l : Ledger) (pre : List Transaction) (id : Hash256) : Option Transaction :=
  (pre.find? (·.id = id)).or (l.store.transaction? id)

theorem Store.transaction?_eq_some_iff {s : Store} {id : Hash256} {tx : Transaction} :
    s.transaction? id = some tx ↔ s.get? id = some (.transaction tx) := by
  unfold transaction?
  cases s.get? id with
  | none => simp
  | some e => cases e <;> simp

section Demands

variable {store : Store} {txs : List Identified} {P : Spend → Prop}

/-- A transaction's demands are met, with `P` of the spends that are not of a coinbase. -/
theorem Demand.met_ofTransaction_iff {txIndex : Nat} {tx : Transaction} :
    (∀ d ∈ ofTransaction txIndex tx, ∃ spend, d.meet store txs = .ok spend ∧
        (spend.tx.isCoinbase = false → P spend)) ↔
      (tx.isCoinbase = true → tx.totalOutput?.isSome) ∧
        Finds (sourceAt? store txs txIndex) tx fun i _ output => P ⟨tx, txIndex, i, output⟩ := by
  unfold Finds Transaction.spending
  simp only [mem_ofTransaction_iff]
  cases hcoinbase : tx.isCoinbase with
  | true =>
    have hsum : tx.totalOutput?.isSome ↔
        ∀ k ≤ tx.outputs.length, IsAmount (runningTotal tx.outputs k) := by
      rw [totalOutput?_eq]
      by_cases hrange : ∀ k ≤ tx.outputs.length, IsAmount (runningTotal tx.outputs k)
      · rw [if_pos hrange]
        exact iff_of_true rfl hrange
      · rw [if_neg hrange]
        exact iff_of_false Bool.false_ne_true hrange
    simp [hsum, meet_coinbase_eq_ok_iff, hcoinbase]
  | false =>
    simp only [Bool.false_eq_true, if_false, false_and, true_and, false_or, false_implies]
    constructor
    · intro h i input hi
      obtain ⟨spend, hmeet, hspend⟩ := h _ ⟨i, input, hi, rfl⟩
      obtain ⟨source, output, hsource, houtput, rfl⟩ := meet_input_eq_ok_iff.1 hmeet
      exact ⟨source, output, hsource, houtput, hspend hcoinbase⟩
    · rintro h _ ⟨i, input, hi, rfl⟩
      obtain ⟨source, output, hsource, houtput, hP⟩ := h i input hi
      exact ⟨_, meet_input_eq_ok_iff.2 ⟨source, output, hsource, houtput, rfl⟩, fun _ => hP⟩

/-- The demands of a list are met if those of each transaction are. -/
theorem met_demands_iff {P : Demand → Prop} :
    (∀ d ∈ demands txs, P d) ↔
      ∀ i t, txs[i]? = some t → ∀ d ∈ Demand.ofTransaction i t.tx, P d := by
  simp only [mem_demands_iff]
  constructor
  · intro h i t ht d hd
    exact h d ⟨i, t, ht, hd⟩
  · rintro h d ⟨i, t, ht, hd⟩
    exact h i t ht d hd

end Demands

/-- Among transactions with the ids of their own, a place sees what a ledger sees from there. -/
theorem sourceAt?_ofTransaction (l : Ledger) (txs : List Transaction) (i : Nat) :
    sourceAt? l.store (txs.map .ofTransaction) i = l.source? (txs.take i) := by
  funext id
  simp only [sourceAt?, Ledger.source?, ← List.map_take, List.find?_map, Option.map_map]
  congr 1
  exact Option.map_id'

/-- A list of transactions is resolved against a ledger, with `P` of all spends but those of
coinbases, if and only if no output is spent twice and every transaction, seen from its place, finds
what it spends. -/
theorem Ledger.resolve_ok_iff (l : Ledger) (txs : List Transaction) (P : Spend → Prop) :
    (∃ spends, l.resolve (txs.map .ofTransaction) = .ok spends ∧
        ∀ spend ∈ spends, spend.tx.isCoinbase = false → P spend) ↔
      (spentOutpoints txs).Nodup ∧ ∀ pre tx post, txs = pre ++ tx :: post →
        (tx.isCoinbase = true → tx.totalOutput?.isSome) ∧
          Finds (l.source? pre) tx fun i _ output => P ⟨tx, pre.length, i, output⟩ := by
  simp only [resolve_eq, mapError_eq_ok_iff, resolveInOrder_eq_ok_iff, map_tx_ofTransaction,
    and_assoc, exists_and_left, exists_forall₂_iff, met_demands_iff, Demand.met_ofTransaction_iff,
    sourceAt?_ofTransaction]
  rw [forall_split_iff]
  have hplace : ∀ i tx, txs[i]? = some tx → (txs.take i).length = i := by
    intro i tx htx
    exact List.length_take_of_le (List.getElem?_eq_some_iff.1 htx).1.le
  refine and_congr_right' ⟨?_, ?_⟩
  · intro h i tx htx
    rw [hplace i tx htx]
    exact h i (.ofTransaction tx) (by rw [List.getElem?_map, htx, Option.map_some])
  · intro h i t ht
    rw [List.getElem?_map] at ht
    obtain ⟨tx, htx, rfl⟩ := Option.map_eq_some_iff.1 ht
    have hfound := h i tx htx
    rw [hplace i tx htx] at hfound
    exact hfound

/-- A list of transactions is resolved against a ledger and its scripts succeed if and only if no
output is spent twice and every transaction, seen from its place, is paired. -/
theorem Ledger.resolve_verify_iff (l : Ledger) (txs : List Transaction) :
    (∃ spends, l.resolve (txs.map .ofTransaction) = .ok spends ∧ verifyAll spends = .ok ()) ↔
      (spentOutpoints txs).Nodup ∧ ∀ pre tx post, txs = pre ++ tx :: post →
        (tx.isCoinbase = true → tx.totalOutput?.isSome) ∧ Paired (l.source? pre) tx := by
  simp only [verifyAll_eq_ok_iff]
  rw [l.resolve_ok_iff txs fun spend => spend.verify = .ok ()]
  simp only [finds_verify_iff]

end Chain

end ChainRules
