import ChainRules.Chain.Inputs
import ChainRules.Proofs.Outcomes

/-!
# Pairing inputs with outputs in one pass

A single pass over a list of transactions asks for each output in its turn. Unless an output is
spent twice, an input is paired with an output of the first transaction before its own that has the
wanted id, or else of the one that the store keeps under it. What comes out are exactly the spends
that are owed, in the order of the list.
-/

namespace ChainRules

/-- The inputs that spend outputs: all but those of coinbases. -/
def Transaction.spending (tx : Transaction) : List Input :=
  if tx.isCoinbase then [] else tx.inputs

namespace Chain

/-! ## The single pass -/

/-- The outputs that the transactions spend, in order. -/
def spentOutpoints (txs : List Transaction) : List Outpoint :=
  txs.flatMap fun tx => tx.spending.map Input.prevout

/-- The first outpoint that stands among those before it or among `seen`. -/
def firstRepeated? (seen : List Outpoint) : List Outpoint → Option Outpoint
  | [] => none
  | o :: rest => if o ∈ seen then some o else firstRepeated? (o :: seen) rest

/-- What asks for an output: a coinbase as a whole, or an input of another transaction. Both are
known by the places of the transaction in its list and of the input in the transaction. -/
inductive Demand where
  | coinbase (tx : Transaction) (txIndex : Nat)
  | input (tx : Transaction) (txIndex inputIndex : Nat) (prevout : Outpoint)

/-- What a transaction asks for. -/
def Demand.ofTransaction (txIndex : Nat) (tx : Transaction) : List Demand :=
  if tx.isCoinbase then [.coinbase tx txIndex]
  else tx.inputs.mapIdx fun inputIndex input => .input tx txIndex inputIndex input.prevout

/-- What a list of transactions asks for, in order. -/
def demands (txs : List Identified) : List Demand :=
  (txs.mapIdx fun txIndex t => Demand.ofTransaction txIndex t.tx).flatten

/-- The transaction that is stored under an id. -/
def Store.transaction? (s : Store) (id : Hash256) : Option Transaction :=
  match s.get? id with
  | some (.transaction tx) => some tx
  | _ => none

/-- The transaction that an id stands for at `txIndex`: the first before that place with the id, or
else the stored one. -/
def sourceAt? (store : Store) (txs : List Identified) (txIndex : Nat) (id : Hash256) :
    Option Transaction :=
  (((txs.take txIndex).find? (·.id = id)).map Identified.tx).or (store.transaction? id)

/-- Whether a number is in the range of amounts. -/
def IsAmount (n : Int) : Prop :=
  -2 ^ 63 ≤ n ∧ n < 2 ^ 63

instance : DecidablePred IsAmount :=
  fun n => inferInstanceAs (Decidable (-2 ^ 63 ≤ n ∧ n < 2 ^ 63))

/-- The exact sum of the values of the first `k` outputs. -/
def runningTotal (outputs : List Output) (k : Nat) : Int :=
  ((outputs.take k).map fun output => output.value.toInt).sum

/-- Pairs what asks for an output with the output. -/
def Demand.meet (store : Store) (txs : List Identified) : Demand → Except Violation Spend
  | .coinbase tx txIndex =>
    if ∀ k ≤ tx.outputs.length, IsAmount (runningTotal tx.outputs k) then
      .ok ⟨tx, txIndex, 0, ⟨.ofInt (runningTotal tx.outputs tx.outputs.length), []⟩⟩
    else .error .coinbaseOverflow
  | .input tx txIndex inputIndex o =>
    match sourceAt? store txs txIndex o.hash with
    | none => .error (.unknownTransaction txIndex inputIndex o.hash)
    | some source =>
      match source.outputs[o.index.toNat]? with
      | none => .error (.missingOutput txIndex inputIndex o)
      | some output => .ok ⟨tx, txIndex, inputIndex, output⟩

/-- Pairs every input of a list of transactions with the output that it spends, in one pass. -/
def resolveInOrder (store : Store) (txs : List Identified) : Except Violation (List Spend) :=
  match firstRepeated? [] (spentOutpoints (txs.map Identified.tx)) with
  | some o => .error (.spentTwice o)
  | none => (demands txs).mapM (Demand.meet store txs)

theorem map_tx_ofTransaction (txs : List Transaction) :
    (txs.map .ofTransaction).map Identified.tx = txs := by
  rw [List.map_map]
  exact List.map_id txs

theorem spentOutpoints_cons (tx : Transaction) (txs : List Transaction) :
    spentOutpoints (tx :: txs) = tx.spending.map Input.prevout ++ spentOutpoints txs :=
  rfl

/-! ## Sums of outputs -/

theorem runningTotal_cons (output : Output) (outputs : List Output) (k : Nat) :
    runningTotal (output :: outputs) (k + 1) = output.value.toInt + runningTotal outputs k := by
  simp [runningTotal]

theorem checkedAdd_eq (a b : Int64) :
    checkedAdd a b =
      if IsAmount (a.toInt + b.toInt) then some (.ofInt (a.toInt + b.toInt)) else none := by
  rfl

theorem isAmount_toInt (a : Int64) : IsAmount a.toInt :=
  ⟨a.le_toInt, a.toInt_lt⟩

theorem toInt_ofInt_of_isAmount {n : Int} (h : IsAmount n) : (Int64.ofInt n).toInt = n :=
  Int64.toInt_ofInt_of_le h.1 h.2

/-- Values are added up one by one, as long as each running total is in range. -/
theorem foldlM_checkedAdd (a : Int64) (outputs : List Output) :
    outputs.foldlM (fun sum output => checkedAdd sum output.value) a =
      if ∀ k ≤ outputs.length, IsAmount (a.toInt + runningTotal outputs k) then
        some (.ofInt (a.toInt + runningTotal outputs outputs.length))
      else none := by
  induction outputs generalizing a with
  | nil => simp [runningTotal, isAmount_toInt]
  | cons output outputs ih =>
    rw [List.foldlM_cons, checkedAdd_eq]
    by_cases hsum : IsAmount (a.toInt + output.value.toInt)
    -- the first value goes into the start, so that the totals behind it count one output less
    · have hall : (∀ k ≤ (output :: outputs).length,
            IsAmount (a.toInt + runningTotal (output :: outputs) k)) ↔
          ∀ k ≤ outputs.length,
            IsAmount (a.toInt + output.value.toInt + runningTotal outputs k) := by
        constructor
        · intro h k hk
          have hnext := h (k + 1) (Nat.succ_le_succ hk)
          rwa [runningTotal_cons, ← Int.add_assoc] at hnext
        · intro h k hk
          cases k with
          | zero => simpa [runningTotal] using isAmount_toInt a
          | succ k =>
            rw [runningTotal_cons, ← Int.add_assoc]
            exact h k (Nat.le_of_succ_le_succ hk)
      rw [if_pos hsum, Option.bind_eq_bind, Option.bind_some, ih, toInt_ofInt_of_isAmount hsum,
        List.length_cons, runningTotal_cons, ← Int.add_assoc]
      simp only [← hall, List.length_cons]
    · rw [if_neg hsum, if_neg]
      · rfl
      · intro h
        have hfirst := h 1 (by simp)
        rw [runningTotal_cons] at hfirst
        simp [runningTotal] at hfirst
        exact hsum hfirst

theorem totalOutput?_eq (tx : Transaction) :
    tx.totalOutput? =
      if ∀ k ≤ tx.outputs.length, IsAmount (runningTotal tx.outputs k) then
        some (.ofInt (runningTotal tx.outputs tx.outputs.length))
      else none := by
  have hsum := foldlM_checkedAdd 0 tx.outputs
  simp only [Int64.toInt_zero, Int.zero_add] at hsum
  exact hsum

/-! ## Repetition -/

theorem firstRepeated?_append (seen os os' : List Outpoint) :
    firstRepeated? seen (os ++ os') =
      (firstRepeated? seen os).or (firstRepeated? (os.reverse ++ seen) os') := by
  induction os generalizing seen with
  | nil => simp [firstRepeated?]
  | cons o os ih =>
    rw [List.cons_append, firstRepeated?, firstRepeated?]
    by_cases hseen : o ∈ seen
    · simp [hseen]
    · rw [if_neg hseen, if_neg hseen, ih, List.reverse_cons, List.append_assoc]
      rfl

theorem firstRepeated?_eq_none_iff {seen os : List Outpoint} :
    firstRepeated? seen os = none ↔ os.Nodup ∧ ∀ o ∈ os, o ∉ seen := by
  induction os generalizing seen with
  | nil => simp [firstRepeated?]
  | cons o os ih =>
    rw [firstRepeated?, List.nodup_cons, List.forall_mem_cons]
    by_cases hseen : o ∈ seen
    · simp [hseen]
    · rw [if_neg hseen, ih]
      simp only [List.mem_cons, not_or, hseen, not_false_eq_true, true_and]
      constructor
      · rintro ⟨hnodup, hfresh⟩
        exact ⟨⟨fun ho => (hfresh o ho).1 rfl, hnodup⟩, fun o' ho' => (hfresh o' ho').2⟩
      · rintro ⟨⟨hnew, hnodup⟩, hfresh⟩
        refine ⟨hnodup, fun o' ho' => ⟨?_, hfresh o' ho'⟩⟩
        rintro rfl
        exact hnew ho'

theorem firstRepeated?_nil_eq_none_iff {os : List Outpoint} :
    firstRepeated? [] os = none ↔ os.Nodup :=
  firstRepeated?_eq_none_iff.trans (and_iff_left fun _ _ => List.not_mem_nil)

/-- The first outpoint that is repeated stands behind outpoints that are all different. -/
theorem firstRepeated?_of_split {pre post : List Outpoint} {o : Outpoint} (hnodup : pre.Nodup)
    (ho : o ∈ pre) : firstRepeated? [] (pre ++ o :: post) = some o := by
  rw [firstRepeated?_append, firstRepeated?_nil_eq_none_iff.2 hnodup, Option.none_or,
    firstRepeated?, if_pos]
  simpa using ho

/-- A single pass succeeds if no output is spent twice and every demand is met. -/
theorem resolveInOrder_eq_ok_iff {store : Store} {txs : List Identified} {spends : List Spend} :
    resolveInOrder store txs = .ok spends ↔
      (spentOutpoints (txs.map Identified.tx)).Nodup ∧
        List.Forall₂ (fun d spend => d.meet store txs = .ok spend) (demands txs) spends := by
  rw [← firstRepeated?_nil_eq_none_iff, ← mapM_eq_ok_iff, resolveInOrder]
  cases firstRepeated? [] (spentOutpoints (txs.map Identified.tx)) with
  | none => simp
  | some o => simp

/-! ## What a resolved list contains -/

/-- The place of a spend: that of the transaction in its list and that of the input in the
transaction. -/
def Spend.place (spend : Spend) : Nat ×ₗ Nat :=
  toLex (spend.txIndex, spend.inputIndex)

def Demand.place : Demand → Nat ×ₗ Nat
  | .coinbase _ txIndex => toLex (txIndex, 0)
  | .input _ txIndex inputIndex _ => toLex (txIndex, inputIndex)

/-- The spend has its transaction and its indices from the list. A coinbase spends the sum of its
outputs, and any other input the output that it names, of the transaction that its id stands for. -/
def Owed (store : Store) (txs : List Identified) (spend : Spend) : Prop :=
  ∃ t, txs[spend.txIndex]? = some t ∧ spend.tx = t.tx ∧
    (t.tx.isCoinbase = true ∧ spend.inputIndex = 0 ∧ spend.output.script = [] ∧
        spend.output.value.toInt = (t.tx.outputs.map fun output => output.value.toInt).sum ∨
      t.tx.isCoinbase = false ∧ ∃ input source, t.tx.inputs[spend.inputIndex]? = some input ∧
        sourceAt? store txs spend.txIndex input.prevout.hash = some source ∧
        source.outputs[input.prevout.index.toNat]? = some spend.output)

section Contents

variable {store : Store} {txs : List Identified} {d : Demand} {spend : Spend} {spends : List Spend}

theorem runningTotal_length (outputs : List Output) :
    runningTotal outputs outputs.length = (outputs.map fun output => output.value.toInt).sum := by
  rw [runningTotal, List.take_length]

theorem Demand.meet_coinbase_eq_ok_iff {tx : Transaction} {txIndex : Nat} :
    (Demand.coinbase tx txIndex).meet store txs = .ok spend ↔
      (∀ k ≤ tx.outputs.length, IsAmount (runningTotal tx.outputs k)) ∧
        spend = ⟨tx, txIndex, 0, ⟨.ofInt (runningTotal tx.outputs tx.outputs.length), []⟩⟩ := by
  rw [meet]
  by_cases hrange : ∀ k ≤ tx.outputs.length, IsAmount (runningTotal tx.outputs k)
  · rw [if_pos hrange, and_iff_right hrange, Except.ok.injEq, eq_comm]
  · rw [if_neg hrange]
    simp [hrange]

theorem Demand.meet_input_eq_ok_iff {tx : Transaction} {txIndex inputIndex : Nat} {o : Outpoint} :
    (Demand.input tx txIndex inputIndex o).meet store txs = .ok spend ↔
      ∃ source output, sourceAt? store txs txIndex o.hash = some source ∧
        source.outputs[o.index.toNat]? = some output ∧ spend = ⟨tx, txIndex, inputIndex, output⟩ := by
  rw [meet]
  cases sourceAt? store txs txIndex o.hash with
  | none => simp
  | some source => cases houtput : source.outputs[o.index.toNat]? <;> simp [houtput, eq_comm]

theorem Demand.place_of_meet (h : d.meet store txs = .ok spend) : spend.place = d.place := by
  cases d with
  | coinbase tx txIndex =>
    obtain ⟨-, rfl⟩ := meet_coinbase_eq_ok_iff.1 h
    rfl
  | input tx txIndex inputIndex o =>
    obtain ⟨source, output, -, -, rfl⟩ := meet_input_eq_ok_iff.1 h
    rfl

theorem mem_demands_iff : d ∈ demands txs ↔
    ∃ txIndex t, txs[txIndex]? = some t ∧ d ∈ Demand.ofTransaction txIndex t.tx := by
  simp only [demands, List.mem_flatten, mem_mapIdx_iff]
  constructor
  · rintro ⟨_, ⟨txIndex, t, ht, rfl⟩, hd⟩
    exact ⟨txIndex, t, ht, hd⟩
  · rintro ⟨txIndex, t, ht, hd⟩
    exact ⟨_, ⟨txIndex, t, ht, rfl⟩, hd⟩

theorem Demand.mem_ofTransaction_iff {txIndex : Nat} {tx : Transaction} :
    d ∈ ofTransaction txIndex tx ↔
      tx.isCoinbase = true ∧ d = .coinbase tx txIndex ∨
        tx.isCoinbase = false ∧ ∃ inputIndex input, tx.inputs[inputIndex]? = some input ∧
          d = .input tx txIndex inputIndex input.prevout := by
  unfold ofTransaction
  cases tx.isCoinbase with
  | true => simp
  | false =>
    simp only [Bool.false_eq_true, if_false, mem_mapIdx_iff, false_and, true_and, false_or]

theorem Demand.fst_place_of_mem {txIndex : Nat} {tx : Transaction}
    (h : d ∈ ofTransaction txIndex tx) : (ofLex d.place).1 = txIndex := by
  rcases mem_ofTransaction_iff.1 h with ⟨-, rfl⟩ | ⟨-, _, _, -, rfl⟩
  · rfl
  · rfl

theorem Demand.ofTransaction_sorted (txIndex : Nat) (tx : Transaction) :
    (ofTransaction txIndex tx).Pairwise fun d d' => d.place < d'.place := by
  unfold ofTransaction
  split
  · exact List.pairwise_singleton _ _
  · apply pairwise_mapIdx
    intro i j _ _ hij
    exact Prod.Lex.toLex_lt_toLex.2 (.inr ⟨rfl, hij⟩)

/-- What is asked for stands in order, and nothing twice. -/
theorem demands_sorted (txs : List Identified) :
    (demands txs).Pairwise fun d d' => d.place < d'.place := by
  rw [demands, List.pairwise_flatten]
  constructor
  · intro ds hds
    obtain ⟨txIndex, t, -, rfl⟩ := mem_mapIdx_iff.1 hds
    exact Demand.ofTransaction_sorted txIndex t.tx
  · apply pairwise_mapIdx
    intro i j _ _ hij d hd d' hd'
    rw [Prod.Lex.lt_iff, Demand.fst_place_of_mem hd, Demand.fst_place_of_mem hd']
    exact .inl hij

/-- What an asked-for output leads to is owed. -/
theorem Demand.owed_of_meet (hd : d ∈ demands txs) (h : d.meet store txs = .ok spend) :
    Owed store txs spend := by
  obtain ⟨txIndex, t, ht, hd⟩ := mem_demands_iff.1 hd
  rcases mem_ofTransaction_iff.1 hd with ⟨hcoinbase, rfl⟩ | ⟨hcoinbase, inputIndex, input, hi, rfl⟩
  · obtain ⟨hrange, rfl⟩ := meet_coinbase_eq_ok_iff.1 h
    refine ⟨t, ht, rfl, .inl ⟨hcoinbase, rfl, rfl, ?_⟩⟩
    rw [← runningTotal_length]
    exact toInt_ofInt_of_isAmount (hrange _ le_rfl)
  · obtain ⟨source, output, hsource, houtput, rfl⟩ := meet_input_eq_ok_iff.1 h
    exact ⟨t, ht, rfl, .inr ⟨hcoinbase, input, source, hi, hsource, houtput⟩⟩

/-- What is owed is asked for, and nothing else than it can be the answer. -/
theorem Owed.exists_demand (h : Owed store txs spend) :
    ∃ d ∈ demands txs, ∀ other, d.meet store txs = .ok other → other = spend := by
  obtain ⟨tx, txIndex, inputIndex, value, script⟩ := spend
  obtain ⟨t, ht, rfl, ⟨hcoinbase, hindex, hscript, hvalue⟩ | ⟨hcoinbase, input, source, hi, hsource,
    houtput⟩⟩ := h
  · refine ⟨.coinbase t.tx txIndex, mem_demands_iff.2 ⟨txIndex, t, ht, ?_⟩, fun other hother => ?_⟩
    · exact Demand.mem_ofTransaction_iff.2 (.inl ⟨hcoinbase, rfl⟩)
    · obtain ⟨hrange, rfl⟩ := Demand.meet_coinbase_eq_ok_iff.1 hother
      dsimp only at hindex hscript hvalue
      rw [hindex, hscript, runningTotal_length, ← hvalue, Int64.ofInt_toInt]
  · refine ⟨.input t.tx txIndex inputIndex input.prevout, mem_demands_iff.2 ⟨txIndex, t, ht, ?_⟩,
      fun other hother => ?_⟩
    · exact Demand.mem_ofTransaction_iff.2 (.inr ⟨hcoinbase, inputIndex, input, hi, rfl⟩)
    · obtain ⟨source', output, hsource', houtput', rfl⟩ := Demand.meet_input_eq_ok_iff.1 hother
      dsimp only at hsource houtput
      rw [hsource] at hsource'
      cases hsource'
      rw [houtput] at houtput'
      cases houtput'
      rfl

/-- The spends of a list that was resolved stand where they were asked for, in order and nothing
twice, and are what is owed. -/
theorem resolved_contents
    (h : List.Forall₂ (fun d spend => d.meet store txs = .ok spend) (demands txs) spends) :
    spends.map Spend.place = (demands txs).map Demand.place ∧
      (spends.map Spend.place).Pairwise (· < ·) ∧
      ∀ spend, spend ∈ spends ↔ Owed store txs spend := by
  have hplaces : spends.map Spend.place = (demands txs).map Demand.place := by
    rw [← List.forall₂_eq_eq_eq, List.forall₂_map_left_iff, List.forall₂_map_right_iff]
    exact (h.imp fun d spend hmeet => Demand.place_of_meet hmeet).flip
  refine ⟨hplaces, ?_, fun spend => ⟨?_, ?_⟩⟩
  · rw [hplaces, List.pairwise_map]
    exact demands_sorted txs
  · intro hspend
    obtain ⟨i, hi, rfl⟩ := List.mem_iff_getElem.1 hspend
    have hi' : i < (demands txs).length := h.length_eq ▸ hi
    exact Demand.owed_of_meet (List.getElem_mem hi') (h.get hi' hi)
  · intro howed
    obtain ⟨d, hd, honly⟩ := howed.exists_demand
    obtain ⟨i, hi, rfl⟩ := List.mem_iff_getElem.1 hd
    have hi' : i < spends.length := h.length_eq ▸ hi
    rw [← honly _ (h.get hi hi')]
    exact List.getElem_mem hi'

end Contents

end Chain

end ChainRules
