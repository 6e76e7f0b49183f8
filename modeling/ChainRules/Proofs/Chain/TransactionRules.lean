import ChainRules.Proofs.Chain.Judgement

/-!
# Rules for a single transaction

A transaction is checked rule by rule, in a fixed order, with a running sum and a scan over what was
spent so far. Whether it passes depends on neither order: it passes if and only if it keeps rules that
speak of its inputs and outputs as a whole. A refusal names a rule that the transaction breaks.
-/

namespace ChainRules

open Chain

/-! ## Outputs -/

theorem refuseNegative_eq_ok_iff {index : Nat} {outputs : List Output} :
    refuseNegative index outputs = .ok () ↔ ∀ output ∈ outputs, 0 ≤ output.value.toInt := by
  induction outputs generalizing index with
  | nil => simp [refuseNegative]
  | cons output rest ih =>
    rw [refuseNegative, List.forall_mem_cons, ← Int.not_lt, ← Int64.toInt_zero,
      ← Int64.lt_iff_toInt_lt]
    by_cases hnegative : output.value < 0
    · simp [hnegative]
    · simp [hnegative, ih]

/-- What is refused is the first value that is negative, at its place. -/
theorem refuseNegative_eq_error {index : Nat} {outputs : List Output} {cause : Violation}
    (h : refuseNegative index outputs = .error cause) :
    ∃ pre output post, outputs = pre ++ output :: post ∧ output.value < 0 ∧
      cause = .negativeOutput output.value (index + pre.length) := by
  induction outputs generalizing index with
  | nil => cases h
  | cons output rest ih =>
    rw [refuseNegative] at h
    by_cases hnegative : output.value < 0
    · rw [if_pos hnegative] at h
      cases h
      exact ⟨[], output, rest, rfl, hnegative, rfl⟩
    · rw [if_neg hnegative] at h
      obtain ⟨pre, bad, post, rfl, hbad, rfl⟩ := ih h
      refine ⟨output :: pre, bad, post, rfl, hbad, ?_⟩
      rw [List.length_cons, Nat.add_assoc, Nat.add_comm 1]

/-- Where no value is negative, no running total is above the total. -/
theorem runningTotal_bounds {outputs : List Output}
    (h : ∀ output ∈ outputs, 0 ≤ output.value.toInt) (k : Nat) :
    0 ≤ runningTotal outputs k ∧ runningTotal outputs k ≤ runningTotal outputs outputs.length := by
  have hvalues : ∀ n ∈ outputs.map fun output => output.value.toInt, 0 ≤ n := by
    simpa using h
  have hsub : ((outputs.take k).map fun output => output.value.toInt).Sublist
      (outputs.map fun output => output.value.toInt) :=
    (List.take_sublist k outputs).map _
  refine ⟨List.sum_nonneg fun n hn => hvalues n (hsub.subset hn), ?_⟩
  rw [runningTotal_length]
  exact hsub.sum_le_sum hvalues

/-- Where no value is negative, the values can be added up exactly if their sum is in range. -/
theorem Transaction.totalOutput?_isSome_iff {tx : Transaction}
    (h : ∀ output ∈ tx.outputs, 0 ≤ output.value.toInt) :
    tx.totalOutput?.isSome ↔ (tx.outputs.map fun output => output.value.toInt).sum < 2 ^ 63 := by
  rw [totalOutput?_eq, ← runningTotal_length]
  have hsome : ∀ {p : Prop} [Decidable p] {a : Int64},
      (if p then some a else none).isSome = true ↔ p := by
    intro p _ a
    by_cases hp : p <;> simp [hp]
  rw [hsome]
  constructor
  · intro hall
    exact (hall _ le_rfl).2
  · intro hlt k _
    obtain ⟨hnonneg, hle⟩ := runningTotal_bounds h k
    exact ⟨by omega, by omega⟩

/-! ## Inputs -/

/-- What is refused is the first output that is among those seen or spent a second time. -/
theorem refuseRepeated_eq_error {seen : List Outpoint} {inputs : List Input} {cause : Violation}
    (h : refuseRepeated seen inputs = .error cause) :
    ∃ pre input post, inputs = pre ++ input :: post ∧
      (input.prevout ∈ seen ∨ input.prevout ∈ pre.map Input.prevout) ∧
      cause = .repeatedOutpoint input.prevout := by
  induction inputs generalizing seen with
  | nil => cases h
  | cons input rest ih =>
    rw [refuseRepeated] at h
    by_cases hseen : input.prevout ∈ seen
    · rw [if_pos hseen] at h
      cases h
      exact ⟨[], input, rest, rfl, .inl hseen, rfl⟩
    · rw [if_neg hseen] at h
      obtain ⟨pre, bad, post, rfl, hbad, rfl⟩ := ih h
      refine ⟨input :: pre, bad, post, rfl, ?_, rfl⟩
      rcases hbad with hbad | hbad
      · rcases List.mem_cons.1 hbad with hsame | hbad
        · exact .inr (List.mem_cons.2 (.inl hsame))
        · exact .inl hbad
      · exact .inr (List.mem_cons_of_mem _ hbad)

theorem Input.isCoinbase_iff {input : Input} :
    input.isCoinbase = true ↔ input.prevout.hash = .zero := by
  unfold Input.isCoinbase Outpoint.isNull
  exact decide_eq_true_iff

theorem Transaction.isCoinbase_iff {tx : Transaction} :
    tx.isCoinbase = true ↔ ∃ input, tx.inputs = [input] ∧ input.prevout.hash = .zero := by
  unfold isCoinbase
  split
  · rename_i input heq
    simp [heq, Input.isCoinbase_iff]
  · rename_i hmany
    refine iff_of_false Bool.false_ne_true ?_
    rintro ⟨input, heq, -⟩
    exact hmany input heq

/-- Newly created value is spent by a coinbase only, if and only if whatever spends it is alone. -/
theorem Transaction.null_alone_iff {tx : Transaction} :
    (tx.isCoinbase = false → ∀ input ∈ tx.inputs, input.isCoinbase = false) ↔
      ∀ input ∈ tx.inputs, input.prevout.hash = .zero → tx.inputs = [input] := by
  simp only [← Bool.not_eq_true, isCoinbase_iff, Input.isCoinbase_iff]
  constructor
  · intro h input hinput hnull
    by_contra halone
    refine h ?_ input hinput hnull
    rintro ⟨other, heq, -⟩
    rw [heq, List.mem_singleton] at hinput
    exact halone (hinput ▸ heq)
  · intro h hloose input hinput hnull
    exact hloose ⟨input, h input hinput hnull, hnull⟩

/-! ## The rules -/

namespace Transaction

/-- The rules for a single transaction, each about its inputs or outputs as a whole. -/
structure KeepsRules (tx : Transaction) : Prop where
  spends : tx.inputs ≠ []
  creates : tx.outputs ≠ []
  nonnegative : ∀ output ∈ tx.outputs, 0 ≤ output.value.toInt
  /-- The exact sum of the values is in range. -/
  total : (tx.outputs.map fun output => output.value.toInt).sum < 2 ^ 63
  spentOnce : (tx.inputs.map Input.prevout).Nodup
  /-- What spends newly created value is the only input. -/
  nullAlone : ∀ input ∈ tx.inputs, input.prevout.hash = .zero → tx.inputs = [input]

variable {tx tx' : Transaction}

theorem check_eq_ok_iff_keepsRules : tx.check = .ok () ↔ tx.KeepsRules := by
  rw [check_eq_ok_iff, refuseNegative_eq_ok_iff, null_alone_iff]
  constructor
  · rintro ⟨hinputs, houtputs, hnonnegative, htotal, hspentOnce, hnull⟩
    exact ⟨hinputs, houtputs, hnonnegative, (totalOutput?_isSome_iff hnonnegative).1 htotal,
      hspentOnce, hnull⟩
  · rintro ⟨hinputs, houtputs, hnonnegative, htotal, hspentOnce, hnull⟩
    exact ⟨hinputs, houtputs, hnonnegative, (totalOutput?_isSome_iff hnonnegative).2 htotal,
      hspentOnce, hnull⟩

/-- The rules do not speak of the order of inputs and outputs. -/
theorem KeepsRules.of_perm (h : tx.KeepsRules) (hinputs : tx.inputs.Perm tx'.inputs)
    (houtputs : tx.outputs.Perm tx'.outputs) : tx'.KeepsRules where
  spends hnil := h.spends (List.Perm.eq_nil (hnil ▸ hinputs))
  creates hnil := h.creates (List.Perm.eq_nil (hnil ▸ houtputs))
  nonnegative output houtput := h.nonnegative output (houtputs.mem_iff.2 houtput)
  total := (houtputs.map fun output => output.value.toInt).sum_eq ▸ h.total
  spentOnce := (hinputs.map _).nodup_iff.1 h.spentOnce
  nullAlone input hinput hnull := by
    have halone := h.nullAlone input (hinputs.mem_iff.2 hinput) hnull
    rw [halone] at hinputs
    exact List.perm_singleton.1 hinputs.symm

end Transaction

/-! ## Refusals -/

/-- A broken rule is one for single transactions, and the transaction breaks it as the refusal says.
-/
def Violation.Refutes (tx : Transaction) : Violation → Prop
  | .emptyTransfer id => id = tx.id ∧ (tx.inputs = [] ∨ tx.outputs = [])
  | .negativeOutput value index =>
    value < 0 ∧ ∃ output, tx.outputs[index]? = some output ∧ output.value = value
  | .outputOverflow => 2 ^ 63 ≤ (tx.outputs.map fun output => output.value.toInt).sum
  | .repeatedOutpoint o => ∃ pre post, tx.inputs.map Input.prevout = pre ++ o :: post ∧ o ∈ pre
  | .nullOutpoint => ∃ input ∈ tx.inputs, input.prevout.hash = .zero ∧ tx.inputs ≠ [input]
  | _ => False

/-- A refusal names a rule that the transaction breaks. -/
theorem Transaction.refutes_of_check {tx : Transaction} {cause : Violation}
    (h : tx.check = .error cause) : cause.Refutes tx := by
  unfold check at h
  simp only [refuse_eq_error_iff, bind_eq_error_iff] at h
  obtain ⟨hempty, rfl⟩ | ⟨-, hnegative | ⟨_, hnonnegative, hrest⟩⟩ := h
  · exact ⟨rfl, by simpa using hempty⟩
  · obtain ⟨pre, output, post, heq, hbelow, rfl⟩ := refuseNegative_eq_error hnegative
    exact ⟨hbelow, output, by simp [heq], rfl⟩
  · obtain ⟨hnone, rfl⟩ | ⟨-, hrepeated | ⟨_, -, hnull⟩⟩ := hrest
    · have hsum := totalOutput?_isSome_iff (refuseNegative_eq_ok_iff.1 hnonnegative)
      rw [Option.isNone_iff_eq_none.1 hnone] at hsum
      exact Int.not_lt.1 fun hlt => Bool.false_ne_true (hsum.2 hlt)
    · obtain ⟨pre, input, post, heq, hseen, rfl⟩ := refuseRepeated_eq_error hrepeated
      exact ⟨pre.map Input.prevout, post.map Input.prevout, by simp [heq],
        hseen.resolve_left List.not_mem_nil⟩
    · split at hnull
      · rename_i hspends
        obtain ⟨hloose, hany⟩ := Bool.and_eq_true_iff.1 hspends
        obtain ⟨input, hinput, hcoinbase⟩ := List.any_eq_true.1 hany
        rw [Bool.not_eq_true'] at hloose
        cases hnull
        refine ⟨input, hinput, Input.isCoinbase_iff.1 hcoinbase, fun halone => ?_⟩
        rw [isCoinbase, halone] at hloose
        exact Bool.false_ne_true (hloose.symm.trans hcoinbase)
      · cases hnull

/-- A transaction passes if and only if it keeps rules that do not depend on any order, so that
another one with the same inputs and outputs in another order passes as well or fails as well. A
failure names a rule that is broken, and where it ends a validation the verdict is that a rule is
broken. -/
theorem Transaction.check_exact (tx : Transaction) :
    (tx.check = .ok () ↔ tx.KeepsRules) ∧
      (∀ tx' : Transaction, tx.inputs.Perm tx'.inputs → tx.outputs.Perm tx'.outputs →
        (tx.check = .ok () ↔ tx'.check = .ok ())) ∧
      ∀ cause, tx.check = .error cause → cause.Refutes tx ∧
        (∀ s, Run.check tx.check s = .error (.invalid cause) s) ∧
        (Fault.invalid cause).verdict = .contextuallyInvalid cause.message := by
  refine ⟨check_eq_ok_iff_keepsRules, fun tx' hinputs houtputs => ?_, fun cause h => ?_⟩
  · rw [check_eq_ok_iff_keepsRules, check_eq_ok_iff_keepsRules]
    exact ⟨fun h => h.of_perm hinputs houtputs, fun h => h.of_perm hinputs.symm houtputs.symm⟩
  · refine ⟨refutes_of_check h, fun s => ?_, rfl⟩
    rw [h]
    rfl

end ChainRules
