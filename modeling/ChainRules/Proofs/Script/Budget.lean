import ChainRules.Proofs.Script.Step

/-!
# The number of signature checks

Every question to the checker is paid for by operations that were counted before it: one by a check
of one signature, as many as there are keys by a check of several. A script counts at most 201
operations, so it asks at most 201 questions, whatever the answers and also if it is aborted.
-/

namespace ChainRules.Script

/-- How many more operations may be counted. -/
def Machine.budget (m : Machine) : Nat :=
  limits.operations - m.opCount

namespace Exec

variable {α β : Type}

/-- What a computation leaves for questions that come after it: the budget, and what it has counted
beyond its own questions. Nothing comes after a computation that is aborted. -/
def remaining (left : α → Nat) : EStateM.Result Abort Machine α → Nat
  | .ok a m => m.budget + left a
  | .error _ _ => 0

/-- The computation pays for its questions from the budget and from `credit`, which operations that
were counted before have given it. -/
def Pays (credit : Nat) (x : Exec α) (left : α → Nat) : Prop :=
  ∀ m, ∃ asked, (final (x m)).queries = m.queries ++ asked ∧
    asked.length + remaining left (x m) ≤ m.budget + credit

namespace Pays

variable {credit : Nat} {x : Exec α} {left : α → Nat}

theorem bind {f : α → Exec β} {right : β → Nat} (hx : Pays credit x left)
    (hf : ∀ a, Pays (left a) (f a) right) : Pays credit (x >>= f) right := by
  intro m
  obtain ⟨asked, hqueries, hpaid⟩ := hx m
  cases hrun : x m with
  | ok a mid =>
    rw [hrun] at hqueries hpaid
    obtain ⟨more, hmore, hpaid'⟩ := hf a mid
    change mid.queries = m.queries ++ asked at hqueries
    change asked.length + (mid.budget + left a) ≤ m.budget + credit at hpaid
    rw [bind_ok hrun]
    refine ⟨asked ++ more, ?_, ?_⟩
    · rw [hmore, hqueries, List.append_assoc]
    · rw [List.length_append]
      omega
  | error cause mid =>
    rw [hrun] at hqueries hpaid
    rw [bind_error hrun]
    exact ⟨asked, hqueries, hpaid⟩

/-- A computation that asks nothing has only to answer for the operations that it counts. -/
theorem of_leaves (hqueries : Leaves Machine.queries x)
    (hok : ∀ {m a m'}, x m = .ok a m' → m'.budget + left a ≤ m.budget + credit) :
    Pays credit x left := by
  intro m
  refine ⟨[], ?_, ?_⟩
  · rw [List.append_nil]
    exact hqueries m
  · cases hrun : x m with
    | ok a m' =>
      rw [List.length_nil, Nat.zero_add]
      exact hok hrun
    | error cause m' => exact Nat.zero_le _

theorem of_asks {asked : List Query} {answer : α} (hx : Asks x asked answer)
    (hcredit : asked.length + left answer ≤ credit) : Pays credit x left := by
  intro m
  refine ⟨asked, ?_, ?_⟩
  · rw [hx]
    rfl
  · rw [hx]
    simp only [remaining, Machine.budget]
    omega

/-- Questions are kept in the order in which they are asked. -/
theorem prefix_queries {m m' : Machine} {a : α} (hx : Pays credit x left) (h : x m = .ok a m') :
    m.queries <+: m'.queries := by
  obtain ⟨asked, hqueries, -⟩ := hx m
  rw [h] at hqueries
  exact ⟨asked, hqueries.symm⟩

theorem throw (cause : Abort) : Pays credit (MonadExcept.throw cause : Exec α) left :=
  of_leaves (fun _ => rfl) fun h => (by cases h)

theorem check {c : Prop} [Decidable c] {cause : Abort} {next : Unit → Exec α}
    (hnext : ∀ u, Pays credit (next u) left) :
    Pays credit (if c then (MonadExcept.throw cause : Exec Unit) >>= next else next ()) left := by
  split
  · exact throw cause
  · exact hnext ()

theorem mono {credit' : Nat} {left' : α → Nat} (hx : Pays credit x left)
    (hcredit : credit ≤ credit') (hleft : ∀ a, left' a ≤ left a) : Pays credit' x left' := by
  intro m
  obtain ⟨asked, hqueries, hpaid⟩ := hx m
  refine ⟨asked, hqueries, ?_⟩
  cases hrun : x m with
  | ok a m' =>
    rw [hrun] at hpaid
    have hle := hleft a
    simp only [remaining] at hpaid ⊢
    omega
  | error cause m' =>
    rw [hrun] at hpaid
    simp only [remaining] at hpaid ⊢
    omega

end Pays

theorem Pays.modify {credit : Nat} {f : Machine → Machine} (hqueries : ∀ m, (f m).queries = m.queries)
    (hbudget : ∀ m, (f m).budget ≤ m.budget) :
    Pays credit (modify f : Exec PUnit) fun _ => credit := by
  refine .of_leaves hqueries fun h => ?_
  obtain rfl := modify_eq_ok_iff.1 h
  exact Nat.add_le_add_right (hbudget _) credit

/-- Accesses to the state keep the credit. -/
theorem pays_stateAccess (credit : Nat) : StateAccess fun _ x => Pays credit x fun _ => credit where
  pure a := .of_leaves (fun _ => rfl) fun h => by
    obtain ⟨-, rfl⟩ := pure_eq_ok_iff.1 h
    exact Nat.le_refl _
  throw := .throw
  bind := .bind
  look _ hf m := hf m m
  restack _ _ := .modify (fun _ => rfl) fun _ => Nat.le_refl _
  tally _ := .modify (fun _ => rfl) fun _ => by
    simp only [Machine.budget]
    omega

theorem get_pays (credit : Nat) : Pays credit (get : Exec Machine) fun _ => credit :=
  have h := pays_stateAccess credit
  h.look (fun _ _ => rfl) h.pure

theorem queries_stateAccess : StateAccess fun _ x => Leaves Machine.queries x :=
  leaves_stateAccess (fun _ _ _ => rfl) fun _ _ => rfl

/-! ## Operations -/

/-- Counting operations earns credit for as many questions. -/
theorem count_pays (n : Nat) : Pays 0 (count n) fun _ => n := by
  refine .of_leaves (queries_stateAccess.count n) fun h => ?_
  obtain ⟨hlimit, rfl⟩ := count_eq_ok_iff.1 h
  simp only [Machine.budget]
  omega

theorem precheck_pays (o : Operation) : Pays 0 (precheck o) fun _ => o.cost := by
  refine .of_leaves (queries_stateAccess.precheck o) fun h => ?_
  obtain ⟨-, hlimit, -, rfl⟩ := precheck_eq_ok_iff.1 h
  simp only [Machine.budget, Operation.cost]
  cases hcounted : o.opcode.isCounted with
  | false => simp
  | true =>
    have hle := hlimit hcounted
    simp only [if_true]
    omega

theorem ask_pays (check : Checker) (signature key : Bytes) (code : List Operation) :
    Pays 1 (ask check signature key code) fun _ => 0 := by
  have hasks : Asks (ask check signature key code)
      [⟨signature, key, code, check signature key code⟩] (check signature key code) := fun _ => rfl
  exact .of_asks hasks (Nat.le_refl 1)

theorem matchSignatures_pays (check : Checker) (code : List Operation)
    {signatures keys : List Bytes} {n : Nat} (hkeys : keys.length ≤ n) :
    Pays n (matchSignatures check code signatures keys) fun _ => 0 := by
  obtain ⟨answer, asked, hasks, hlen, -⟩ := matchSignatures_asks check code signatures keys
  exact .of_asks hasks (hlen.trans hkeys)

/-- A check of several signatures counts its keys before it asks about them. -/
theorem checkMultisig_pays (check : Checker) (op : Opcode) :
    Pays 0 (checkMultisig check op) fun _ => 0 := by
  unfold checkMultisig
  refine ((pays_stateAccess 0).popNumber op).bind fun keyCount => .check fun _ => ?_
  refine (count_pays _).bind fun _ => ((pays_stateAccess _).require op _).bind fun _ => ?_
  refine (get_pays _).bind fun m => ((pays_stateAccess _).setMain _).bind fun _ => ?_
  refine ((pays_stateAccess _).popNumber op).bind fun sigCount => .check fun _ => ?_
  refine ((pays_stateAccess _).require op _).bind fun _ => (get_pays _).bind fun m' => ?_
  refine ((pays_stateAccess _).setMain _).bind fun _ => (get_pays _).bind fun m'' => ?_
  exact matchSignatures_pays _ _ (List.length_take_le _ _)

theorem ofOpcode?_checkSig_isCounted {op : Opcode} {insist : Bool}
    (h : Instruction.ofOpcode? op = some (.checkSig insist)) : op.isCounted = true := by
  revert op insist
  decide +kernel

/-- An instruction that asks pays for its questions, with what was counted for its opcode. -/
theorem perform_asking_pays (check : Checker) {o : Operation} (rest : List Operation)
    (executing : Bool) {i : Instruction} (hi : Instruction.ofOpcode? o.opcode = some i)
    (hasking : i.isAsking = true) :
    Pays o.cost (perform check o.opcode rest executing i) fun _ => 0 := by
  cases i with
  | checkSig insist =>
    have hcost : o.cost = 1 := if_pos (ofOpcode?_checkSig_isCounted hi)
    have hkeep := pays_stateAccess 1
    rw [hcost]
    refine (hkeep.require o.opcode 2).bind fun _ => (hkeep.pop o.opcode).bind fun key => ?_
    refine (hkeep.pop o.opcode).bind fun signature => (get_pays 1).bind fun m => ?_
    exact (ask_pays _ _ _ _).bind fun answer => (pays_stateAccess 0).deliver _ _ _
  | checkMultisig insist =>
    have hchecked := (checkMultisig_pays check o.opcode).bind fun answer =>
      (pays_stateAccess 0).deliver o.opcode insist answer
    exact hchecked.mono (Nat.zero_le _) fun _ => Nat.le_refl _
  | _ => cases hasking

theorem effect_pays (check : Checker) (o : Operation) (rest : List Operation) (executing : Bool) :
    Pays o.cost (effect check o rest executing) fun _ => 0 := by
  have hkeep := pays_stateAccess o.cost
  have hspend : ∀ {x : Exec Unit}, Pays o.cost x (fun _ => o.cost) → Pays o.cost x fun _ => 0 :=
    fun hx => hx.mono (Nat.le_refl _) fun _ => Nat.zero_le _
  rw [effect_eq]
  split
  · split
    · exact hspend (hkeep.push _)
    · rename_i i hdata hi
      cases hasking : i.isAsking with
      | true => exact perform_asking_pays check rest executing hi hasking
      | false =>
        refine hspend (hkeep.perform _ _ _ _ _ (fun _ _ => ?_) (fun _ => ?_) fun h => ?_)
        · exact .modify (fun _ => rfl) fun _ => Nat.le_refl _
        · exact .modify (fun _ => rfl) fun _ => Nat.le_refl _
        · rw [hasking] at h
          cases h
    · exact .throw _
  · exact hspend (hkeep.pure ())

theorem poll_leaves_queries : Leaves Machine.queries poll := by
  refine Leaves.bind (fun _ => rfl) fun m => Leaves.bind (fun _ => rfl) fun _ => ?_
  exact queries_stateAccess.insist

theorem poll_pays : Pays 0 poll fun _ => 0 := by
  refine .of_leaves poll_leaves_queries fun h => ?_
  obtain ⟨-, rfl⟩ := poll_eq_ok_iff.1 h
  exact Nat.le_refl _

/-- What an operation asks is paid by what is counted for it. -/
theorem execute_pays (check : Checker) (o : Operation) (rest : List Operation) :
    Pays 0 (execute check o rest) fun _ => 0 := by
  rw [execute_eq]
  refine poll_pays.bind fun _ => (get_pays 0).bind fun m => (precheck_pays o).bind fun _ => ?_
  exact (effect_pays check o rest _).bind fun _ => (pays_stateAccess 0).checkStacks

/-! ## Whole runs -/

/-- By induction along the operations: what one of them leaves of the budget is for the next. -/
theorem run_pays (check : Checker) (ops : List Operation) : Pays 0 (run check ops) fun _ => 0 := by
  induction ops with
  | nil => exact (pays_stateAccess 0).pure ()
  | cons o rest ih => exact (execute_pays check o rest).bind fun _ => ih

/-- From no machine does the computation ask more than `n` questions. -/
def AsksAtMost (n : Nat) (x : Exec α) : Prop :=
  ∀ m, ∃ asked, (final (x m)).queries = m.queries ++ asked ∧ asked.length ≤ n

theorem AsksAtMost.bind {n k : Nat} {x : Exec α} {f : α → Exec β} (hx : AsksAtMost n x)
    (hf : ∀ a, AsksAtMost k (f a)) : AsksAtMost (n + k) (x >>= f) := by
  intro m
  obtain ⟨asked, hqueries, hlen⟩ := hx m
  cases hrun : x m with
  | ok a mid =>
    rw [hrun] at hqueries
    obtain ⟨more, hmore, hlen'⟩ := hf a mid
    change mid.queries = m.queries ++ asked at hqueries
    rw [bind_ok hrun]
    refine ⟨asked ++ more, ?_, ?_⟩
    · rw [hmore, hqueries, List.append_assoc]
    · rw [List.length_append]
      omega
  | error cause mid =>
    rw [hrun] at hqueries
    rw [bind_error hrun]
    exact ⟨asked, hqueries, by omega⟩

theorem operations_asksAtMost (check : Checker) (ops : List Operation) :
    AsksAtMost limits.operations (operations check ops) := by
  intro m
  have hpays : Pays 0 (do
      run check ops
      if !(← get).branches.isEmpty then throw .unbalancedConditional) fun _ => 0 :=
    (run_pays check ops).bind fun _ => (pays_stateAccess 0).look (fun _ _ => rfl) fun _ =>
      (pays_stateAccess 0).insist
  obtain ⟨asked, hqueries, hpaid⟩ := hpays { m with branches := [], opCount := 0, code := ops }
  refine ⟨asked, hqueries, ?_⟩
  simp only [Machine.budget] at hpaid
  omega

theorem script_asksAtMost (check : Checker) (bytes : Bytes) :
    AsksAtMost limits.operations (script check bytes) := by
  have hthrow : ∀ cause, AsksAtMost limits.operations (throw cause : Exec Unit) :=
    fun cause m => ⟨[], (List.append_nil _).symm, Nat.zero_le _⟩
  unfold script
  dsimp only
  split
  · exact hthrow _
  · split
    · exact operations_asksAtMost check _
    · exact hthrow _

end Exec

/-- A run asks at most 201 questions, and a spend at most 402, whatever the answers are and however it
ends. -/
theorem questions_bounded (check : Checker) :
    (∀ (ops : List Operation) (m : Machine), ∃ asked,
      (Exec.final (Exec.operations check ops m)).queries = m.queries ++ asked ∧
        asked.length ≤ 201) ∧
    ∀ (token : Token) (unlock lock : Bytes),
      (Exec.final (spend check token unlock lock)).queries.length ≤ 402 := by
  refine ⟨Exec.operations_asksAtMost check, fun token unlock lock => ?_⟩
  have hanswer : Exec.AsksAtMost 0 (do return (← get).top?.getD false : Exec Bool) :=
    fun m => ⟨[], (List.append_nil _).symm, Nat.le_refl _⟩
  have hspend : Exec.AsksAtMost 402 (Exec.spend check unlock lock) :=
    (Exec.script_asksAtMost check unlock).bind fun _ =>
      (Exec.script_asksAtMost check lock).bind fun _ => hanswer
  obtain ⟨asked, hqueries, hlen⟩ := hspend (Machine.empty token)
  have hasked : (Exec.final (spend check token unlock lock)).queries = asked := hqueries
  rw [hasked]
  exact hlen

end ChainRules.Script
