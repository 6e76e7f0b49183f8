import ChainRules.Proofs.Script.Skipping

/-!
# Balanced conditionals

The open conditionals of a machine are as many as a reader of the script would count at the same place,
whichever branches are taken. So a script that runs to its end closes what it opens, and which script
does is seen without running it.
-/

namespace ChainRules.Script

/-! ## Depths of nesting -/

section Nests

variable {o : Operation} {ops : List Operation} {depth : Nat}

theorem nests_open (h : o.opcode = .opIf ∨ o.opcode = .opNotIf) :
    nests depth (o :: ops) = nests (depth + 1) ops := by
  rw [nests, if_pos h]

theorem nests_turn (h : o.opcode = .opElse) :
    nests (depth + 1) (o :: ops) = nests (depth + 1) ops := by
  rw [nests, h, if_neg (by decide), if_pos rfl]
  simp

theorem nests_close (h : o.opcode = .opEndIf) :
    nests (depth + 1) (o :: ops) = nests depth ops := by
  rw [nests, h, if_neg (by decide), if_neg (by decide), if_pos rfl]
  simp

theorem nests_plain (h : o.opcode.isConditional = false) :
    nests depth (o :: ops) = nests depth ops := by
  rw [← Bool.not_eq_true, Opcode.isConditional_iff, not_or] at h
  obtain ⟨hopens, hother⟩ := h
  obtain ⟨hturns, hcloses⟩ := not_or.1 hother
  rw [nests, if_neg hopens, if_neg hturns, if_neg hcloses]

end Nests

theorem ofOpcode?_isBranch {op : Opcode} {i : Instruction}
    (hi : Instruction.ofOpcode? op = some i) : i.isBranch = op.isConditional := by
  have hall : ∀ op : Opcode, (Instruction.ofOpcode? op).all (·.isBranch = op.isConditional) = true := by
    decide +kernel
  simpa [hi] using hall op

variable {check : Checker} {rest : List Operation} {executing : Bool} {m m' : Machine}

/-- Only the instructions on conditionals open or close any. -/
theorem Instruction.Effect.branches_eq {i : Instruction} (h : i.Effect check rest executing m m')
    (hi : i.isBranch = false) : m'.branches = m.branches := by
  cases h with
  | openTaken | openPassed | turn | close => cases hi
  | _ => rfl

/-- What an instruction does to the open conditionals is what a reader expects of its opcode. -/
theorem Instruction.Effect.nests {o : Operation} {i : Instruction}
    (h : i.Effect check rest executing m m') (hi : ofOpcode? o.opcode = some i)
    {ops : List Operation} (hops : nests m'.branches.length ops = true) :
    nests m.branches.length (o :: ops) = true := by
  cases hcond : o.opcode.isConditional with
  | false =>
    rw [h.branches_eq ((ofOpcode?_isBranch hi).trans hcond)] at hops
    rw [nests_plain hcond]
    exact hops
  | true =>
    rcases (Opcode.isConditional_iff _).1 hcond with hop | hop | hop
    · rw [nests_open hop]
      have hopens : ∃ inverted, i = .openBranch inverted := by
        rcases hop with hop | hop <;> rw [hop] at hi
        · exact ⟨false, (Option.some.inj hi).symm⟩
        · exact ⟨true, (Option.some.inj hi).symm⟩
      obtain ⟨inverted, rfl⟩ := hopens
      cases h with
      | rewrite h => cases h
      | openTaken => exact hops
      | openPassed => exact hops
    · rw [hop] at hi
      obtain rfl : turnBranch = i := Option.some.inj hi
      cases h with
      | rewrite h => cases h
      | turn hbranches =>
        rw [hbranches, List.length_cons, nests_turn hop]
        exact hops
    · rw [hop] at hi
      obtain rfl : closeBranch = i := Option.some.inj hi
      cases h with
      | rewrite h => cases h
      | close hbranches =>
        rw [hbranches, List.length_cons, nests_close hop]
        exact hops

theorem Operation.Effect.nests {o : Operation} (h : o.Effect check rest executing m m')
    (hform : o.WellFormed) {ops : List Operation} (hops : nests m'.branches.length ops = true) :
    nests m.branches.length (o :: ops) = true := by
  cases h with
  | push _ hdata =>
    have hplain : o.opcode.isConditional = false := by
      rw [← Bool.not_eq_true]
      intro hcond
      rw [(hform.isActive executing hcond).1] at hdata
      cases hdata
    rw [nests_plain hplain]
    exact hops
  | perform _ _ hi h => exact h.nests hi hops
  | pass hpassive =>
    have hplain : o.opcode.isConditional = false := by
      rw [← Bool.not_eq_true]
      intro hcond
      rw [(hform.isActive executing hcond).2] at hpassive
      cases hpassive
    rw [nests_plain hplain]
    exact hops

namespace Exec

theorem nests_of_execute {o : Operation} (h : execute check o rest m = .ok () m')
    (hform : o.WellFormed) (hrest : nests m'.branches.length rest = true) :
    nests m.branches.length (o :: rest) = true := by
  obtain ⟨-, mid, hchecked, heffect, -⟩ := execute_eq_ok_iff.1 h
  obtain ⟨-, -, -, rfl⟩ := precheck_eq_ok_iff.1 hchecked
  exact (effect_eq_ok_iff.1 heffect).nests hform hrest

/-- By induction along the operations: what is read behind an operation closes the conditionals that
are open there. -/
theorem nests_of_run {ops : List Operation} (hforms : ∀ o ∈ ops, o.WellFormed)
    (h : run check ops m = .ok () m') (hclosed : m'.branches = []) :
    nests m.branches.length ops = true := by
  induction ops generalizing m with
  | nil =>
    obtain rfl := run_nil_eq_ok_iff.1 h
    rw [hclosed]
    rfl
  | cons o rest ih =>
    rw [List.forall_mem_cons] at hforms
    obtain ⟨mid, hexecuted, hrest⟩ := run_cons_eq_ok_iff.1 h
    exact nests_of_execute hexecuted hforms.1 (ih hforms.2 hrest)

/-- A script that runs to its end is the written form of operations that close what they open. -/
theorem nests_of_script {bytes : Bytes} (h : script check bytes m = .ok () m') :
    ∃ ops, parse bytes = .ok ops ∧ nests 0 ops = true := by
  unfold script at h
  dsimp only at h
  rw [check_eq_ok_iff] at h
  cases hparse : parse bytes with
  | error cause =>
    rw [hparse] at h
    cases h.2
  | ok ops =>
    rw [hparse] at h
    obtain ⟨hrun, hclosed⟩ := operations_eq_ok_iff.1 h.2
    exact ⟨ops, rfl, nests_of_run (parse_eq_ok_iff.1 hparse).1 hrun hclosed⟩

end Exec

/-- Conditionals balance within each script: a spend that is decided at all has two scripts each of
which closes what it opens, and a script that does not is aborted, whatever is on the stacks. -/
theorem conditionals_balanced (check : Checker) :
    (∀ (token : Token) (unlock lock : Bytes) (answer : Bool) (m : Machine),
      spend check token unlock lock = .ok answer m →
      ∃ ops ops', parse unlock = .ok ops ∧ nests 0 ops = true ∧
        parse lock = .ok ops' ∧ nests 0 ops' = true) ∧
    ∀ (bytes : Bytes) (ops : List Operation), bytes.length ≤ 10000 → parse bytes = .ok ops →
      nests 0 ops = false → ∀ m, ∃ cause stopped, Exec.script check bytes m = .error cause stopped := by
  refine ⟨?_, ?_⟩
  · intro token unlock lock answer m hspend
    obtain ⟨mid, hunlock, hlock, -⟩ := Exec.spend_eq_ok_iff.1 hspend
    obtain ⟨ops, hparse, hnests⟩ := Exec.nests_of_script hunlock
    obtain ⟨ops', hparse', hnests'⟩ := Exec.nests_of_script hlock
    exact ⟨ops, ops', hparse, hnests, hparse', hnests'⟩
  · intro bytes ops _ hparse hnests m
    cases hrun : Exec.script check bytes m with
    | error cause stopped => exact ⟨cause, stopped, rfl⟩
    | ok _ m' =>
      obtain ⟨ops', hparse', hnests'⟩ := Exec.nests_of_script hrun
      cases hparse.symm.trans hparse'
      rw [hnests] at hnests'
      cases hnests'

/-- A conditional that is opened in one script is not closed in the other one. -/
theorem conditionals_balanced_separately :
    let check : Checker := fun _ _ _ => false
    (∃ m, spend check .never [0x51] [0x63, 0x51, 0x67, 0x67, 0x68] = .ok true m) ∧
      nests 0 [.bare .opIf, .bare .op1, .bare .opElse, .bare .opElse, .bare .opEndIf] = true ∧
      ∃ cause stopped, Exec.script check [0x51, 0x63] (Machine.empty .never) = .error cause stopped := by
  intro check
  obtain ⟨hspends, hscripts⟩ := conditionals_balanced check
  have hspent : ∃ m, spend check .never [0x51] [0x63, 0x51, 0x67, 0x67, 0x68] = .ok true m :=
    ⟨_, rfl⟩
  obtain ⟨m, hm⟩ := hspent
  obtain ⟨_, ops, -, -, hparse, hnests⟩ := hspends _ _ _ _ _ hm
  obtain rfl : [.bare .opIf, .bare .op1, .bare .opElse, .bare .opElse, .bare .opEndIf] = ops :=
    Except.ok.inj hparse
  exact ⟨⟨m, hm⟩, hnests,
    hscripts [0x51, 0x63] [.bare .op1, .bare .opIf] (by decide) rfl (by decide) _⟩

end ChainRules.Script
