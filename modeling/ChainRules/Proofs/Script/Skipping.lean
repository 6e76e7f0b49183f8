import ChainRules.Proofs.Script.Decoding
import ChainRules.Proofs.Script.Limits

/-!
# Branches that are not taken

Inside a branch that is not taken, operations open and close conditionals and do nothing else. So a
block that closes what it opens leaves the machine as it was, but for the operations that it counts.
Only what no script may contain at all fails there, and that fails everywhere.
-/

namespace ChainRules.Script

/-! ## Blocks -/

/-- Whether operations close the conditionals that they open, of which `depth` are open already:
none is turned or closed while no one is open, and none is open in the end. -/
def nests : (depth : Nat) → List Operation → Bool
  | depth, [] => depth = 0
  | depth, o :: ops =>
    if o.opcode = .opIf ∨ o.opcode = .opNotIf then nests (depth + 1) ops
    else if o.opcode = .opElse then 0 < depth && nests depth ops
    else if o.opcode = .opEndIf then 0 < depth && nests (depth - 1) ops
    else nests depth ops

/-- Whether scripts may contain the operation where it is not executed: its item is not too long, and
its opcode is neither disabled nor one of the withdrawn conditionals. -/
def Operation.isSkippable (o : Operation) : Bool :=
  o.data.all (·.length ≤ limits.itemSize) && !o.opcode.isDisabled && !o.opcode.isForbiddenBranch

theorem Operation.isSkippable_iff {o : Operation} :
    o.isSkippable = true ↔ (∀ data, o.data = some data → data.length ≤ limits.itemSize) ∧
      o.opcode.isDisabled = false ∧ o.opcode.isForbiddenBranch = false := by
  unfold isSkippable
  cases o.data <;> simp [and_assoc]

theorem Operation.WellFormed.data_eq_none {o : Operation} (h : o.WellFormed)
    (hop : ¬o.opcode ≤ .opPushData4) : o.data = none := by
  have hdata := ((Operation.wellFormed_iff o).1 h).1
  rw [← Option.not_isSome_iff_eq_none, hdata]
  exact hop

theorem Opcode.isConditional_iff (op : Opcode) :
    op.isConditional = true ↔ (op = .opIf ∨ op = .opNotIf) ∨ op = .opElse ∨ op = .opEndIf := by
  simp [isConditional, or_assoc]

/-- Operations on conditionals carry no data, and take effect also where execution is off. -/
theorem Operation.WellFormed.isActive {o : Operation} (hform : o.WellFormed) (executing : Bool)
    (hcond : o.opcode.isConditional = true) : o.data = none ∧ o.isActive executing = true := by
  have hop : ¬o.opcode ≤ .opPushData4 := by
    rcases (Opcode.isConditional_iff _).1 hcond with (hop | hop) | hop | hop <;> rw [hop] <;> decide
  have hdata := hform.data_eq_none hop
  exact ⟨hdata, by simp [Operation.isActive, hdata, hcond]⟩

/-- The conditionals that are open behind an operation that is passed over. -/
def Operation.passOver (o : Operation) (branches : List Bool) : List Bool :=
  if o.opcode = .opIf ∨ o.opcode = .opNotIf then false :: branches
  else if o.opcode = .opElse then branches.modifyHead (!·)
  else if o.opcode = .opEndIf then branches.tail
  else branches

theorem Operation.passOver_open {o : Operation} (h : o.opcode = .opIf ∨ o.opcode = .opNotIf)
    (branches : List Bool) : o.passOver branches = false :: branches :=
  if_pos h

theorem Operation.passOver_turn {o : Operation} (h : o.opcode = .opElse) (taken : Bool)
    (outer : List Bool) : o.passOver (taken :: outer) = (!taken) :: outer := by
  rw [passOver, h, if_neg (by decide), if_pos rfl]
  rfl

theorem Operation.passOver_close {o : Operation} (h : o.opcode = .opEndIf) (taken : Bool)
    (outer : List Bool) : o.passOver (taken :: outer) = outer := by
  rw [passOver, h, if_neg (by decide), if_neg (by decide), if_pos rfl]
  rfl

theorem Operation.passOver_plain {o : Operation} (h : ¬o.opcode.isConditional = true)
    (branches : List Bool) : o.passOver branches = branches := by
  rw [Opcode.isConditional_iff, not_or] at h
  obtain ⟨hopens, hother⟩ := h
  obtain ⟨hturns, hcloses⟩ := not_or.1 hother
  rw [passOver, if_neg hopens, if_neg hturns, if_neg hcloses]

/-- In a block that nests, what is passed over leaves the conditionals around the block as they
are. -/
theorem Operation.passOver_append {o : Operation} {ops : List Operation} {inner : List Bool}
    (h : nests inner.length (o :: ops) = true) (outer : List Bool) :
    ∃ inner', o.passOver (inner ++ outer) = inner' ++ outer ∧ nests inner'.length ops = true := by
  unfold nests at h
  by_cases hopens : o.opcode = .opIf ∨ o.opcode = .opNotIf
  · rw [if_pos hopens] at h
    exact ⟨false :: inner, passOver_open hopens _, h⟩
  rw [if_neg hopens] at h
  by_cases hturns : o.opcode = .opElse
  · rw [if_pos hturns, Bool.and_eq_true, decide_eq_true_eq] at h
    cases inner with
    | nil => exact absurd h.1 (Nat.lt_irrefl 0)
    | cons taken inner => exact ⟨(!taken) :: inner, passOver_turn hturns taken _, h.2⟩
  rw [if_neg hturns] at h
  by_cases hcloses : o.opcode = .opEndIf
  · rw [if_pos hcloses, Bool.and_eq_true, decide_eq_true_eq] at h
    cases inner with
    | nil => exact absurd h.1 (Nat.lt_irrefl 0)
    | cons taken inner => exact ⟨inner, passOver_close hcloses taken _, h.2⟩
  rw [if_neg hcloses] at h
  refine ⟨inner, passOver_plain ?_ _, h⟩
  rw [Opcode.isConditional_iff]
  tauto

/-! ## Single operations -/

/-- Where execution is off, an operation does nothing but to conditionals. -/
theorem Operation.effect_passOver (check : Checker) {o : Operation} (rest : List Operation)
    (hform : o.WellFormed) (hmeant : o.opcode.isForbiddenBranch = false) {m : Machine}
    (hopen : m.branches ≠ []) :
    o.Effect check rest false m { m with branches := o.passOver m.branches } := by
  obtain ⟨taken, outer, hbranches⟩ := List.exists_cons_of_ne_nil hopen
  by_cases hcond : o.opcode.isConditional = true
  · obtain ⟨hdata, hactive⟩ := hform.isActive false hcond
    rcases (Opcode.isConditional_iff _).1 hcond with hop | hop | hop
    · rw [passOver_open hop]
      rcases hop with hop | hop
      · exact .perform hactive hdata (by rw [hop]; rfl) (.openPassed rfl)
      · exact .perform hactive hdata (by rw [hop]; rfl) (.openPassed rfl)
    · rw [hbranches, passOver_turn hop]
      exact .perform hactive hdata (by rw [hop]; rfl) (.turn hbranches)
    · rw [hbranches, passOver_close hop]
      exact .perform hactive hdata (by rw [hop]; rfl) (.close hbranches)
  · rw [passOver_plain hcond]
    refine .pass ?_
    simp [isActive, hcond, hmeant]

namespace Exec

variable {check : Checker} {o : Operation} {rest : List Operation} {m m' : Machine}

theorem count_eq_error {n : Nat} (h : limits.operations < m.opCount + n) :
    count n m = .error .opCount { m with opCount := m.opCount + n } := by
  have hcounted : (modify fun m => { m with opCount := m.opCount + n } : Exec PUnit) m =
      .ok () { m with opCount := m.opCount + n } := modify_eq_ok_iff.2 rfl
  rw [count, bind_ok hcounted, bind_ok (get_eq_ok_iff.2 ⟨rfl, rfl⟩), if_pos h]
  rfl

/-- What may be skipped passes the checks, or is one operation too many. -/
theorem precheck_skippable (hskip : o.isSkippable = true) (m : Machine) :
    precheck o m = .error .opCount { m with opCount := m.opCount + o.cost } ∨
      precheck o m = .ok () { m with opCount := m.opCount + o.cost } := by
  obtain ⟨hsize, hable, -⟩ := Operation.isSkippable_iff.1 hskip
  by_cases hlimit : o.opcode.isCounted = true → m.opCount + 1 ≤ limits.operations
  · exact .inr (precheck_eq_ok_iff.2 ⟨hsize, hlimit, hable, rfl⟩)
  · left
    push Not at hlimit
    obtain ⟨hcounted, hover⟩ := hlimit
    have hcost : o.cost = 1 := if_pos hcounted
    have hcount := bind_error (f := fun _ => if o.opcode.isDisabled = true then
      throw (.disabledOpcode o.opcode) else pure ()) (count_eq_error hover)
    rw [hcost, precheck]
    cases hdata : o.data with
    | none =>
      dsimp only
      rw [if_pos hcounted]
      exact hcount
    | some data =>
      dsimp only
      rw [if_neg (Nat.not_lt.2 (hsize data hdata)), if_pos hcounted]
      exact hcount

/-- Where execution is off, what may be skipped is passed over, or is one operation too many. -/
theorem execute_skippable (check : Checker) (rest : List Operation) (hform : o.WellFormed)
    (hskip : o.isSkippable = true) (hcalm : m.token = .never) (hoff : false ∈ m.branches)
    (hroom : m.main.length + m.alt.length ≤ limits.stackSize) :
    execute check o rest m = .error .opCount { m with opCount := m.opCount + o.cost } ∨
      execute check o rest m = .ok ()
        { m with opCount := m.opCount + o.cost, branches := o.passOver m.branches } := by
  have hexecuting : m.isExecuting = false := by
    rw [Machine.isExecuting, List.all_eq_false]
    exact ⟨false, hoff, by decide⟩
  rw [execute_calm check o rest hcalm, hexecuting]
  rcases precheck_skippable hskip m with hover | hchecked
  · exact .inl (bind_error hover)
  · right
    obtain ⟨-, -, hmeant⟩ := Operation.isSkippable_iff.1 hskip
    have heffect : effect check o rest false { m with opCount := m.opCount + o.cost } = .ok ()
        { m with opCount := m.opCount + o.cost, branches := o.passOver m.branches } :=
      effect_eq_ok_iff.2
        (Operation.effect_passOver check rest hform hmeant (List.ne_nil_of_mem hoff))
    rw [bind_ok hchecked, bind_ok heffect]
    exact checkStacks_eq_ok_iff.2 ⟨hroom, rfl⟩

/-- No operation succeeds that scripts may not contain. -/
theorem isSkippable_of_execute (hform : o.WellFormed) (h : execute check o rest m = .ok () m') :
    o.isSkippable = true := by
  obtain ⟨-, mid, hchecked, heffect, -⟩ := execute_eq_ok_iff.1 h
  obtain ⟨hsize, -, hable, -⟩ := precheck_eq_ok_iff.1 hchecked
  refine Operation.isSkippable_iff.2 ⟨hsize, hable, ?_⟩
  by_contra hforbidden
  rw [Bool.not_eq_false] at hforbidden
  have hcases : o.opcode = .opVerIf ∨ o.opcode = .opVerNotIf := by
    simpa [Opcode.isForbiddenBranch] using hforbidden
  have hdata : o.data = none := by
    apply hform.data_eq_none
    rcases hcases with hop | hop <;> rw [hop] <;> decide
  have hmeaningless : Instruction.ofOpcode? o.opcode = none := by
    rcases hcases with hop | hop <;> rw [hop] <;> rfl
  cases effect_eq_ok_iff.1 heffect with
  | push _ hpushed =>
    rw [hdata] at hpushed
    cases hpushed
  | perform _ _ hi =>
    rw [hmeaningless] at hi
    cases hi
  | pass hpassive => simp [Operation.isActive, hdata, hforbidden] at hpassive

/-! ## Blocks of operations -/

/-- Executes a block of operations with others behind it in the script. -/
def runBefore (check : Checker) : (block rest : List Operation) → Exec Unit
  | [], _ => return ()
  | o :: block, rest => do
    execute check o (block ++ rest)
    runBefore check block rest

/-- A script is run block by block. -/
theorem run_append (check : Checker) (block rest : List Operation) :
    run check (block ++ rest) = (do
      runBefore check block rest
      run check rest) := by
  induction block with
  | nil => rfl
  | cons o block ih =>
    rw [List.cons_append, run, runBefore, ih, bind_assoc]

/-- No block succeeds with an operation that scripts may not contain. -/
theorem isSkippable_of_runBefore {block : List Operation} (hforms : ∀ o ∈ block, o.WellFormed)
    (h : runBefore check block rest m = .ok () m') : ∀ o ∈ block, o.isSkippable = true := by
  induction block generalizing m with
  | nil => simp
  | cons o block ih =>
    rw [List.forall_mem_cons] at hforms ⊢
    rw [runBefore, bind_eq_ok_iff] at h
    obtain ⟨_, mid, hfirst, hrest⟩ := h
    exact ⟨isSkippable_of_execute hforms.1 hfirst, ih hforms.2 hrest⟩

theorem cost_add_countP (o : Operation) (block : List Operation) :
    o.cost + block.countP (.op16 < ·.opcode) = (o :: block).countP (.op16 < ·.opcode) := by
  rw [List.countP_cons, Nat.add_comm]
  rfl

/-- By induction along the block: with the conditionals that it opened in front of the others, what is
left of it closes those and never gets to the others, so that execution stays off. -/
theorem runBefore_skippable {block : List Operation} (hforms : ∀ o ∈ block, o.WellFormed)
    (hskip : ∀ o ∈ block, o.isSkippable = true) {inner outer : List Bool}
    (hnests : nests inner.length block = true) (hbranches : m.branches = inner ++ outer)
    (hoff : false ∈ outer) (hcalm : m.token = .never)
    (hroom : m.main.length + m.alt.length ≤ limits.stackSize) :
    (∃ stopped, runBefore check block rest m = .error .opCount stopped ∧
      stopped.queries = m.queries) ∨
    runBefore check block rest m = .ok ()
      { m with opCount := m.opCount + block.countP (.op16 < ·.opcode), branches := outer } := by
  induction block generalizing m inner with
  | nil =>
    right
    rw [nests, decide_eq_true_eq, List.length_eq_zero_iff] at hnests
    rw [hnests, List.nil_append] at hbranches
    rw [← hbranches]
    rfl
  | cons o block ih =>
    rw [List.forall_mem_cons] at hforms hskip
    obtain ⟨inner', hpassed, hnests'⟩ := Operation.passOver_append hnests outer
    have hoff' : false ∈ m.branches := by
      rw [hbranches]
      exact List.mem_append_right inner hoff
    rw [runBefore]
    rcases execute_skippable check (block ++ rest) hforms.1 hskip.1 hcalm hoff' hroom with
      hover | hfirst
    · exact .inl ⟨_, bind_error hover, rfl⟩
    · rw [hbranches, hpassed] at hfirst
      rw [bind_ok hfirst, ← cost_add_countP, ← Nat.add_assoc]
      exact ih hforms.2 hskip.2 hnests' rfl hcalm hroom

/-! ## Machines that are reached -/

theorem Reaches.suffix {ops : List Operation} (h : Reaches check ops m rest m') : rest <:+ ops := by
  induction h with
  | refl => exact List.suffix_rfl
  | step _ _ ih => exact (List.suffix_cons _ _).trans ih

theorem Reaches.never {ops : List Operation} (h : Reaches check ops m rest m')
    (hm : m.token = .never) : m'.token = .never := by
  induction h with
  | refl => exact hm
  | step _ hexecuted ih => exact (execute_heeds check _ _).never_of_ok ih hexecuted

/-- Any operation that was executed has left room on the stacks. -/
theorem Reaches.room {ops : List Operation} (h : Reaches check ops m rest m') :
    m' = m ∨ m'.main.length + m'.alt.length ≤ limits.stackSize := by
  cases h with
  | refl => exact .inl rfl
  | step _ hexecuted =>
    obtain ⟨-, _, -, -, hroom⟩ := execute_eq_ok_iff.1 hexecuted
    exact .inr hroom

end Exec

/-- A branch that is not taken has no effect. A block of a script that closes what it opens, reached
while execution is off, only adds its operations to those that were counted, unless these become too
many; and it fails with anything in it that scripts may not contain. -/
theorem skipped_block_inert (check : Checker) {bytes : Bytes} {ops : List Operation}
    (hparse : parse bytes = .ok ops) {m₀ m : Machine} (hcalm : m₀.token = .never)
    {block rest : List Operation}
    (hreached : Exec.Reaches check ops (m₀.entering ops) (block ++ rest) m)
    (hoff : false ∈ m.branches) (hnests : nests 0 block = true) :
    (Exec.run check (block ++ rest) = do
      Exec.runBefore check block rest
      Exec.run check rest) ∧
    ((∀ o ∈ block, o.isSkippable = true) →
      (∃ stopped, Exec.runBefore check block rest m = .error .opCount stopped ∧
        stopped.queries = m.queries) ∨
      Exec.runBefore check block rest m =
        .ok () { m with opCount := m.opCount + block.countP (.op16 < ·.opcode) }) ∧
    ((∃ o ∈ block, o.isSkippable = false) →
      ∃ cause stopped, Exec.runBefore check block rest m = .error cause stopped) := by
  have hforms : ∀ o ∈ block, o.WellFormed := by
    intro o ho
    have hmem : o ∈ ops := hreached.suffix.subset (List.mem_append_left rest ho)
    exact (parse_eq_ok_iff.1 hparse).1 o hmem
  have hroom : m.main.length + m.alt.length ≤ limits.stackSize := by
    apply hreached.room.resolve_left
    rintro rfl
    cases hoff
  have hempty : nests ([] : List Bool).length block = true := hnests
  refine ⟨Exec.run_append check block rest, fun hskip => ?_, ?_⟩
  · exact Exec.runBefore_skippable hforms hskip hempty rfl hoff (hreached.never hcalm) hroom
  · rintro ⟨o, ho, hbarred⟩
    cases hrun : Exec.runBefore check block rest m with
    | error cause stopped => exact ⟨cause, stopped, rfl⟩
    | ok _ m' =>
      rw [Exec.isSkippable_of_runBefore hforms hrun o ho] at hbarred
      cases hbarred

/-- A signature check in the second branch of a skipped conditional is not made, and a disabled
operation in a skipped branch fails. -/
theorem skipped_block_inert_nested :
    let check : Checker := fun _ _ _ => true
    let block : List Operation :=
      [.bare .opIf, .bare .op1, .bare .opElse, .bare .opCheckSig, .bare .opEndIf]
    let ops : List Operation := .push [] :: .bare .opIf :: (block ++ [.bare .opEndIf])
    let barred : List Operation := [.push [], .bare .opIf, .bare .opCat, .bare .opEndIf]
    let reached (code : List Operation) : Machine :=
      { Machine.empty .never with branches := [false], opCount := 1, code := code }
    Exec.runBefore check block [.bare .opEndIf] (reached ops) =
        .ok () { reached ops with opCount := 5 } ∧
      ∃ cause stopped, Exec.runBefore check [.bare .opCat] [.bare .opEndIf] (reached barred) =
        .error cause stopped := by
  intro check block ops barred reached
  have hparse : parse [0x00, 0x63, 0x63, 0x51, 0x67, 0xac, 0x68, 0x68] = .ok ops := rfl
  have hreached : Exec.Reaches check ops ((Machine.empty .never).entering ops)
      (block ++ [.bare .opEndIf]) (reached ops) := (Exec.Reaches.refl.step rfl).step rfl
  have hparse' : parse [0x00, 0x63, 0x7e, 0x68] = .ok barred := rfl
  have hreached' : Exec.Reaches check barred ((Machine.empty .never).entering barred)
      ([.bare .opCat] ++ [.bare .opEndIf]) (reached barred) := (Exec.Reaches.refl.step rfl).step rfl
  have hinert := (skipped_block_inert check hparse rfl hreached (by decide) (by decide)).2.1
  have hfails := (skipped_block_inert check hparse' rfl hreached' (by decide) (by decide)).2.2
  refine ⟨(hinert (by decide)).resolve_left ?_, hfails (by decide)⟩
  rintro ⟨_, hover, -⟩
  cases hover

end ChainRules.Script
