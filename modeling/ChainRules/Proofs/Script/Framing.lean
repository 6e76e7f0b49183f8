import ChainRules.Proofs.Script.Budget

/-!
# The bottom of the stacks

A script sees only the items that it uses: with more items at the bottom of the stacks it does the
same, as long as the stacks do not grow too large, and leaves those items where they are. The one
exception is the operation that counts the items of the main stack.
-/

namespace ChainRules.Script

variable {check : Checker} {rest : List Operation} {executing : Bool} {m m' : Machine}

/-- The machine with more items at the bottom of its stacks. -/
def Machine.over (m : Machine) (below belowAlt : Stack) : Machine :=
  { m with main := m.main ++ below, alt := m.alt ++ belowAlt }

/-- The operation that counts the items of the main stack. -/
def stackDepth : Operation :=
  .bare .opDepth

theorem ofOpcode?_eq_depth_iff (op : Opcode) :
    Instruction.ofOpcode? op = some .depth ↔ op = .opDepth := by
  revert op
  decide +kernel

theorem Machine.OffersMultisig.over {base : Stack} {signatures keys : List Item}
    (h : m.OffersMultisig base signatures keys) (below belowAlt : Stack) :
    (m.over below belowAlt).OffersMultisig (base ++ below) signatures keys := by
  obtain ⟨dummy, sigCount, keyCount, hmain, hcounts⟩ := h.main
  refine ⟨⟨dummy, sigCount, keyCount, ?_, hcounts⟩, h.sigCount_le, h.keyCount_le, h.opCount_le⟩
  simp [Machine.over, hmain]

/-- An instruction that does not count the items takes its effect above any other ones. -/
theorem Instruction.Effect.over {i : Instruction} (h : i.Effect check rest executing m m')
    (hi : i ≠ .depth) (below belowAlt : Stack) :
    i.Effect check rest executing (m.over below belowAlt) (m'.over below belowAlt) := by
  have hbelow : ∀ {upper : Stack}, m.main = upper → (m.over below belowAlt).main = upper ++ below :=
    fun hmain => congrArg (· ++ below) hmain
  cases h with
  | rewrite h hmain =>
    have heffect : i.Effect check rest executing (m.over below belowAlt) _ :=
      .rewrite h ((hbelow hmain).trans (List.append_assoc _ _ _))
    rw [← List.append_assoc] at heffect
    exact heffect
  | toAlt hmain => exact .toAlt (hbelow hmain)
  | fromAlt halt => exact .fromAlt (congrArg (· ++ belowAlt) halt)
  | depth => exact absurd rfl hi
  | openTaken hon hmain => exact .openTaken hon (hbelow hmain)
  | openPassed hoff => exact .openPassed hoff
  | turn hbranches => exact .turn hbranches
  | close hbranches => exact .close hbranches
  | separate => exact .separate _
  | checkSig hmain hq h =>
    have hmain' : (m.over below belowAlt).main = _ :: _ :: (_ ++ below) := hbelow hmain
    have heffect : Effect check rest executing (.checkSig _) (m.over below belowAlt) _ :=
      .checkSig hmain' hq h
    rw [← List.append_assoc] at heffect
    exact heffect
  | checkMultisig hoffered hasked h =>
    have heffect : Effect check rest executing (.checkMultisig _) (m.over below belowAlt) _ :=
      .checkMultisig (hoffered.over below belowAlt) hasked h
    rw [← List.append_assoc] at heffect
    exact heffect

theorem Operation.Effect.over {o : Operation} (h : o.Effect check rest executing m m')
    (ho : o ≠ stackDepth) (below belowAlt : Stack) :
    o.Effect check rest executing (m.over below belowAlt) (m'.over below belowAlt) := by
  cases h with
  | push hactive hdata => exact .push hactive hdata
  | perform hactive hdata hi h =>
    refine .perform hactive hdata hi (h.over ?_ below belowAlt)
    rintro rfl
    obtain ⟨op, data⟩ := o
    obtain rfl := (ofOpcode?_eq_depth_iff op).1 hi
    obtain rfl : data = none := hdata
    exact ho rfl
  | pass hpassive => exact .pass hpassive

namespace Exec

/-- What becomes of a computation that leads from `m` to `m'` where more items lie at the bottom: it
leads to the same above them, or it is stopped for the size of the stacks, having asked no other
questions before. -/
inductive Framed (below belowAlt : Stack) (m m' : Machine) :
    EStateM.Result Abort Machine Unit → Prop
  | same : Framed below belowAlt m m' (.ok () (m'.over below belowAlt))
  | full {stopped : Machine} (hbefore : m.queries <+: stopped.queries)
    (hafter : stopped.queries <+: m'.queries) : Framed below belowAlt m m' (.error .stackSize stopped)

theorem precheck_over {o : Operation} (h : precheck o m = .ok () m') (below belowAlt : Stack) :
    precheck o (m.over below belowAlt) = .ok () (m'.over below belowAlt) := by
  obtain ⟨hsize, hlimit, hable, rfl⟩ := precheck_eq_ok_iff.1 h
  exact precheck_eq_ok_iff.2 ⟨hsize, hlimit, hable, rfl⟩

/-- The stacks are looked at as a whole only at the end of an operation. -/
theorem execute_framed {o : Operation} (h : execute check o rest m = .ok () m')
    (ho : o ≠ stackDepth) (below belowAlt : Stack) :
    execute check o rest (m.over below belowAlt) = .ok () (m'.over below belowAlt) ∨
      execute check o rest (m.over below belowAlt) =
        .error .stackSize (m'.over below belowAlt) := by
  obtain ⟨halive, mid, hchecked, heffect, -⟩ := execute_eq_ok_iff.1 h
  have heffect' := effect_eq_ok_iff.2 ((effect_eq_ok_iff.1 heffect).over ho below belowAlt)
  have hexecute : execute check o rest (m.over below belowAlt) =
      checkStacks (m'.over below belowAlt) :=
    execute_of_effect halive (precheck_over hchecked below belowAlt) heffect'
  rw [hexecute, checkStacks_eq]
  split
  · exact .inr rfl
  · exact .inl rfl

/-- By induction along the operations, each of which starts above the same items. -/
theorem run_framed {ops : List Operation} (h : run check ops m = .ok () m')
    (hops : stackDepth ∉ ops) (below belowAlt : Stack) :
    Framed below belowAlt m m' (run check ops (m.over below belowAlt)) := by
  induction ops generalizing m with
  | nil =>
    obtain rfl := run_nil_eq_ok_iff.1 h
    exact .same
  | cons o rest ih =>
    obtain ⟨mid, hexecuted, hrest⟩ := run_cons_eq_ok_iff.1 h
    obtain ⟨ho, hops⟩ := not_or.1 (List.mem_cons.not.1 hops)
    have hbefore : m.queries <+: mid.queries := (execute_pays check o rest).prefix_queries hexecuted
    have hafter : mid.queries <+: m'.queries := (run_pays check rest).prefix_queries hrest
    rw [run]
    cases execute_framed hexecuted (Ne.symm ho) below belowAlt with
    | inl hsame =>
      rw [bind_ok hsame]
      generalize hresult : run check rest (mid.over below belowAlt) = result
      have hframed := ih hrest hops
      rw [hresult] at hframed
      cases hframed with
      | same => exact .same
      | full hmid hafter => exact .full (hbefore.trans hmid) hafter
    | inr hfull =>
      rw [bind_error hfull]
      exact .full hbefore hafter

end Exec

/-- Operations that succeed do the same where more items lie at the bottom of the stacks, and ask the
same questions, unless they are stopped for the size of the stacks. -/
theorem operations_framed (check : Checker) {ops : List Operation} (hops : stackDepth ∉ ops)
    {m m' : Machine} (h : Exec.operations check ops m = .ok () m') (below belowAlt : Stack) :
    (∃ stopped, Exec.operations check ops (m.over below belowAlt) = .error .stackSize stopped ∧
      m.queries <+: stopped.queries ∧ stopped.queries <+: m'.queries) ∨
    Exec.operations check ops (m.over below belowAlt) = .ok () (m'.over below belowAlt) := by
  obtain ⟨hrun, hclosed⟩ := Exec.operations_eq_ok_iff.1 h
  have hframed := Exec.run_framed hrun hops below belowAlt
  generalize hresult : Exec.run check ops (Machine.over _ below belowAlt) = result at hframed
  cases hframed with
  | same => exact .inr (Exec.operations_eq_ok_iff.2 ⟨hresult, hclosed⟩)
  | @full stopped hbefore hafter =>
    exact .inl ⟨stopped, (Exec.bind_ok rfl).trans (Exec.bind_error hresult), hbefore, hafter⟩

theorem operations_framed_pick :
    let check : Checker := fun _ _ _ => false
    let ops : List Operation := [.bare .op1, .bare .opPick]
    let m : Machine := { Machine.empty .never with main := [[7], [8]] }
    let ended : Machine := { m with main := [[8], [7], [8]], opCount := 1, code := ops }
    Exec.operations check ops m = .ok () ended ∧
      Exec.operations check ops (m.over [[9]] [[2]]) = .ok () (ended.over [[9]] [[2]]) := by
  intro check ops m ended
  have hpicked : Exec.operations check ops m = .ok () ended := rfl
  have hframed := operations_framed check (by decide) hpicked [[9]] [[2]]
  refine ⟨hpicked, hframed.resolve_left ?_⟩
  rintro ⟨_, hfull, -⟩
  cases hfull

end ChainRules.Script
