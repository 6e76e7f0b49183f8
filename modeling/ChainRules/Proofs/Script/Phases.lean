import ChainRules.Script.Machine

/-!
# The phases of an operation

Executing an operation is a sequence of four steps that can be looked at one by one: the poll, the
checks that come before its effect, the effect, and the check of the stacks.
-/

namespace ChainRules.Script.Exec

/-- What is checked of an operation before it takes effect: the size of its item, the number of
operations so far, and that the opcode is not disabled. -/
def precheck (o : Operation) : Exec Unit := do
  if let some data := o.data then
    if limits.itemSize < data.length then throw (.pushSize data.length)
  if o.opcode.isCounted then count 1
  if o.opcode.isDisabled then throw (.disabledOpcode o.opcode)

/-- The effect of an operation, if it has one in the current branch. -/
def effect (check : Checker) (o : Operation) (rest : List Operation) (executing : Bool) :
    Exec Unit :=
  match o.data with
  | some data => if executing then push data else pure ()
  | none =>
    if executing || o.opcode.isConditional || o.opcode.isForbiddenBranch then
      match Instruction.ofOpcode? o.opcode with
      | some i => perform check o.opcode rest executing i
      | none => throw (.badOpcode o.opcode)
    else pure ()

/-- Insists that both stacks together are within their limit. -/
def checkStacks : Exec Unit := do
  let m ← get
  if limits.stackSize < m.main.length + m.alt.length then throw .stackSize

theorem throw_bind {α β : Type} (cause : Abort) (f : α → Exec β) :
    (throw cause >>= f) = throw cause :=
  rfl

theorem ite_bind {α β : Type} (c : Prop) [Decidable c] (x y : Exec α) (f : α → Exec β) :
    ((if c then x else y) >>= f) = if c then x >>= f else y >>= f := by
  split <;> rfl

theorem execute_eq (check : Checker) (o : Operation) (rest : List Operation) :
    execute check o rest = (do
      poll
      let m ← get
      precheck o
      effect check o rest m.isExecuting
      checkStacks) := by
  unfold execute precheck effect checkStacks
  cases o.data with
  | some data => simp only [ite_bind, throw_bind, bind_assoc, pure_bind]
  | none =>
    cases Instruction.ofOpcode? o.opcode <;>
      simp only [ite_bind, throw_bind, bind_assoc, pure_bind]

theorem pure_eq_ok_iff {α : Type} {a b : α} {m m' : Machine} :
    (pure a : Exec α) m = .ok b m' ↔ b = a ∧ m' = m := by
  simp only [pure, EStateM.pure, EStateM.Result.ok.injEq, eq_comm]

theorem get_eq_ok_iff {m₀ m m' : Machine} :
    (get : Exec Machine) m = .ok m₀ m' ↔ m₀ = m ∧ m' = m :=
  pure_eq_ok_iff

theorem modify_eq_ok_iff {f : Machine → Machine} {u : PUnit} {m m' : Machine} :
    (modify f : Exec PUnit) m = .ok u m' ↔ m' = f m := by
  refine ⟨fun h => ?_, fun h => ?_⟩
  · cases h
    rfl
  · rw [h]
    rfl

theorem bind_ok {α β : Type} {x : Exec α} {f : α → Exec β} {a : α} {m mid : Machine}
    (h : x m = .ok a mid) : (x >>= f) m = f a mid := by
  simp only [bind, EStateM.bind, h]

theorem bind_error {α β : Type} {x : Exec α} {f : α → Exec β} {cause : Abort} {m mid : Machine}
    (h : x m = .error cause mid) : (x >>= f) m = .error cause mid := by
  simp only [bind, EStateM.bind, h]

theorem bind_eq_ok_iff {α β : Type} {x : Exec α} {f : α → Exec β} {b : β} {m m' : Machine} :
    (x >>= f) m = .ok b m' ↔ ∃ a mid, x m = .ok a mid ∧ f a mid = .ok b m' := by
  simp only [bind, EStateM.bind]
  cases h : x m with
  | ok a mid =>
    refine ⟨fun hf => ⟨a, mid, rfl, hf⟩, fun hgiven => ?_⟩
    obtain ⟨_, _, heq, hf⟩ := hgiven
    cases heq
    exact hf
  | error cause mid =>
    refine ⟨fun hf => (by cases hf), fun hgiven => ?_⟩
    obtain ⟨_, _, heq, -⟩ := hgiven
    cases heq

theorem check_eq_ok_iff {α : Type} {c : Prop} [Decidable c] {cause : Abort}
    {next : Unit → Exec α} {a : α} {m m' : Machine} :
    (if c then (throw cause : Exec Unit) >>= next else next ()) m = .ok a m' ↔
      ¬c ∧ next () m = .ok a m' := by
  by_cases h : c
  · rw [if_pos h]
    refine ⟨fun hrun => ?_, fun hrun => absurd h hrun.1⟩
    cases hrun
  · simp [h]

theorem insist_eq_ok_iff {c : Prop} [Decidable c] {cause : Abort} {u : Unit} {m m' : Machine} :
    (if c then (throw cause : Exec Unit) else pure ()) m = .ok u m' ↔ ¬c ∧ m' = m := by
  have hcheck : (if c then (throw cause : Exec Unit) >>= pure else pure ()) m = .ok u m' ↔
      ¬c ∧ (pure () : Exec Unit) m = .ok u m' := check_eq_ok_iff
  rw [pure_eq_ok_iff, and_iff_right rfl] at hcheck
  exact hcheck

/-- A look at the machine that may stop the computation leaves it as it is. -/
theorem lookInsist_eq_ok_iff {c : Machine → Prop} [DecidablePred c] {cause : Abort} {u : Unit}
    {m m' : Machine} :
    ((get : Exec Machine) >>= fun m => if c m then (throw cause : Exec Unit) else pure ()) m =
      .ok u m' ↔ ¬c m ∧ m' = m := by
  rw [bind_eq_ok_iff]
  simp only [get_eq_ok_iff, insist_eq_ok_iff]
  refine ⟨?_, ?_⟩
  · intro hgiven
    obtain ⟨_, _, ⟨rfl, rfl⟩, hc, rfl⟩ := hgiven
    exact ⟨hc, rfl⟩
  · intro hgiven
    exact ⟨m, m, ⟨rfl, rfl⟩, hgiven⟩

theorem poll_eq_ok_iff {u : Unit} {m m' : Machine} :
    poll m = .ok u m' ↔
      m.token.isCancelled = false ∧ m' = { m with token := m.token.polled } := by
  simp only [poll, bind_eq_ok_iff, get_eq_ok_iff, modify_eq_ok_iff, insist_eq_ok_iff,
    Bool.not_eq_true]
  refine ⟨?_, ?_⟩
  · intro hgiven
    obtain ⟨_, _, ⟨rfl, rfl⟩, _, _, rfl, halive, rfl⟩ := hgiven
    exact ⟨halive, rfl⟩
  · intro hgiven
    exact ⟨_, _, ⟨rfl, rfl⟩, (), _, rfl, hgiven⟩

theorem checkStacks_eq_ok_iff {u : Unit} {m m' : Machine} :
    checkStacks m = .ok u m' ↔ m.main.length + m.alt.length ≤ limits.stackSize ∧ m' = m := by
  rw [← Nat.not_lt]
  exact lookInsist_eq_ok_iff

theorem checkStacks_eq (m : Machine) :
    checkStacks m = if limits.stackSize < m.main.length + m.alt.length then .error .stackSize m
      else .ok () m := by
  show (if limits.stackSize < m.main.length + m.alt.length then (throw .stackSize : Exec Unit)
    else pure ()) m = _
  split <;> rfl

/-- Where the other steps succeed, only the check of the stacks is left to an operation. -/
theorem execute_of_effect {check : Checker} {o : Operation} {rest : List Operation}
    {m mid m' : Machine} (halive : m.token.isCancelled = false)
    (hchecked : precheck o { m with token := m.token.polled } = .ok () mid)
    (heffect : effect check o rest m.isExecuting mid = .ok () m') :
    execute check o rest m = checkStacks m' := by
  have hpoll : poll m = .ok () { m with token := m.token.polled } := poll_eq_ok_iff.2 ⟨halive, rfl⟩
  rw [execute_eq, bind_ok hpoll, bind_ok (get_eq_ok_iff.2 ⟨rfl, rfl⟩), bind_ok hchecked]
  exact bind_ok heffect

/-- What happens to a machine when an operation is executed: it is polled, the operation is checked
and takes effect, and the stacks that are left are within their limit. -/
theorem execute_eq_ok_iff {check : Checker} {o : Operation} {rest : List Operation}
    {m m' : Machine} :
    execute check o rest m = .ok () m' ↔ m.token.isCancelled = false ∧ ∃ mid,
      precheck o { m with token := m.token.polled } = .ok () mid ∧
      effect check o rest m.isExecuting mid = .ok () m' ∧
      m'.main.length + m'.alt.length ≤ limits.stackSize := by
  simp only [execute_eq, bind_eq_ok_iff, poll_eq_ok_iff, get_eq_ok_iff, checkStacks_eq_ok_iff]
  refine ⟨?_, ?_⟩
  · intro hgiven
    obtain ⟨_, _, ⟨halive, rfl⟩, _, _, ⟨rfl, rfl⟩, _, mid, hchecked, _, m'', heffect, hsize, rfl⟩ :=
      hgiven
    exact ⟨halive, mid, hchecked, heffect, hsize⟩
  · intro hgiven
    obtain ⟨halive, mid, hchecked, heffect, hsize⟩ := hgiven
    exact ⟨(), _, ⟨halive, rfl⟩, _, _, ⟨rfl, rfl⟩, (), mid, hchecked, (), m', heffect, hsize, rfl⟩

/-! ## Single accesses -/

theorem pop_eq_ok_iff {op : Opcode} {item : Item} {m m' : Machine} :
    pop op m = .ok item m' ↔ ∃ rest, m.main = item :: rest ∧ m' = { m with main := rest } := by
  unfold pop
  cases m.main <;> simp [and_assoc, eq_comm]

theorem number_eq_ok_iff {item : Item} {n : Int} {m m' : Machine} :
    number item m = .ok n m' ↔ item.number = .ok n ∧ m' = m := by
  unfold number
  cases item.number with
  | error cause =>
    refine ⟨fun h => ?_, fun h => ?_⟩
    · cases h
    · cases h.1
  | ok k => simp [pure_eq_ok_iff, eq_comm]

theorem popNumber_eq_ok_iff {op : Opcode} {n : Int} {m m' : Machine} :
    popNumber op m = .ok n m' ↔ ∃ item rest,
      m.main = item :: rest ∧ item.number = .ok n ∧ m' = { m with main := rest } := by
  rw [popNumber, bind_eq_ok_iff]
  simp only [pop_eq_ok_iff, number_eq_ok_iff]
  refine ⟨?_, ?_⟩
  · intro hgiven
    obtain ⟨item, _, ⟨rest, hmain, rfl⟩, hitem, rfl⟩ := hgiven
    exact ⟨item, rest, hmain, hitem, rfl⟩
  · intro hgiven
    obtain ⟨item, rest, hmain, hitem, rfl⟩ := hgiven
    exact ⟨item, _, ⟨rest, hmain, rfl⟩, hitem, rfl⟩

theorem count_eq_ok_iff {n : Nat} {u : Unit} {m m' : Machine} :
    count n m = .ok u m' ↔
      m.opCount + n ≤ limits.operations ∧ m' = { m with opCount := m.opCount + n } := by
  rw [count, bind_eq_ok_iff, ← Nat.not_lt]
  simp only [modify_eq_ok_iff]
  refine ⟨?_, ?_⟩
  · intro hgiven
    obtain ⟨_, _, rfl, hcounted⟩ := hgiven
    exact lookInsist_eq_ok_iff.1 hcounted
  · intro hgiven
    exact ⟨(), _, rfl, lookInsist_eq_ok_iff.2 hgiven⟩

theorem require_eq_ok_iff {op : Opcode} {n : Nat} {u : Unit} {m m' : Machine} :
    require op n m = .ok u m' ↔ n ≤ m.main.length ∧ m' = m := by
  rw [← Nat.not_lt]
  exact lookInsist_eq_ok_iff

theorem push_eq_ok_iff {item : Item} {u : Unit} {m m' : Machine} :
    push item m = .ok u m' ↔ m' = m.pushed item :=
  modify_eq_ok_iff

theorem deliver_insist_eq_ok_iff {op : Opcode} {answer : Bool} {u : Unit} {m m' : Machine} :
    deliver op true answer m = .ok u m' ↔ answer = true ∧ m' = m := by
  simp [deliver, insist_eq_ok_iff]

theorem deliver_push_eq_ok_iff {op : Opcode} {answer : Bool} {u : Unit} {m m' : Machine} :
    deliver op false answer m = .ok u m' ↔ m' = m.pushed (Item.ofBool answer) :=
  push_eq_ok_iff

/-- The depth of an item is the number of those above it. -/
theorem atDepth_eq_some_iff {s : Stack} {n : Int} {item : Item} :
    (if n < 0 then none else s[n.toNat]?) = some item ↔
      ∃ above below, s = above ++ item :: below ∧ n = (above.length : Int) := by
  refine ⟨?_, ?_⟩
  · intro hitem
    split at hitem
    · cases hitem
    · obtain ⟨hlt, rfl⟩ := List.getElem?_eq_some_iff.1 hitem
      refine ⟨s.take n.toNat, s.drop (n.toNat + 1), ?_, ?_⟩
      · rw [List.getElem_cons_drop, List.take_append_drop]
      · rw [List.length_take_of_le (Nat.le_of_lt hlt)]
        omega
  · intro hgiven
    obtain ⟨above, below, rfl, rfl⟩ := hgiven
    rw [if_neg (by omega)]
    simp

theorem eraseIdx_atDepth (above below : Stack) (item : Item) :
    (above ++ item :: below).eraseIdx above.length = above ++ below := by
  rw [List.eraseIdx_append_of_length_le (Nat.le_refl _), Nat.sub_self, List.eraseIdx_cons_zero]

theorem itemAt_eq_ok_iff {n : Int} {item : Item} {m m' : Machine} :
    itemAt n m = .ok item m' ↔
      ∃ above below, m.main = above ++ item :: below ∧ n = (above.length : Int) ∧ m' = m := by
  have hrun : itemAt n m = .ok item m' ↔
      (if n < 0 then none else m.main[n.toNat]?) = some item ∧ m' = m := by
    unfold itemAt
    cases (if n < 0 then none else m.main[n.toNat]?) <;> simp [eq_comm]
  rw [hrun, atDepth_eq_some_iff]
  refine ⟨?_, ?_⟩
  · intro hgiven
    obtain ⟨⟨above, below, hmain, hn⟩, rfl⟩ := hgiven
    exact ⟨above, below, hmain, hn, rfl⟩
  · intro hgiven
    obtain ⟨above, below, hmain, hn, rfl⟩ := hgiven
    exact ⟨⟨above, below, hmain, hn⟩, rfl⟩

end ChainRules.Script.Exec
