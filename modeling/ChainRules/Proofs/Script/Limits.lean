import ChainRules.Proofs.Script.Numbers
import ChainRules.Proofs.Script.Step

/-!
# Limits on resources

From stacks within the limits a run never leaves them: after every operation that succeeds, the two
stacks together hold at most 1000 items of at most 520 bytes each, and at most 201 operations were
counted. Only the number of items is checked after each operation; that no item grows too long
follows from what each instruction puts on the stack.
-/

namespace ChainRules.Script

/-- No item is longer than items may be. -/
def ItemsFit (s : Stack) : Prop :=
  ∀ item ∈ s, item.length ≤ limits.itemSize

instance (s : Stack) : Decidable (ItemsFit s) :=
  inferInstanceAs (Decidable (∀ item ∈ s, item.length ≤ limits.itemSize))

theorem itemsFit_nil : ItemsFit [] := by
  simp [ItemsFit]

theorem itemsFit_cons {item : Item} {s : Stack} :
    ItemsFit (item :: s) ↔ item.length ≤ limits.itemSize ∧ ItemsFit s := by
  simp [ItemsFit]

theorem itemsFit_append {s t : Stack} : ItemsFit (s ++ t) ↔ ItemsFit s ∧ ItemsFit t := by
  simp [ItemsFit, or_imp, forall_and]

/-- Both stacks together hold as many items as there may be at most, and none of them is too long. -/
structure Machine.StacksFit (m : Machine) : Prop where
  count : m.main.length + m.alt.length ≤ limits.stackSize
  items : ItemsFit (m.main ++ m.alt)

/-- The stacks are within the limits, and so is the number of operations. -/
structure Machine.WithinLimits (m : Machine) : Prop extends m.StacksFit where
  operations : m.opCount ≤ limits.operations

/-! ## What instructions give -/

theorem Item.length_ofBool_le (b : Bool) : (Item.ofBool b).length ≤ limits.itemSize := by
  cases b <;> decide

theorem Number.length_encode_le {n : Int} (h : n.natAbs < 2 ^ 39) :
    (encode n).length ≤ limits.itemSize :=
  ((length_encode_le_iff (k := 5) (by omega)).2 h).trans (by decide)

theorem Delivers.itemsFit {insist answer : Bool} {given : Stack} (h : Delivers insist answer given) :
    ItemsFit given := by
  cases h with
  | item => exact itemsFit_cons.2 ⟨Item.length_ofBool_le _, itemsFit_nil⟩
  | nothing => exact itemsFit_nil

theorem Rearrangement.apply?_subset {r : Rearrangement} {taken given : Stack}
    (h : r.apply? taken = some given) : given ⊆ taken := by
  unfold Rearrangement.apply? at h
  intro item
  split at h
  all_goals cases h
  all_goals simp only [List.mem_cons]
  all_goals tauto

/-- An instruction that takes no long items gives none. -/
theorem Instruction.Rewrites.itemsFit {op : Opcode} {i : Instruction} {taken given : Stack}
    (h : i.Rewrites taken given) (hi : ofOpcode? op = some i) (htaken : ItemsFit taken) :
    ItemsFit given := by
  have hnumber : ∀ {n : Int} {s : Stack}, n.natAbs < 2 ^ 39 → ItemsFit s →
      ItemsFit (Number.encode n :: s) :=
    fun hn hs => itemsFit_cons.2 ⟨Number.length_encode_le hn, hs⟩
  cases h with
  | constant n =>
    have hn := natAbs_constant_le hi
    exact hnumber (by omega) itemsFit_nil
  | nop => exact itemsFit_nil
  | verify h => exact h.itemsFit
  | rearrange h => exact fun item hitem => htaken item (Rearrangement.apply?_subset h hitem)
  | dupIfTrue item =>
    cases item.isTrue with
    | false => exact htaken
    | true => exact itemsFit_cons.2 ⟨(itemsFit_cons.1 htaken).1, htaken⟩
  | size item =>
    have hlen := (itemsFit_cons.1 htaken).1
    have hsize : limits.itemSize = 520 := rfl
    exact hnumber (by omega) htaken
  | pick item =>
    rw [itemsFit_cons, itemsFit_append, itemsFit_cons] at htaken
    exact itemsFit_cons.2 ⟨htaken.2.2.1, itemsFit_append.2 ⟨htaken.2.1, itemsFit_cons.2 htaken.2.2⟩⟩
  | roll item =>
    rw [itemsFit_cons, itemsFit_append, itemsFit_cons] at htaken
    exact itemsFit_cons.2 ⟨htaken.2.2.1, htaken.2.1⟩
  | equal h => exact h.itemsFit
  | unary hn => exact hnumber (UnaryOp.natAbs_eval_lt _ (Item.natAbs_lt_of_number hn)) itemsFit_nil
  | binary ha hb =>
    exact hnumber (BinaryOp.natAbs_eval_lt _ (Item.natAbs_lt_of_number ha)
      (Item.natAbs_lt_of_number hb)) itemsFit_nil
  | numEqualVerify _ _ h => exact h.itemsFit
  | within => exact itemsFit_cons.2 ⟨Item.length_ofBool_le _, itemsFit_nil⟩
  | hash a item =>
    refine itemsFit_cons.2 ⟨?_, itemsFit_nil⟩
    rw [Digest.Algorithm.length_digest]
    cases a <;> decide

/-- An instruction leaves no long items and stays within the number of operations. -/
theorem Instruction.Effect.fits {check : Checker} {rest : List Operation} {executing : Bool}
    {op : Opcode} {i : Instruction} {m m' : Machine} (h : i.Effect check rest executing m m')
    (hi : ofOpcode? op = some i) (hm : m.WithinLimits) :
    ItemsFit (m'.main ++ m'.alt) ∧ m'.opCount ≤ limits.operations := by
  obtain ⟨⟨hcount, hitems⟩, hops⟩ := hm
  rw [itemsFit_append] at hitems ⊢
  cases h with
  | rewrite h hmain =>
    rw [hmain, itemsFit_append] at hitems
    exact ⟨⟨itemsFit_append.2 ⟨h.itemsFit hi hitems.1.1, hitems.1.2⟩, hitems.2⟩, hops⟩
  | toAlt hmain =>
    rw [hmain, itemsFit_cons] at hitems
    exact ⟨⟨hitems.1.2, itemsFit_cons.2 ⟨hitems.1.1, hitems.2⟩⟩, hops⟩
  | fromAlt halt =>
    rw [halt, itemsFit_cons] at hitems
    exact ⟨⟨itemsFit_cons.2 ⟨hitems.2.1, hitems.1⟩, hitems.2.2⟩, hops⟩
  | depth =>
    have hsize : limits.stackSize = 1000 := rfl
    refine ⟨⟨itemsFit_cons.2 ⟨Number.length_encode_le ?_, hitems.1⟩, hitems.2⟩, hops⟩
    omega
  | openTaken _ hmain =>
    rw [hmain, itemsFit_cons] at hitems
    exact ⟨⟨hitems.1.2, hitems.2⟩, hops⟩
  | openPassed | turn | close | separate => exact ⟨hitems, hops⟩
  | checkSig hmain _ h =>
    rw [hmain, itemsFit_cons, itemsFit_cons] at hitems
    exact ⟨⟨itemsFit_append.2 ⟨h.itemsFit, hitems.1.2.2⟩, hitems.2⟩, hops⟩
  | checkMultisig hoffered _ h =>
    obtain ⟨dummy, sigCount, keyCount, hmain, -⟩ := hoffered.main
    rw [hmain] at hitems
    simp only [itemsFit_cons, itemsFit_append] at hitems
    obtain ⟨⟨-, -, -, -, -, hbase⟩, halt⟩ := hitems
    exact ⟨⟨itemsFit_append.2 ⟨h.itemsFit, hbase⟩, halt⟩, hoffered.opCount_le⟩

/-! ## Whole runs -/

/-- The machine at the start of a script: the stacks are kept, while conditionals, count and code
start anew. -/
def Machine.entering (m : Machine) (ops : List Operation) : Machine :=
  { m with branches := [], opCount := 0, code := ops }

namespace Exec

variable {check : Checker}

/-- Executing the operations one after the other leads from a machine to another one, with the last
list of operations to follow. -/
inductive Reaches (check : Checker) (ops : List Operation) (m : Machine) :
    List Operation → Machine → Prop
  | refl : Reaches check ops m ops m
  | step {o : Operation} {rest : List Operation} {mid m' : Machine} :
    Reaches check ops m (o :: rest) mid → execute check o rest mid = .ok () m' →
    Reaches check ops m rest m'

/-- A machine that is reached within the script of these bytes. -/
inductive ReachesIn (check : Checker) (bytes : Bytes) (m : Machine) : Machine → Prop
  | intro {ops rest : List Operation} {m' : Machine} (hparse : parse bytes = .ok ops)
    (hreached : Reaches check ops (m.entering ops) rest m') : ReachesIn check bytes m m'

/-- A machine that is reached in a spend, within either of its scripts. -/
inductive ReachesInSpend (check : Checker) (token : Token) (unlock lock : Bytes) : Machine → Prop
  | unlocking {m' : Machine} (hreached : ReachesIn check unlock (Machine.empty token) m') :
    ReachesInSpend check token unlock lock m'
  | locking {mid m' : Machine} (hunlock : script check unlock (Machine.empty token) = .ok () mid)
    (hreached : ReachesIn check lock mid m') : ReachesInSpend check token unlock lock m'

theorem Reaches.trans {ops rest last : List Operation} {m mid m' : Machine}
    (h : Reaches check ops m rest mid) (h' : Reaches check rest mid last m') :
    Reaches check ops m last m' := by
  induction h' with
  | refl => exact h
  | step _ hexecuted ih => exact ih.step hexecuted

/-- From a machine that is reached, running what follows ends as the whole run does. -/
theorem Reaches.run_eq {ops rest : List Operation} {m m' : Machine}
    (h : Reaches check ops m rest m') : run check ops m = run check rest m' := by
  induction h with
  | refl => rfl
  | step _ hexecuted ih => exact ih.trans (bind_ok hexecuted)

/-- A run that succeeds ends in a machine that it reaches. -/
theorem reaches_of_run {ops : List Operation} {m m' : Machine} (h : run check ops m = .ok () m') :
    Reaches check ops m [] m' := by
  induction ops generalizing m with
  | nil =>
    obtain rfl := run_nil_eq_ok_iff.1 h
    exact .refl
  | cons o rest ih =>
    obtain ⟨mid, hexecuted, hrest⟩ := run_cons_eq_ok_iff.1 h
    exact (Reaches.refl.step hexecuted).trans (ih hrest)

theorem reachesIn_of_script {bytes : Bytes} {m m' : Machine}
    (h : script check bytes m = .ok () m') : ReachesIn check bytes m m' := by
  unfold script at h
  dsimp only at h
  rw [check_eq_ok_iff] at h
  cases hparse : parse bytes with
  | error cause =>
    rw [hparse] at h
    cases h.2
  | ok ops =>
    rw [hparse] at h
    exact .intro hparse (reaches_of_run (operations_eq_ok_iff.1 h.2).1)

/-- An operation that succeeds keeps to the limits. -/
theorem withinLimits_of_execute {o : Operation} {rest : List Operation} {m m' : Machine}
    (hm : m.WithinLimits) (h : execute check o rest m = .ok () m') : m'.WithinLimits := by
  obtain ⟨-, mid, hchecked, heffect, hcount⟩ := execute_eq_ok_iff.1 h
  obtain ⟨hsize, hcounted, -, rfl⟩ := precheck_eq_ok_iff.1 hchecked
  have hops : m.opCount + o.cost ≤ limits.operations := by
    unfold Operation.cost
    split
    · rename_i hop
      exact hcounted hop
    · exact hm.operations
  cases effect_eq_ok_iff.1 heffect with
  | push _ hdata => exact ⟨⟨hcount, itemsFit_cons.2 ⟨hsize _ hdata, hm.items⟩⟩, hops⟩
  | perform _ _ hi h =>
    obtain ⟨hitems, hops'⟩ := h.fits hi ⟨⟨hm.count, hm.items⟩, hops⟩
    exact ⟨⟨hcount, hitems⟩, hops'⟩
  | pass => exact ⟨⟨hcount, hm.items⟩, hops⟩

theorem Reaches.withinLimits {ops rest : List Operation} {m m' : Machine}
    (h : Reaches check ops m rest m') (hm : m.WithinLimits) : m'.WithinLimits := by
  induction h with
  | refl => exact hm
  | step _ hexecuted ih => exact withinLimits_of_execute ih hexecuted

theorem withinLimits_entering {m : Machine} (hm : m.StacksFit) (ops : List Operation) :
    (m.entering ops).WithinLimits :=
  ⟨⟨hm.count, hm.items⟩, Nat.zero_le _⟩

theorem ReachesIn.withinLimits {bytes : Bytes} {m m' : Machine} (h : ReachesIn check bytes m m')
    (hm : m.StacksFit) : m'.WithinLimits := by
  cases h with
  | intro _ hreached => exact hreached.withinLimits (withinLimits_entering hm _)

end Exec

theorem Machine.empty_stacksFit (token : Token) : (Machine.empty token).StacksFit :=
  ⟨Nat.zero_le _, itemsFit_nil⟩

/-- Limits hold throughout: after every operation of a run that starts with stacks within the limits,
and after every operation of both scripts of any spend. -/
theorem withinLimits_throughout (check : Checker) :
    (∀ (ops rest : List Operation) (m m' : Machine), m.StacksFit →
      Exec.Reaches check ops (m.entering ops) rest m' → m'.WithinLimits) ∧
    ∀ (token : Token) (unlock lock : Bytes) (m' : Machine),
      Exec.ReachesInSpend check token unlock lock m' → m'.WithinLimits := by
  refine ⟨?_, ?_⟩
  · intro ops rest m m' hm hreached
    exact hreached.withinLimits (Exec.withinLimits_entering hm ops)
  · intro token unlock lock m' hreached
    have hempty := Machine.empty_stacksFit token
    cases hreached with
    | unlocking hreached => exact hreached.withinLimits hempty
    | locking hunlock hreached =>
      have hmid := (Exec.reachesIn_of_script hunlock).withinLimits hempty
      exact hreached.withinLimits hmid.toStacksFit

theorem withinLimits_throughout_dup :
    let check : Checker := fun _ _ _ => false
    let ops : List Operation := [.bare .opDup]
    let m : Machine := { Machine.empty .never with main := [[1]], alt := [[2]] }
    let ended : Machine := { m.entering ops with main := [[1], [1]], opCount := 1 }
    (m.StacksFit ∧ Exec.Reaches check ops (m.entering ops) [] ended ∧ ended.WithinLimits) ∧
      Exec.ReachesInSpend check .never [0x51] (encode ops) { ended with alt := [] } ∧
      Machine.WithinLimits { ended with alt := [] } := by
  intro check ops m ended
  have hfit : m.StacksFit := ⟨by decide, by decide⟩
  have hreached : Exec.Reaches check ops (m.entering ops) [] ended := Exec.Reaches.refl.step rfl
  have hspend : Exec.ReachesInSpend check .never [0x51] (encode ops) { ended with alt := [] } :=
    .locking rfl (.intro rfl (Exec.Reaches.refl.step rfl))
  have hall := withinLimits_throughout check
  exact ⟨⟨hfit, hreached, hall.1 ops [] m ended hfit hreached⟩, hspend,
    hall.2 .never [0x51] (encode ops) _ hspend⟩

end ChainRules.Script
