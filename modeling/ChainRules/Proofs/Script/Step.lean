import ChainRules.Proofs.Script.Cancellation
import ChainRules.Proofs.Script.Effects
import ChainRules.Proofs.Script.Encoding

/-!
# Single steps

What an operation makes of a machine, as far as it succeeds: first what every operation does to it,
then the effect of single instructions. A run of a script that is known operation by operation is
followed by these.
-/

namespace ChainRules.Script

/-- How much the operation counts towards the limit on operations. -/
def Operation.cost (o : Operation) : Nat :=
  if o.opcode.isCounted then 1 else 0

/-- Opcodes that carry data are neither counted nor disabled. -/
theorem Opcode.uncounted_of_le (op : Opcode) (h : op ≤ .opPushData4) :
    op.isCounted = false ∧ op.isDisabled = false := by
  revert op
  decide +kernel

/-- The opcode of a push is one that carries data. -/
theorem Operation.opcode_push_le (data : Bytes) : (push data).opcode ≤ .opPushData4 := by
  unfold push
  dsimp only
  split_ifs with hshort
  · rw [UInt8.le_iff_toNat_le, UInt8.toNat_ofNat']
    have hmod := Nat.mod_le data.length (2 ^ 8)
    have hbound : Opcode.opPushData4.toNat = 0x4e := rfl
    omega
  · decide
  · decide
  · decide

/-- The machine within a script that it runs without conditionals: so many operations are counted,
the script code is `ops`, and the main stack is the given one. -/
def Machine.running (m : Machine) (ops : List Operation) (count : Nat) (main : Stack) : Machine :=
  { m with main := main, branches := [], opCount := count, code := ops }

namespace Exec

variable {check : Checker} {op : Opcode} {o : Operation} {ops rest : List Operation}
  {m m' : Machine} {u : Unit}

theorem run_nil_eq_ok_iff : run check [] m = .ok u m' ↔ m' = m := by
  rw [run, pure_eq_ok_iff, and_iff_right rfl]

theorem run_cons_eq_ok_iff :
    run check (o :: rest) m = .ok u m' ↔
      ∃ mid, execute check o rest m = .ok () mid ∧ run check rest mid = .ok u m' := by
  rw [run, bind_eq_ok_iff]
  refine ⟨?_, ?_⟩
  · intro hgiven
    obtain ⟨_, mid, hfirst, hrest⟩ := hgiven
    exact ⟨mid, hfirst, hrest⟩
  · intro hgiven
    obtain ⟨mid, hfirst, hrest⟩ := hgiven
    exact ⟨(), mid, hfirst, hrest⟩

/-- What is checked before an operation takes effect, and what is counted by it. -/
theorem precheck_eq_ok_iff :
    precheck o m = .ok u m' ↔ (∀ data, o.data = some data → data.length ≤ limits.itemSize) ∧
      (o.opcode.isCounted = true → m.opCount + 1 ≤ limits.operations) ∧
      o.opcode.isDisabled = false ∧ m' = { m with opCount := m.opCount + o.cost } := by
  have hcounted : (do
      if o.opcode.isCounted then count 1
      if o.opcode.isDisabled then throw (.disabledOpcode o.opcode) : Exec Unit) m = .ok u m' ↔
      (o.opcode.isCounted = true → m.opCount + 1 ≤ limits.operations) ∧
        o.opcode.isDisabled = false ∧ m' = { m with opCount := m.opCount + o.cost } := by
    unfold Operation.cost
    dsimp only
    cases o.opcode.isCounted with
    | false => simp [insist_eq_ok_iff]
    | true =>
      simp only [if_true, bind_eq_ok_iff, count_eq_ok_iff, insist_eq_ok_iff, Bool.not_eq_true,
        true_imp_iff]
      refine ⟨?_, ?_⟩
      · intro hgiven
        obtain ⟨_, _, ⟨hlimit, rfl⟩, hable, rfl⟩ := hgiven
        exact ⟨hlimit, hable, rfl⟩
      · intro hgiven
        obtain ⟨hlimit, hable, rfl⟩ := hgiven
        exact ⟨(), _, ⟨hlimit, rfl⟩, hable, rfl⟩
  unfold precheck
  cases o.data with
  | none => simpa using hcounted
  | some data =>
    dsimp only
    rw [check_eq_ok_iff, hcounted, Nat.not_lt]
    simp

/-- An operation without data performs the instruction of its opcode. -/
theorem effect_bare {i : Instruction} (hi : Instruction.ofOpcode? op = some i) :
    effect check (.bare op) rest true = perform check op rest true i := by
  simp [effect, Operation.bare, hi]

/-- The poll does nothing where no one cancels the token. -/
theorem execute_calm (check : Checker) (o : Operation) (rest : List Operation)
    (hm : m.token = .never) :
    execute check o rest m = (do
      precheck o
      effect check o rest m.isExecuting
      checkStacks : Exec Unit) m := by
  have hpolled : ({ m with token := m.token.polled } : Machine) = m := by
    rw [hm, Token.polled_never, ← hm]
  have halive : m.token.isCancelled = false := by rw [hm, Token.isCancelled_never]
  have hpoll : poll m = .ok () m := poll_eq_ok_iff.2 ⟨halive, hpolled.symm⟩
  rw [execute_eq, bind_ok hpoll, bind_ok (get_eq_ok_iff.2 ⟨rfl, rfl⟩)]

/-- A step of a machine whose token no one cancels and in which execution is on. -/
theorem execute_calm_eq_ok_iff (hm : m.token = .never) (hon : m.isExecuting = true) :
    execute check o rest m = .ok () m' ↔
      (∀ data, o.data = some data → data.length ≤ limits.itemSize) ∧
      (o.opcode.isCounted = true → m.opCount + 1 ≤ limits.operations) ∧
      o.opcode.isDisabled = false ∧
      effect check o rest true { m with opCount := m.opCount + o.cost } = .ok () m' ∧
      m'.main.length + m'.alt.length ≤ limits.stackSize := by
  rw [execute_calm check o rest hm, hon]
  simp only [bind_eq_ok_iff, precheck_eq_ok_iff, checkStacks_eq_ok_iff]
  refine ⟨?_, ?_⟩
  · intro hgiven
    obtain ⟨_, _, ⟨hsize, hcount, hable, rfl⟩, _, _, heffect, hstacks, rfl⟩ := hgiven
    exact ⟨hsize, hcount, hable, heffect, hstacks⟩
  · intro hgiven
    obtain ⟨hsize, hcount, hable, heffect, hstacks⟩ := hgiven
    exact ⟨(), _, ⟨hsize, hcount, hable, rfl⟩, (), m', heffect, hstacks, rfl⟩

/-- Where nothing stands in its way, an operation without data is counted, takes effect, and the
stacks are checked. -/
theorem execute_bare (check : Checker) (rest : List Operation) (hcounted : op.isCounted = true)
    (hable : op.isDisabled = false) (halive : m.token.isCancelled = false)
    (hon : m.isExecuting = true) (hcount : m.opCount + 1 ≤ limits.operations) :
    execute check (.bare op) rest m = (do
      effect check (.bare op) rest true
      checkStacks : Exec Unit)
        { m with token := m.token.polled, opCount := m.opCount + 1 } := by
  have hcost : (Operation.bare op).cost = 1 := if_pos hcounted
  have hpoll : poll m = .ok () { m with token := m.token.polled } := poll_eq_ok_iff.2 ⟨halive, rfl⟩
  have hchecked : precheck (.bare op) { m with token := m.token.polled } =
      .ok () { m with token := m.token.polled, opCount := m.opCount + 1 } := by
    refine precheck_eq_ok_iff.2 ⟨nofun, fun _ => hcount, hable, ?_⟩
    rw [hcost]
  have hexecuting : ({ m with token := m.token.polled } : Machine).isExecuting = true := hon
  rw [execute_eq, bind_ok hpoll, bind_ok (get_eq_ok_iff.2 ⟨rfl, rfl⟩), bind_ok hchecked,
    hexecuting]

/-! ## Effects of instructions -/

/-- The computation succeeds exactly if `R` relates the main stack to another one, which then takes
its place; nothing else changes. -/
def Restacks (R : Stack → Stack → Prop) (x : Exec Unit) : Prop :=
  ∀ m m', x m = .ok () m' ↔ ∃ main, R m.main main ∧ m' = { m with main := main }

/-- An instruction that rewrites the topmost items puts one stack in the place of another, with the same
items below. -/
theorem RewritesAs.restacks {i : Instruction} {R : Stack → Stack → Prop} {x : Exec Unit}
    (hx : RewritesAs i x)
    (hR : ∀ s t, R s t ↔ ∃ taken given below, i.Rewrites taken given ∧ s = taken ++ below ∧
      t = given ++ below) : Restacks R x := by
  intro m m'
  rw [hx m m']
  simp only [hR]
  refine ⟨?_, ?_⟩
  · intro hgiven
    obtain ⟨taken, given, below, h, hmain, rfl⟩ := hgiven
    exact ⟨_, ⟨taken, given, below, h, hmain, rfl⟩, rfl⟩
  · intro hgiven
    obtain ⟨_, ⟨taken, given, below, h, hmain, rfl⟩, rfl⟩ := hgiven
    exact ⟨taken, given, below, h, hmain, rfl⟩

theorem perform_rearrange_restacks (op : Opcode) (executing : Bool) (r : Rearrangement) :
    Restacks (fun s t => r.apply? s = some t) (perform check op rest executing (.rearrange r)) :=
  fun _ _ => perform_rearrange_eq_ok_iff

theorem perform_dup_restacks (op : Opcode) (executing : Bool) :
    Restacks (fun s t => ∃ a below, s = a :: below ∧ t = a :: s)
      (perform check op rest executing (.rearrange .dup)) := by
  have hdup : ∀ s t : Stack, Rearrangement.dup.apply? s = some t ↔
      ∃ a below, s = a :: below ∧ t = a :: s := by
    intro s t
    cases s with
    | nil => simp [eq_comm, Rearrangement.apply?]
    | cons a below => simp [eq_comm, Rearrangement.apply?]
  intro m m'
  rw [perform_rearrange_restacks op executing .dup m m']
  simp only [hdup]

theorem perform_hash_restacks (op : Opcode) (executing : Bool) (a : Digest.Algorithm) :
    Restacks (fun s t => ∃ item below, s = item :: below ∧ t = a.digest item :: below)
      (perform check op rest executing (.hash a)) := by
  refine (hash_rewrites a).restacks fun s t => ⟨?_, ?_⟩
  · intro hgiven
    obtain ⟨item, below, rfl, rfl⟩ := hgiven
    exact ⟨_, _, below, .hash a item, rfl, rfl⟩
  · intro hgiven
    obtain ⟨_, _, below, h, rfl, rfl⟩ := hgiven
    cases h with
    | hash _ item => exact ⟨item, below, rfl, rfl⟩

theorem perform_equalVerify_restacks (op : Opcode) (executing : Bool) :
    Restacks (fun s t => ∃ item, s = item :: item :: t)
      (perform check op rest executing (.equal true)) := by
  refine (equal_rewrites true).restacks fun s t => ⟨?_, ?_⟩
  · intro hgiven
    obtain ⟨item, rfl⟩ := hgiven
    have hsame : Delivers true (decide (item = item)) [] := by
      rw [decide_eq_true rfl]
      exact .nothing
    exact ⟨_, _, t, .equal hsame, rfl, rfl⟩
  · intro hgiven
    obtain ⟨_, _, below, h, rfl, rfl⟩ := hgiven
    cases h with
    | @equal _ a b _ h =>
      generalize hanswer : decide (a = b) = answer at h
      cases h
      rw [of_decide_eq_true hanswer]
      exact ⟨b, rfl⟩

theorem perform_checkSig_eq_ok_iff {executing : Bool} :
    perform check op rest executing (.checkSig false) m = .ok u m' ↔
      ∃ key signature below, m.main = key :: signature :: below ∧
        let answer := check signature key (m.scriptCode [signature])
        m' = { m with
          main := Item.ofBool answer :: below
          queries := m.queries ++ [⟨signature, key, m.scriptCode [signature], answer⟩] } := by
  rw [perform_checkSig_iff]
  refine ⟨?_, ?_⟩
  · intro hgiven
    cases hgiven with
    | rewrite h => cases h
    | checkSig hmain hq h =>
      cases h
      subst hq
      exact ⟨_, _, _, hmain, rfl⟩
  · intro hgiven
    obtain ⟨key, signature, below, hmain, rfl⟩ := hgiven
    exact .checkSig hmain rfl (.item _)

/-! ## Straight-line runs -/

variable {main : Stack} {n : Nat}

/-- A run goes on with an operation that has no data by performing its instruction. -/
theorem run_bare_iff (op : Opcode) {i : Instruction} (hi : Instruction.ofOpcode? op = some i)
    (hcounted : op.isCounted = true) (hable : op.isDisabled = false) (hm : m.token = .never) :
    run check (.bare op :: rest) (m.running ops n main) = .ok u m' ↔ n + 1 ≤ limits.operations ∧
      ∃ mid, perform check op rest true i (m.running ops (n + 1) main) = .ok () mid ∧
        mid.main.length + mid.alt.length ≤ limits.stackSize ∧ run check rest mid = .ok u m' := by
  have hcost : (Operation.bare op).cost = 1 := if_pos hcounted
  have hnext : ({ m.running ops n main with opCount := n + 1 } : Machine) =
      m.running ops (n + 1) main := rfl
  have hstep : ∀ mid, execute check (.bare op) rest (m.running ops n main) = .ok () mid ↔
      n + 1 ≤ limits.operations ∧
        perform check op rest true i (m.running ops (n + 1) main) = .ok () mid ∧
        mid.main.length + mid.alt.length ≤ limits.stackSize := by
    intro mid
    rw [execute_calm_eq_ok_iff (m := m.running ops n main) hm rfl, effect_bare hi, hcost]
    change _ ∧ (_ → n + 1 ≤ _) ∧ _ ∧ perform check op rest true i (m.running ops (n + 1) main) = _ ∧
      _ ↔ _
    simp [Operation.bare, hcounted, hable]
  simp only [run_cons_eq_ok_iff, hstep]
  refine ⟨?_, ?_⟩
  · intro hgiven
    obtain ⟨mid, ⟨hlimit, hperform, hstacks⟩, hrest⟩ := hgiven
    exact ⟨hlimit, mid, hperform, hstacks, hrest⟩
  · intro hgiven
    obtain ⟨hlimit, mid, hperform, hstacks, hrest⟩ := hgiven
    exact ⟨mid, ⟨hlimit, hperform, hstacks⟩, hrest⟩

/-- A run goes on with an instruction on the main stack alone from the stack that it leaves. -/
theorem Restacks.run_iff {i : Instruction} {R : Stack → Stack → Prop}
    (hx : Restacks R (perform check op rest true i)) (hi : Instruction.ofOpcode? op = some i)
    (hcounted : op.isCounted = true) (hable : op.isDisabled = false) (hm : m.token = .never) :
    run check (.bare op :: rest) (m.running ops n main) = .ok u m' ↔ n + 1 ≤ limits.operations ∧
      ∃ next, R main next ∧ next.length + m.alt.length ≤ limits.stackSize ∧
        run check rest (m.running ops (n + 1) next) = .ok u m' := by
  simp only [run_bare_iff op hi hcounted hable hm, hx _ _]
  refine and_congr_right fun _ => ⟨?_, ?_⟩
  · intro hgiven
    obtain ⟨_, ⟨next, hnext, rfl⟩, hstacks, hrest⟩ := hgiven
    exact ⟨next, hnext, hstacks, hrest⟩
  · intro hgiven
    obtain ⟨next, hnext, hstacks, hrest⟩ := hgiven
    exact ⟨_, ⟨next, hnext, rfl⟩, hstacks, hrest⟩

/-- A run goes on with an operation that only puts an item on the stack, and is not counted, by doing
that. -/
theorem run_item_iff {item : Item} (hcounted : o.opcode.isCounted = false)
    (hable : o.opcode.isDisabled = false) (heffect : effect check o rest true = push item)
    (hm : m.token = .never) :
    run check (o :: rest) (m.running ops n main) = .ok u m' ↔
      (∀ data, o.data = some data → data.length ≤ limits.itemSize) ∧
        main.length + 1 + m.alt.length ≤ limits.stackSize ∧
        run check rest (m.running ops n (item :: main)) = .ok u m' := by
  have hcost : o.cost = 0 := if_neg (Bool.eq_false_iff.1 hcounted)
  have hstep : ∀ mid, execute check o rest (m.running ops n main) = .ok () mid ↔
      (∀ data, o.data = some data → data.length ≤ limits.itemSize) ∧
        mid = m.running ops n (item :: main) ∧
        mid.main.length + mid.alt.length ≤ limits.stackSize := by
    intro mid
    rw [execute_calm_eq_ok_iff (m := m.running ops n main) hm rfl, heffect, hcost, hcounted, hable,
      push_eq_ok_iff]
    simp [Machine.running, Machine.pushed]
  simp only [run_cons_eq_ok_iff, hstep]
  refine ⟨?_, ?_⟩
  · intro hgiven
    obtain ⟨_, ⟨hsize, rfl, hstacks⟩, hrest⟩ := hgiven
    exact ⟨hsize, hstacks, hrest⟩
  · intro hgiven
    obtain ⟨hsize, hstacks, hrest⟩ := hgiven
    exact ⟨_, ⟨hsize, rfl, hstacks⟩, hrest⟩

/-- A run goes on with a push by putting the data on the stack. -/
theorem run_push_iff {data : Bytes} (hm : m.token = .never) :
    run check (.push data :: rest) (m.running ops n main) = .ok u m' ↔
      data.length ≤ limits.itemSize ∧ main.length + 1 + m.alt.length ≤ limits.stackSize ∧
        run check rest (m.running ops n (data :: main)) = .ok u m' := by
  obtain ⟨hcounted, hable⟩ := Opcode.uncounted_of_le _ (Operation.opcode_push_le data)
  have hdata : (Operation.push data).data = some data := rfl
  rw [run_item_iff hcounted hable rfl hm, hdata]
  simp

/-! ## Whole scripts -/

theorem operations_eq_ok_iff :
    operations check ops m = .ok u m' ↔
      run check ops { m with branches := [], opCount := 0, code := ops } = .ok () m' ∧
        m'.branches = [] := by
  simp only [operations, bind_eq_ok_iff, modify_eq_ok_iff, get_eq_ok_iff, insist_eq_ok_iff]
  refine ⟨?_, ?_⟩
  · intro hgiven
    obtain ⟨_, _, rfl, _, mid, hrun, _, _, ⟨rfl, rfl⟩, hclosed, rfl⟩ := hgiven
    exact ⟨hrun, by simpa using hclosed⟩
  · intro hgiven
    obtain ⟨hrun, hclosed⟩ := hgiven
    exact ⟨(), _, rfl, (), m', hrun, _, _, ⟨rfl, rfl⟩, by simp [hclosed], rfl⟩

/-- A written script that is not too long is run operation by operation. -/
theorem script_encode (check : Checker) (hops : ∀ o ∈ ops, o.WellFormed)
    (hsize : (encode ops).length ≤ limits.scriptSize) :
    script check (encode ops) = operations check ops := by
  unfold script
  rw [parse_encode hops, if_neg (Nat.not_lt.2 hsize)]

theorem spend_eq_ok_iff {unlock lock : Bytes} {answer : Bool} :
    spend check unlock lock m = .ok answer m' ↔ ∃ mid, script check unlock m = .ok () mid ∧
      script check lock mid = .ok () m' ∧ answer = m'.top?.getD false := by
  simp only [spend, bind_eq_ok_iff, get_eq_ok_iff, pure_eq_ok_iff]
  refine ⟨?_, ?_⟩
  · intro hgiven
    obtain ⟨_, mid, hunlock, _, _, hlock, _, _, ⟨rfl, rfl⟩, rfl, rfl⟩ := hgiven
    exact ⟨mid, hunlock, hlock, rfl⟩
  · intro hgiven
    obtain ⟨mid, hunlock, hlock, rfl⟩ := hgiven
    exact ⟨(), mid, hunlock, (), m', hlock, m', m', ⟨rfl, rfl⟩, rfl, rfl⟩

end Exec

end ChainRules.Script
