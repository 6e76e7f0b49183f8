import Mathlib
import ChainRules.Proofs.Script.Phases

/-!
# What instructions are composed of

An instruction is put together from a few accesses to the machine: it looks at it, writes the
stacks, counts operations, asks the checker. A property of computations that these accesses have and
that composition keeps is a property of every instruction. What instructions do to conditionals and
to the script code stands apart, as few of them do it, and so does what only signature checks do.
-/

namespace ChainRules.Script

/-- The machine with another token. -/
def Machine.withToken (t : Token) (m : Machine) : Machine :=
  { m with token := t }

/-- Whether the instruction opens, turns or closes a conditional. -/
def Instruction.isBranch : Instruction → Bool
  | openBranch _ => true
  | turnBranch => true
  | closeBranch => true
  | _ => false

/-- Whether the instruction asks the checker. -/
def Instruction.isAsking : Instruction → Bool
  | checkSig _ => true
  | checkMultisig _ => true
  | _ => false

namespace Exec

/-- A property of computations that composition keeps and that accesses to the state of the machine
have. None of them looks at the token. -/
structure StateAccess (P : (α : Type) → Exec α → Prop) : Prop where
  pure : ∀ {α : Type} (a : α), P α (pure a)
  throw : ∀ {α : Type} (cause : Abort), P α (throw cause)
  bind : ∀ {α β : Type} {x : Exec α} {f : α → Exec β}, P α x → (∀ a, P β (f a)) → P β (x >>= f)
  look : ∀ {β : Type} {f : Machine → Exec β}, (∀ m t, f (m.withToken t) = f m) →
    (∀ m, P β (f m)) → P β (get >>= f)
  restack : ∀ main alt : Stack → Stack → Stack,
    P PUnit (modify fun m => { m with main := main m.main m.alt, alt := alt m.main m.alt })
  tally : ∀ n, P PUnit (modify fun m => { m with opCount := m.opCount + n })

/-- Such a property that questions to the checker have as well. -/
structure Compositional (P : (α : Type) → Exec α → Prop) : Prop extends StateAccess P where
  asked : ∀ q, P PUnit (modify (·.asked q))

namespace StateAccess

variable {P : (α : Type) → Exec α → Prop} (h : StateAccess P)

include h

/-- A check that may stop the computation, before what follows it. -/
theorem check {β : Type} {c : Prop} [Decidable c] {cause : Abort} {next : Unit → Exec β}
    (hnext : ∀ u, P β (next u)) :
    P β (if c then (MonadExcept.throw cause : Exec Unit) >>= next else next ()) := by
  split
  · exact h.bind (h.throw cause) hnext
  · exact hnext ()

/-- A check that may stop the computation. -/
theorem insist {c : Prop} [Decidable c] {cause : Abort} :
    P Unit (if c then (MonadExcept.throw cause : Exec Unit) else Pure.pure ()) := by
  split
  · exact h.throw cause
  · exact h.pure ()

theorem setMain (f : Stack → Stack) : P PUnit (modify fun m => { m with main := f m.main }) :=
  h.restack (fun main _ => f main) fun _ alt => alt

theorem push (item : Item) : P Unit (Exec.push item) :=
  h.setMain _

/-- A computation that is another one for each machine, whatever the token. -/
theorem of_look {β : Type} {x : Exec β}
    (hx : ∀ m : Machine, ∃ y, P β y ∧ ∀ t, x (m.withToken t) = y (m.withToken t)) : P β x := by
  choose next hnext hsame using hx
  have heq : x = get >>= fun m => next (m.withToken .never) :=
    funext fun m => hsame (m.withToken .never) m.token
  rw [heq]
  exact h.look (fun _ _ => rfl) fun m => hnext _

theorem pop (op : Opcode) : P Item (Exec.pop op) := by
  apply h.of_look
  intro m
  unfold Exec.pop
  cases hmain : m.main with
  | nil =>
    refine ⟨_, h.throw (.stackUnderflow op), fun t => ?_⟩
    simp only [Machine.withToken, hmain]
    rfl
  | cons item rest =>
    refine ⟨_, h.bind (h.setMain fun _ => rest) fun _ => h.pure item, fun t => ?_⟩
    simp only [Machine.withToken, hmain]
    rfl

theorem require (op : Opcode) (n : Nat) : P Unit (Exec.require op n) :=
  h.look (fun _ _ => rfl) fun _ => h.insist

theorem number (item : Item) : P Int (Exec.number item) := by
  unfold Exec.number
  split
  · exact h.pure _
  · exact h.throw _

theorem popNumber (op : Opcode) : P Int (Exec.popNumber op) :=
  h.bind (h.pop op) h.number

theorem deliver (op : Opcode) (insist answer : Bool) : P Unit (Exec.deliver op insist answer) := by
  unfold Exec.deliver
  split
  · exact h.insist
  · exact h.push _

theorem count (n : Nat) : P Unit (Exec.count n) :=
  h.bind (h.tally n) fun _ => h.look (fun _ _ => rfl) fun _ => h.insist

theorem itemAt (n : Int) : P Item (Exec.itemAt n) := by
  apply h.of_look
  intro m
  unfold Exec.itemAt
  cases hitem : (if n < 0 then none else m.main[n.toNat]?) with
  | none =>
    refine ⟨_, h.throw .invalidStackOperation, fun t => ?_⟩
    simp only [Machine.withToken, hitem]
    rfl
  | some item =>
    refine ⟨_, h.pure item, fun t => ?_⟩
    simp only [Machine.withToken, hitem]
    rfl

/-- An instruction has the property if what it does to conditionals and to the code has it. Those
that ask the checker have to be shown to have it. -/
theorem perform (check : Checker) (op : Opcode) (rest : List Operation) (executing : Bool)
    (i : Instruction)
    (hbranches : i.isBranch = true → ∀ f : List Bool → List Bool,
      P PUnit (modify fun m => { m with branches := f m.branches }))
    (hcode : i = .codeSeparator → P PUnit (modify fun m => { m with code := rest }))
    (hasking : i.isAsking = true → P Unit (Exec.perform check op rest executing i)) :
    P Unit (Exec.perform check op rest executing i) := by
  cases i with
  | constant n => exact h.push _
  | nop => exact h.pure _
  | openBranch inverted =>
    simp only [Exec.perform]
    split
    · rw [map_eq_pure_bind]
      exact h.bind (h.bind (h.pop op) fun _ => h.pure _) fun taken => hbranches rfl (taken :: ·)
    · exact h.bind (h.pure _) fun taken => hbranches rfl (taken :: ·)
  | turnBranch =>
    apply h.of_look
    intro m
    cases hcase : m.branches with
    | nil =>
      refine ⟨_, h.throw .unbalancedConditional, fun t => ?_⟩
      simp only [Exec.perform, Machine.withToken, hcase]
      rfl
    | cons taken outer =>
      refine ⟨_, hbranches rfl fun _ => (!taken) :: outer, fun t => ?_⟩
      simp only [Exec.perform, Machine.withToken, hcase]
      rfl
  | closeBranch =>
    apply h.of_look
    intro m
    cases hcase : m.branches with
    | nil =>
      refine ⟨_, h.throw .unbalancedConditional, fun t => ?_⟩
      simp only [Exec.perform, Machine.withToken, hcase]
      rfl
    | cons _ outer =>
      refine ⟨_, hbranches rfl fun _ => outer, fun t => ?_⟩
      simp only [Exec.perform, Machine.withToken, hcase]
      rfl
  | verify => exact h.bind (h.pop op) fun _ => h.deliver _ _ _
  | giveUp => exact h.throw _
  | toAlt =>
    exact h.bind (h.pop op) fun item => h.restack (fun main _ => main) fun _ alt => item :: alt
  | fromAlt =>
    apply h.of_look
    intro m
    cases hcase : m.alt with
    | nil =>
      refine ⟨_, h.throw (.stackUnderflow op), fun t => ?_⟩
      simp only [Exec.perform, Machine.withToken, hcase]
      rfl
    | cons item alt =>
      refine ⟨_, h.restack (fun main _ => item :: main) fun _ _ => alt, fun t => ?_⟩
      simp only [Exec.perform, Machine.withToken, hcase]
      rfl
  | rearrange r =>
    apply h.of_look
    intro m
    cases hcase : r.apply? m.main with
    | none =>
      refine ⟨_, h.throw (.stackUnderflow op), fun t => ?_⟩
      simp only [Exec.perform, Machine.withToken, hcase]
      rfl
    | some main =>
      refine ⟨_, h.setMain fun _ => main, fun t => ?_⟩
      simp only [Exec.perform, Machine.withToken, hcase]
      rfl
  | dupIfTrue =>
    refine h.bind (h.pop op) fun item => h.bind (h.push _) fun _ => ?_
    split
    · exact h.push _
    · exact h.pure _
  | depth => exact h.look (fun _ _ => rfl) fun _ => h.push _
  | size => exact h.bind (h.pop op) fun _ => h.bind (h.push _) fun _ => h.push _
  | pick => exact h.bind (h.popNumber op) fun _ => h.bind (h.itemAt _) fun _ => h.push _
  | roll =>
    exact h.bind (h.popNumber op) fun n => h.bind (h.itemAt _) fun item =>
      h.setMain fun main => item :: main.eraseIdx n.toNat
  | equal insist => exact h.bind (h.pop op) fun _ => h.bind (h.pop op) fun _ => h.deliver _ _ _
  | unary f => exact h.bind (h.popNumber op) fun _ => h.push _
  | binary f =>
    exact h.bind (h.require op 2) fun _ => h.bind (h.popNumber op) fun _ =>
      h.bind (h.popNumber op) fun _ => h.push _
  | numEqualVerify =>
    exact h.bind (h.require op 2) fun _ => h.bind (h.popNumber op) fun _ =>
      h.bind (h.popNumber op) fun _ => h.deliver _ _ _
  | within =>
    exact h.bind (h.require op 3) fun _ => h.bind (h.popNumber op) fun _ =>
      h.bind (h.popNumber op) fun _ => h.bind (h.popNumber op) fun _ => h.push _
  | hash a => exact h.bind (h.pop op) fun _ => h.push _
  | codeSeparator => exact hcode rfl
  | checkSig insist => exact hasking rfl
  | checkMultisig insist => exact hasking rfl

theorem precheck (o : Operation) : P Unit (Exec.precheck o) := by
  have hcount : P Unit (do
      if o.opcode.isCounted then Exec.count 1
      if o.opcode.isDisabled then MonadExcept.throw (Abort.disabledOpcode o.opcode)) := by
    dsimp only
    split
    · exact h.bind (h.count 1) fun _ => h.insist
    · exact h.insist
  unfold Exec.precheck
  dsimp only
  split
  · exact h.check fun _ => hcount
  · exact hcount

/-- The effect of an operation has the property if the instruction has it. -/
theorem effect (check : Checker) (o : Operation) (rest : List Operation) (executing : Bool)
    (hperform : ∀ i, o.data = none → Instruction.ofOpcode? o.opcode = some i →
      P Unit (Exec.perform check o.opcode rest executing i)) :
    P Unit (Exec.effect check o rest executing) := by
  unfold Exec.effect
  split
  · split
    · exact h.push _
    · exact h.pure ()
  · rename_i hdata
    split
    · split
      · rename_i i hi
        exact hperform i hdata hi
      · exact h.throw _
    · exact h.pure ()

theorem checkStacks : P Unit Exec.checkStacks :=
  h.look (fun _ _ => rfl) fun _ => h.insist

end StateAccess

namespace Compositional

variable {P : (α : Type) → Exec α → Prop} (h : Compositional P)

include h

theorem ask (check : Checker) (signature key : Bytes) (code : List Operation) :
    P Bool (Exec.ask check signature key code) :=
  h.bind (h.asked _) fun _ => h.pure _

theorem matchSignatures (check : Checker) (code : List Operation) (signatures keys : List Bytes) :
    P Bool (Exec.matchSignatures check code signatures keys) := by
  induction keys generalizing signatures with
  | nil =>
    cases signatures with
    | nil => exact h.pure _
    | cons s signatures => exact h.pure _
  | cons k keys ih =>
    cases signatures with
    | nil => exact h.pure _
    | cons s signatures =>
      rw [Exec.matchSignatures]
      apply h.bind (h.ask _ _ _ _)
      intro answer
      have hleft : ∀ left : List Bytes, P Bool (if keys.length < left.length
          then (Pure.pure false : Exec Bool) else Exec.matchSignatures check code left keys) := by
        intro left
        split
        · exact h.pure _
        · exact ih _
      split
      · exact hleft _
      · exact hleft _

theorem checkMultisig (check : Checker) (op : Opcode) : P Bool (Exec.checkMultisig check op) := by
  unfold Exec.checkMultisig
  refine h.bind (h.popNumber op) fun keyCount => h.check fun _ => ?_
  refine h.bind (h.count _) fun _ => h.bind (h.require _ _) fun _ => ?_
  refine h.look (fun _ _ => rfl) fun m => h.bind (h.setMain _) fun _ => ?_
  refine h.bind (h.popNumber op) fun sigCount => h.check fun _ => ?_
  refine h.bind (h.require _ _) fun _ => h.look (fun _ _ => rfl) fun m => ?_
  refine h.bind (h.setMain _) fun _ => h.look (fun _ _ => rfl) fun m => ?_
  exact h.matchSignatures _ _ _ _

/-- An instruction has the property if what it does to conditionals and to the code has it. -/
theorem perform (check : Checker) (op : Opcode) (rest : List Operation) (executing : Bool)
    (i : Instruction)
    (hbranches : i.isBranch = true → ∀ f : List Bool → List Bool,
      P PUnit (modify fun m => { m with branches := f m.branches }))
    (hcode : i = .codeSeparator → P PUnit (modify fun m => { m with code := rest })) :
    P Unit (Exec.perform check op rest executing i) := by
  refine h.toStateAccess.perform check op rest executing i hbranches hcode fun hasking => ?_
  cases i with
  | checkSig insist =>
    exact h.bind (h.require op 2) fun _ => h.bind (h.pop op) fun _ => h.bind (h.pop op) fun _ =>
      h.look (fun _ _ => rfl) fun _ => h.bind (h.ask _ _ _ _) fun _ => h.deliver _ _ _
  | checkMultisig insist => exact h.bind (h.checkMultisig check op) fun _ => h.deliver _ _ _
  | _ => cases hasking

end Compositional

end Exec

end ChainRules.Script
