import ChainRules.Proofs.Script.Numbers
import ChainRules.Proofs.Script.Step

/-!
# Numeric operations

The opcodes that compute with numbers take the topmost items of the main stack as integers, in
whatever form these are written, and leave the exact result in its shortest form. Which items they
take is decided before any of them is read, and an item of more than four bytes is no operand.
-/

namespace ChainRules.Script

namespace Opcode

/-- How many operands a numeric opcode takes. -/
def operandCount? (op : Opcode) : Option Nat :=
  if op = .op1Add ∨ op = .op1Sub ∨ .opNegate ≤ op ∧ op ≤ .op0NotEqual then some 1
  else if op = .opAdd ∨ op = .opSub ∨ .opBoolAnd ≤ op ∧ op ≤ .opMax then some 2
  else if op = .opWithin then some 3
  else none

/-- The integer that a numeric opcode makes of its operands, of which the topmost is the last. Truth
values are the integers 1 and 0. -/
inductive Computes : Opcode → List Int → Int → Prop
  | increment (a : Int) : Computes .op1Add [a] (a + 1)
  | decrement (a : Int) : Computes .op1Sub [a] (a - 1)
  | negate (a : Int) : Computes .opNegate [a] (-a)
  | abs (a : Int) : Computes .opAbs [a] |a|
  | not (a : Int) : Computes .opNot [a] (if a = 0 then 1 else 0)
  | notZero (a : Int) : Computes .op0NotEqual [a] (if a ≠ 0 then 1 else 0)
  | add (a b : Int) : Computes .opAdd [a, b] (a + b)
  | sub (a b : Int) : Computes .opSub [a, b] (a - b)
  | boolAnd (a b : Int) : Computes .opBoolAnd [a, b] (if a ≠ 0 ∧ b ≠ 0 then 1 else 0)
  | boolOr (a b : Int) : Computes .opBoolOr [a, b] (if a ≠ 0 ∨ b ≠ 0 then 1 else 0)
  | equal (a b : Int) : Computes .opNumEqual [a, b] (if a = b then 1 else 0)
  | notEqual (a b : Int) : Computes .opNumNotEqual [a, b] (if a ≠ b then 1 else 0)
  | less (a b : Int) : Computes .opLessThan [a, b] (if a < b then 1 else 0)
  | greater (a b : Int) : Computes .opGreaterThan [a, b] (if a > b then 1 else 0)
  | lessOrEqual (a b : Int) : Computes .opLessThanOrEqual [a, b] (if a ≤ b then 1 else 0)
  | greaterOrEqual (a b : Int) : Computes .opGreaterThanOrEqual [a, b] (if a ≥ b then 1 else 0)
  | min (a b : Int) : Computes .opMin [a, b] (Min.min a b)
  | max (a b : Int) : Computes .opMax [a, b] (Max.max a b)
  | within (a lower upper : Int) :
    Computes .opWithin [a, lower, upper] (if lower ≤ a ∧ a < upper then 1 else 0)

/-- The result of operands of four bytes fits into five. -/
theorem Computes.natAbs_lt {op : Opcode} {operands : List Int} {n : Int}
    (h : op.Computes operands n) (hsmall : ∀ a ∈ operands, a.natAbs < 2 ^ 31) :
    n.natAbs < 2 ^ 39 := by
  cases h with
  | increment | decrement | negate | add | sub =>
    simp only [List.forall_mem_cons] at hsmall
    omega
  | abs a =>
    simp only [List.forall_mem_cons] at hsmall
    rw [Int.natAbs_abs]
    omega
  | min | max =>
    simp only [List.forall_mem_cons] at hsmall
    omega
  | _ =>
    split <;> decide

/-- What a numeric opcode with `k` operands makes of a main stack, the topmost item first: the stack
that it leaves, or the cause for which it is aborted. -/
structure Prescribes (op : Opcode) (k : Nat) (s : Stack) (outcome : Except Abort Stack) : Prop where
  underflow : s.length < k → outcome = .error (.stackUnderflow op)
  overflow : k ≤ s.length → (∃ item ∈ s.take k, 4 < item.length) →
    outcome = .error (.numberOverflow 4)
  result : k ≤ s.length → (∀ item ∈ s.take k, item.length ≤ 4) → op ≠ .opNumEqualVerify →
    ∃ n item, op.Computes ((s.take k).reverse.map Number.value) n ∧ Number.IsShortest item n ∧
      item.length ≤ 5 ∧ outcome = .ok (item :: s.drop k)
  verification : k ≤ s.length → (∀ item ∈ s.take k, item.length ≤ 4) → op = .opNumEqualVerify →
    ∃ a b, (s.take k).reverse.map Number.value = [a, b] ∧
      outcome = if a = b then .ok (s.drop k) else .error (.verifyFailed op)

section Prescribes

variable {op : Opcode} {k : Nat} {s : Stack}

theorem prescribes_underflow (h : s.length < k) :
    op.Prescribes k s (.error (.stackUnderflow op)) where
  underflow _ := rfl
  overflow henough := absurd h (Nat.not_lt.2 henough)
  result henough := absurd h (Nat.not_lt.2 henough)
  verification henough := absurd h (Nat.not_lt.2 henough)

theorem prescribes_overflow (h : k ≤ s.length) (hlong : ∃ item ∈ s.take k, 4 < item.length) :
    op.Prescribes k s (.error (.numberOverflow 4)) := by
  have hnot : ¬∀ item ∈ s.take k, item.length ≤ 4 := by
    push Not
    exact hlong
  exact ⟨fun hfew => absurd h (Nat.not_le.2 hfew), fun _ _ => rfl,
    fun _ hshort => absurd hshort hnot, fun _ hshort => absurd hshort hnot⟩

/-- Where there are enough operands, none of them too long, the outcome is decided by their values. -/
theorem prescribes_of_short {outcome : Except Abort Stack} (h : k ≤ s.length)
    (hshort : ∀ item ∈ s.take k, item.length ≤ 4)
    (hresult : op ≠ .opNumEqualVerify → ∃ n, op.Computes ((s.take k).reverse.map Number.value) n ∧
      outcome = .ok (Number.encode n :: s.drop k))
    (hverification : op = .opNumEqualVerify → ∃ a b, (s.take k).reverse.map Number.value = [a, b] ∧
      outcome = if a = b then .ok (s.drop k) else .error (.verifyFailed op)) :
    op.Prescribes k s outcome where
  underflow hfew := absurd h (Nat.not_le.2 hfew)
  overflow _ hlong := by
    obtain ⟨item, hitem, hlt⟩ := hlong
    exact absurd (hshort item hitem) (Nat.not_le.2 hlt)
  result _ _ hop := by
    obtain ⟨n, hn, houtcome⟩ := hresult hop
    have hsmall : ∀ a ∈ (s.take k).reverse.map Number.value, a.natAbs < 2 ^ 31 := by
      intro a ha
      rw [List.map_reverse, List.mem_reverse, List.mem_map] at ha
      obtain ⟨item, hitem, rfl⟩ := ha
      exact Item.natAbs_lt_of_number (if_neg (Nat.not_lt.2 (hshort item hitem)))
    have hfive : (Number.encode n).length ≤ 5 :=
      (Number.length_encode_le_iff (k := 5) (by omega)).2 (hn.natAbs_lt hsmall)
    exact ⟨n, _, hn, Number.isShortest_encode n, hfive, houtcome⟩
  verification _ _ hop := hverification hop

end Prescribes

end Opcode

namespace Exec

variable {check : Checker} {op : Opcode} {rest : List Operation} {executing : Bool} {m : Machine}

/-! ## Operands -/

/-- Takes so many numeric operands off the main stack, the topmost first. -/
def popNumbers (op : Opcode) : (k : Nat) → Exec (List Int)
  | 0 => return []
  | k + 1 => do
    let n ← popNumber op
    return n :: (← popNumbers op k)

/-- Takes so many numeric operands, if there are as many items. -/
def operands (op : Opcode) (k : Nat) : Exec (List Int) := do
  require op k
  popNumbers op k

theorem popNumber_of_short {item : Item} {below : Stack} (hmain : m.main = item :: below)
    (hshort : item.length ≤ 4) :
    popNumber op m = .ok (Number.value item) { m with main := below } := by
  refine popNumber_eq_ok_iff.2 ⟨item, below, hmain, ?_, rfl⟩
  exact if_neg (Nat.not_lt.2 hshort)

theorem popNumber_of_long {item : Item} {below : Stack} (hmain : m.main = item :: below)
    (hlong : 4 < item.length) :
    popNumber op m = .error (.numberOverflow 4) { m with main := below } := by
  have hpop : pop op m = .ok item { m with main := below } := pop_eq_ok_iff.2 ⟨below, hmain, rfl⟩
  have hnumber : item.number = .error (.numberOverflow 4) := if_pos hlong
  rw [popNumber, bind_ok hpop, number, hnumber]
  rfl

theorem popNumbers_of_short (op : Opcode) {taken below : Stack} (hmain : m.main = taken ++ below)
    (hshort : ∀ item ∈ taken, item.length ≤ 4) :
    popNumbers op taken.length m = .ok (taken.map Number.value) { m with main := below } := by
  induction taken generalizing m with
  | nil =>
    rw [List.nil_append] at hmain
    rw [← hmain]
    rfl
  | cons item taken ih =>
    rw [List.forall_mem_cons] at hshort
    rw [List.cons_append] at hmain
    have hrest := ih (m := { m with main := taken ++ below }) rfl hshort.2
    rw [List.length_cons, popNumbers, bind_ok (popNumber_of_short hmain hshort.1), bind_ok hrest]
    rfl

theorem popNumbers_of_long (op : Opcode) {taken below : Stack} (hmain : m.main = taken ++ below)
    (hlong : ∃ item ∈ taken, 4 < item.length) :
    ∃ stopped, popNumbers op taken.length m = .error (.numberOverflow 4) stopped := by
  induction taken generalizing m with
  | nil => simp at hlong
  | cons item taken ih =>
    rw [List.length_cons, popNumbers]
    by_cases hitem : 4 < item.length
    · exact ⟨_, bind_error (popNumber_of_long hmain hitem)⟩
    · have hlater : ∃ item ∈ taken, 4 < item.length := by simpa [hitem] using hlong
      obtain ⟨stopped, hstopped⟩ := ih (m := { m with main := taken ++ below }) rfl hlater
      rw [bind_ok (popNumber_of_short hmain (Nat.le_of_not_lt hitem))]
      exact ⟨stopped, bind_error hstopped⟩

theorem require_of_le {k : Nat} (h : k ≤ m.main.length) : require op k m = .ok () m :=
  require_eq_ok_iff.2 ⟨h, rfl⟩

theorem require_of_lt {k : Nat} (h : m.main.length < k) :
    require op k m = .error (.stackUnderflow op) m := by
  show (if m.main.length < k then (throw (.stackUnderflow op) : Exec Unit) else pure ()) m = _
  rw [if_pos h]
  rfl

theorem operands_of_few {k : Nat} (h : m.main.length < k) :
    operands op k m = .error (.stackUnderflow op) m :=
  bind_error (require_of_lt h)

theorem operands_of_long (op : Opcode) {k : Nat} (h : k ≤ m.main.length)
    (hlong : ∃ item ∈ m.main.take k, 4 < item.length) :
    ∃ stopped, operands op k m = .error (.numberOverflow 4) stopped := by
  have hsplit : m.main = m.main.take k ++ m.main.drop k := (List.take_append_drop k _).symm
  obtain ⟨stopped, hstopped⟩ := popNumbers_of_long op hsplit hlong
  rw [List.length_take_of_le h] at hstopped
  rw [operands, bind_ok (require_of_le h)]
  exact ⟨stopped, hstopped⟩

theorem operands_of_short {k : Nat} (h : k ≤ m.main.length)
    (hshort : ∀ item ∈ m.main.take k, item.length ≤ 4) :
    operands op k m =
      .ok ((m.main.take k).map Number.value) { m with main := m.main.drop k } := by
  have hsplit : m.main = m.main.take k ++ m.main.drop k := (List.take_append_drop k _).symm
  have htaken := popNumbers_of_short op hsplit hshort
  rw [List.length_take_of_le h] at htaken
  rw [operands, bind_ok (require_of_le h), htaken]

/-- To take one operand, no look at the number of items is needed. -/
theorem popNumber_bind_eq {α : Type} (op : Opcode) (f : Int → Exec α) :
    popNumber op >>= f = (do
      let ns ← operands op 1
      f (ns.headD 0)) := by
  funext m
  by_cases hmain : m.main.length < 1
  · have hempty : m.main = [] := List.length_eq_zero_iff.1 (Nat.lt_one_iff.1 hmain)
    have hpop : pop op m = .error (.stackUnderflow op) m := by
      unfold pop
      rw [hempty]
    rw [bind_error (operands_of_few hmain), popNumber, bind_assoc, bind_error hpop]
  · rw [operands, bind_assoc, bind_ok (require_of_le (Nat.le_of_not_lt hmain))]
    simp only [popNumbers, bind_assoc, pure_bind, List.headD_cons]

end Exec

/-! ## Numeric instructions -/

/-- How many operands a numeric instruction takes. -/
def Instruction.operandCount? : Instruction → Option Nat
  | unary _ => some 1
  | binary _ | numEqualVerify => some 2
  | within => some 3
  | _ => none

/-- The numeric opcodes are those of the numeric instructions. -/
theorem operandCount?_ofOpcode? (op : Opcode) :
    (Instruction.ofOpcode? op).bind Instruction.operandCount? = op.operandCount? := by
  revert op
  decide +kernel

theorem truth_decide (p : Prop) [Decidable p] : truth (decide p) = if p then 1 else 0 := by
  by_cases h : p <;> simp [truth, h]

/-- The opcode of a function of one number. -/
def UnaryOp.opcode : UnaryOp → Opcode
  | increment => .op1Add
  | decrement => .op1Sub
  | negate => .opNegate
  | abs => .opAbs
  | not => .opNot
  | notZero => .op0NotEqual

/-- The opcode of a function of two numbers. -/
def BinaryOp.opcode : BinaryOp → Opcode
  | add => .opAdd
  | sub => .opSub
  | boolAnd => .opBoolAnd
  | boolOr => .opBoolOr
  | equal => .opNumEqual
  | notEqual => .opNumNotEqual
  | less => .opLessThan
  | greater => .opGreaterThan
  | lessOrEqual => .opLessThanOrEqual
  | greaterOrEqual => .opGreaterThanOrEqual
  | min => .opMin
  | max => .opMax

/-- The opcode of a numeric instruction. -/
def Instruction.numericOpcode? : Instruction → Option Opcode
  | unary f => some f.opcode
  | binary f => some f.opcode
  | numEqualVerify => some .opNumEqualVerify
  | within => some .opWithin
  | _ => none

theorem numericOpcode?_ofOpcode? (op : Opcode) :
    (Instruction.ofOpcode? op).bind Instruction.numericOpcode? =
      if op.operandCount?.isSome then some op else none := by
  revert op
  decide +kernel

theorem eq_numericOpcode {op op' : Opcode} {i : Instruction}
    (hi : Instruction.ofOpcode? op = some i) (h : i.numericOpcode? = some op') : op = op' := by
  have hbind := numericOpcode?_ofOpcode? op
  rw [hi, Option.bind_some, h] at hbind
  split at hbind
  · exact (Option.some.inj hbind).symm
  · cases hbind

theorem UnaryOp.computes (f : UnaryOp) (a : Int) : f.opcode.Computes [a] (f.eval a) := by
  cases f with
  | increment => exact .increment a
  | decrement => exact .decrement a
  | negate => exact .negate a
  | abs =>
    rw [eval, Int.natCast_natAbs]
    exact .abs a
  | not =>
    rw [eval, truth_decide]
    exact .not a
  | notZero =>
    rw [eval, truth_decide]
    exact .notZero a

theorem BinaryOp.computes (f : BinaryOp) (a b : Int) : f.opcode.Computes [a, b] (f.eval a b) := by
  cases f with
  | add => exact .add a b
  | sub => exact .sub a b
  | boolAnd =>
    rw [eval, ← Bool.decide_and, truth_decide]
    exact .boolAnd a b
  | boolOr =>
    rw [eval, ← Bool.decide_or, truth_decide]
    exact .boolOr a b
  | equal =>
    rw [eval, truth_decide]
    exact .equal a b
  | notEqual =>
    rw [eval, truth_decide]
    exact .notEqual a b
  | less =>
    rw [eval, truth_decide]
    exact .less a b
  | greater =>
    rw [eval, truth_decide]
    exact .greater a b
  | lessOrEqual =>
    rw [eval, truth_decide]
    exact .lessOrEqual a b
  | greaterOrEqual =>
    rw [eval, truth_decide]
    exact .greaterOrEqual a b
  | min =>
    rw [eval, ← min_def]
    exact .min a b
  | max =>
    rw [eval, ← max_def]
    exact .max a b

theorem encode_truth (p : Bool) : Number.encode (truth p) = Item.ofBool p := by
  cases p <;> rfl

namespace Exec

variable {check : Checker} {op : Opcode} {rest : List Operation} {executing : Bool} {m : Machine}

/-- What a numeric instruction does with the values of its operands, the topmost first. -/
def conclude (op : Opcode) : Instruction → List Int → Exec Unit
  | .unary f, [a] => pushNumber (f.eval a)
  | .binary f, [b, a] => pushNumber (f.eval a b)
  | .numEqualVerify, [b, a] => deliver op true (a = b)
  | .within, [upper, lower, a] => pushNumber (truth (lower ≤ a && a < upper))
  | _, _ => return ()

/-- A numeric instruction takes its operands and then looks at nothing but their values. -/
theorem perform_eq_conclude {i : Instruction} {k : Nat} (hi : i.operandCount? = some k) :
    perform check op rest executing i = operands op k >>= conclude op i := by
  cases i with
  | unary f =>
    cases hi
    rw [perform, popNumber_bind_eq]
    simp only [operands, popNumbers, bind_assoc, pure_bind, conclude, List.headD_cons]
  | binary f =>
    cases hi
    simp only [perform, operands, popNumbers, bind_assoc, pure_bind, conclude]
  | numEqualVerify =>
    cases hi
    simp only [perform, operands, popNumbers, bind_assoc, pure_bind, conclude]
  | within =>
    cases hi
    simp only [perform, operands, popNumbers, bind_assoc, pure_bind, conclude, pushNumber,
      encode_truth]
  | _ => cases hi

/-- From the values of its operands, a numeric instruction pushes what its opcode computes. -/
theorem conclude_computes {i : Instruction} {k : Nat} (hi : Instruction.ofOpcode? op = some i)
    (hk : i.operandCount? = some k) (hop : op ≠ .opNumEqualVerify) {ns : List Int}
    (hlen : ns.length = k) :
    ∃ n, op.Computes ns.reverse n ∧ conclude op i ns = pushNumber n := by
  cases i with
  | unary f =>
    cases hk
    obtain rfl : op = f.opcode := eq_numericOpcode hi rfl
    obtain ⟨a, rfl⟩ := List.length_eq_one_iff.1 hlen
    exact ⟨_, f.computes a, rfl⟩
  | binary f =>
    cases hk
    obtain rfl : op = f.opcode := eq_numericOpcode hi rfl
    obtain ⟨b, a, rfl⟩ := List.length_eq_two.1 hlen
    exact ⟨_, f.computes a b, rfl⟩
  | numEqualVerify => exact absurd (eq_numericOpcode hi rfl) hop
  | within =>
    cases hk
    obtain rfl : op = .opWithin := eq_numericOpcode hi rfl
    obtain ⟨upper, lower, a, rfl⟩ := List.length_eq_three.1 hlen
    refine ⟨_, .within a lower upper, ?_⟩
    rw [conclude, ← Bool.decide_and, truth_decide]
  | _ => cases hk

/-- The comparison that insists on equality. -/
theorem conclude_verification {ns : List Int} (hlen : ns.length = 2) :
    ∃ a b, ns.reverse = [a, b] ∧
      conclude .opNumEqualVerify .numEqualVerify ns = deliver .opNumEqualVerify true (a = b) := by
  obtain ⟨b, a, rfl⟩ := List.length_eq_two.1 hlen
  exact ⟨a, b, rfl, rfl⟩

/-- The result of an operation that does nothing but to the main stack: the machine with the stack
that is left, or an abort for the cause. -/
def Replaces (m : Machine) (outcome : Except Abort Stack)
    (result : EStateM.Result Abort Machine Unit) : Prop :=
  match outcome with
  | .ok main => result = .ok () { m with main := main }
  | .error cause => ∃ stopped, result = .error cause stopped

theorem deliver_replaces (m : Machine) (s : Stack) (a b : Int) :
    Replaces m (if a = b then .ok s else .error (.verifyFailed op))
      (deliver op true (a = b) { m with main := s }) := by
  by_cases h : a = b
  · rw [if_pos h, decide_eq_true h]
    rfl
  · rw [if_neg h, decide_eq_false h]
    exact ⟨_, rfl⟩

/-- The effect of a numeric opcode is the prescribed one for every main stack. -/
theorem effect_numeric (check : Checker) {op : Opcode} {k : Nat} (hk : op.operandCount? = some k)
    (rest : List Operation) (s : Stack) :
    ∃ outcome, op.Prescribes k s outcome ∧ (∀ main, outcome = .ok main → main.length ≤ s.length) ∧
      ∀ m : Machine, m.main = s → Replaces m outcome (effect check (.bare op) rest true m) := by
  obtain ⟨i, hi, hcount⟩ : ∃ i, Instruction.ofOpcode? op = some i ∧ i.operandCount? = some k := by
    rw [← operandCount?_ofOpcode?, Option.bind_eq_some_iff] at hk
    exact hk
  have hpos : 0 < k := by
    cases i <;> cases hcount <;> decide
  have heffect : effect check (.bare op) rest true = operands op k >>= conclude op i := by
    rw [effect_bare hi, perform_eq_conclude hcount]
  rw [heffect]
  by_cases hfew : s.length < k
  · refine ⟨_, Opcode.prescribes_underflow hfew, nofun, ?_⟩
    rintro m rfl
    exact ⟨m, bind_error (operands_of_few hfew)⟩
  have henough : k ≤ s.length := Nat.le_of_not_lt hfew
  by_cases hlong : ∃ item ∈ s.take k, 4 < item.length
  · refine ⟨_, Opcode.prescribes_overflow henough hlong, nofun, ?_⟩
    rintro m rfl
    obtain ⟨stopped, hstopped⟩ := operands_of_long op henough hlong
    exact ⟨stopped, bind_error hstopped⟩
  have hshort : ∀ item ∈ s.take k, item.length ≤ 4 := by
    intro item hitem
    by_contra hover
    exact hlong ⟨item, hitem, Nat.lt_of_not_le hover⟩
  have hlen : ((s.take k).map Number.value).length = k := by
    rw [List.length_map, List.length_take_of_le henough]
  by_cases hop : op = .opNumEqualVerify
  · subst hop
    obtain rfl : Instruction.numEqualVerify = i := Option.some.inj hi
    cases hcount
    obtain ⟨a, b, hvalues, hconclude⟩ := conclude_verification hlen
    rw [← List.map_reverse] at hvalues
    refine ⟨if a = b then .ok (s.drop 2) else .error (.verifyFailed .opNumEqualVerify),
      Opcode.prescribes_of_short henough hshort (absurd rfl) fun _ => ⟨a, b, hvalues, rfl⟩, ?_, ?_⟩
    · intro main hmain
      split at hmain
      · cases hmain
        simp
      · cases hmain
    · rintro m rfl
      rw [bind_ok (operands_of_short henough hshort), hconclude]
      exact deliver_replaces m _ a b
  · obtain ⟨n, hn, hconclude⟩ := conclude_computes hi hcount hop hlen
    rw [← List.map_reverse] at hn
    refine ⟨.ok (Number.encode n :: s.drop k), Opcode.prescribes_of_short henough hshort
      (fun _ => ⟨n, hn, rfl⟩) (absurd · hop), ?_, ?_⟩
    · rintro _ ⟨⟩
      rw [List.length_cons, List.length_drop]
      omega
    · rintro m rfl
      rw [bind_ok (operands_of_short henough hshort), hconclude]
      exact push_eq_ok_iff.2 rfl

/-- The stacks that an outcome leaves pass the check at the end of the operation. -/
theorem Replaces.checkStacks {x : Exec Unit} {outcome : Except Abort Stack}
    (h : Replaces m outcome (x m))
    (hroom : ∀ main, outcome = .ok main → main.length + m.alt.length ≤ limits.stackSize) :
    Replaces m outcome ((x >>= fun _ => Exec.checkStacks) m) := by
  cases outcome with
  | error cause =>
    obtain ⟨stopped, hstopped⟩ := h
    exact ⟨stopped, bind_error hstopped⟩
  | ok main =>
    exact (bind_ok h).trans (checkStacks_eq_ok_iff.2 ⟨hroom main rfl, rfl⟩)

end Exec

theorem Opcode.counted_of_operandCount? (op : Opcode) (h : op.operandCount?.isSome = true) :
    op.isCounted = true ∧ op.isDisabled = false := by
  revert op
  decide +kernel

/-- Numeric opcodes compute exact integers: whatever the main stack is, the effect of the opcode is
the prescribed one, and so is the whole operation where nothing stands in its way. Nothing but the
main stack takes part. -/
theorem numeric_exact (check : Checker) {op : Opcode} {k : Nat} (hk : op.operandCount? = some k)
    (rest : List Operation) (m : Machine) :
    ∃ outcome, op.Prescribes k m.main outcome ∧
      Exec.Replaces m outcome (Exec.effect check (.bare op) rest true m) ∧
      (m.token.isCancelled = false → m.isExecuting = true → m.opCount + 1 ≤ limits.operations →
        m.main.length + m.alt.length ≤ limits.stackSize →
        Exec.Replaces { m with token := m.token.polled, opCount := m.opCount + 1 } outcome
          (Exec.execute check (.bare op) rest m)) := by
  obtain ⟨outcome, hprescribed, hshrinks, heffect⟩ := Exec.effect_numeric check hk rest m.main
  refine ⟨outcome, hprescribed, heffect m rfl, ?_⟩
  intro halive hon hcount hroom
  obtain ⟨hcounted, hable⟩ := op.counted_of_operandCount? (by rw [hk]; rfl)
  have hcountedEffect := heffect { m with token := m.token.polled, opCount := m.opCount + 1 } rfl
  rw [Exec.execute_bare check rest hcounted hable halive hon hcount]
  refine hcountedEffect.checkStacks fun main hmain => ?_
  exact (Nat.add_le_add_right (hshrinks main hmain) _).trans hroom

/-- The difference of the least and the greatest operand takes five bytes. -/
theorem numeric_exact_least_difference :
    let check : Checker := fun _ _ _ => false
    let m : Machine := { Machine.empty .never with
      main := [[0xff, 0xff, 0xff, 0x7f], [0xff, 0xff, 0xff, 0xff], [7]] }
    Exec.effect check (.bare .opSub) [] true m =
      .ok () { m with main := [[0xfe, 0xff, 0xff, 0xff, 0x80], [7]] } := by
  intro check m
  have hk : Opcode.operandCount? .opSub = some 2 := rfl
  obtain ⟨outcome, hprescribed, heffect, -⟩ := numeric_exact check hk [] m
  obtain ⟨n, item, hn, hitem, -, rfl⟩ := hprescribed.result (by decide) (by decide) (by decide)
  have hdifference : ∀ (op : Opcode) operands n, op.Computes operands n → op = .opSub →
      operands = [-(2 ^ 31 - 1), 2 ^ 31 - 1] → n = -(2 ^ 32 - 2) := by
    intro op operands n h hop hoperands
    cases h with
    | sub a b =>
      simp only [List.cons.injEq, and_true] at hoperands
      omega
    | _ => exact absurd hop (by decide)
  have hn := hdifference _ _ n hn rfl rfl
  have hitem : item = [0xfe, 0xff, 0xff, 0xff, 0x80] := by
    rw [hitem.eq_encode, hn]
    rfl
  rw [← hitem]
  exact heffect

end ChainRules.Script
