import ChainRules.Proofs.Script.Multisig
import ChainRules.Proofs.Script.Rewriting

/-!
# Effects of operations

What an instruction makes of a machine, and with it an operation, as a relation of the machine before
to the one after it. An operation succeeds exactly where the relation holds.
-/

namespace ChainRules.Script

namespace Instruction

/-- Whether the instruction does nothing but to rewrite items on top of the main stack. -/
def isRewriting : Instruction → Bool
  | constant _ | nop | verify | rearrange _ | dupIfTrue | size | pick | roll | equal _ | unary _
  | binary _ | numEqualVerify | within | hash _ => true
  | _ => false

/-- The machine before an instruction and the one after it; `rest` is what follows the operation in
the script. -/
inductive Effect (check : Checker) (rest : List Operation) (executing : Bool) :
    Instruction → Machine → Machine → Prop
  | rewrite {i : Instruction} {m : Machine} {taken given below : Stack} (h : i.Rewrites taken given)
    (hmain : m.main = taken ++ below) :
    Effect check rest executing i m { m with main := given ++ below }
  | toAlt {m : Machine} {item : Item} {below : Stack} (hmain : m.main = item :: below) :
    Effect check rest executing .toAlt m { m with main := below, alt := item :: m.alt }
  | fromAlt {m : Machine} {item : Item} {below : Stack} (halt : m.alt = item :: below) :
    Effect check rest executing .fromAlt m { m with main := item :: m.main, alt := below }
  | depth (m : Machine) :
    Effect check rest executing .depth m (m.pushed (Number.encode m.main.length))
  | openTaken {m : Machine} {inverted : Bool} {item : Item} {below : Stack}
    (hon : executing = true) (hmain : m.main = item :: below) :
    Effect check rest executing (.openBranch inverted) m
      { m with main := below, branches := (item.isTrue != inverted) :: m.branches }
  | openPassed {m : Machine} {inverted : Bool} (hoff : executing = false) :
    Effect check rest executing (.openBranch inverted) m
      { m with branches := false :: m.branches }
  | turn {m : Machine} {taken : Bool} {outer : List Bool} (hbranches : m.branches = taken :: outer) :
    Effect check rest executing .turnBranch m { m with branches := (!taken) :: outer }
  | close {m : Machine} {taken : Bool} {outer : List Bool} (hbranches : m.branches = taken :: outer) :
    Effect check rest executing .closeBranch m { m with branches := outer }
  | separate (m : Machine) : Effect check rest executing .codeSeparator m { m with code := rest }
  | checkSig {m : Machine} {insist : Bool} {key signature : Item} {below given : Stack} {q : Query}
    (hmain : m.main = key :: signature :: below)
    (hq : q = ⟨signature, key, m.scriptCode [signature],
      check signature key (m.scriptCode [signature])⟩)
    (h : Delivers insist q.answer given) :
    Effect check rest executing (.checkSig insist) m
      { m with main := given ++ below, queries := m.queries ++ [q] }
  | checkMultisig {m : Machine} {insist answer : Bool} {base given : Stack}
    {signatures keys : List Item} {asked : List Query}
    (hoffered : m.OffersMultisig base signatures keys)
    (hasked : Exec.Asks (Exec.matchSignatures check (m.scriptCode signatures.reverse)
      signatures.reverse keys.reverse) asked answer)
    (h : Delivers insist answer given) :
    Effect check rest executing (.checkMultisig insist) m { m with
      main := given ++ base, opCount := m.opCount + keys.length, queries := m.queries ++ asked }

end Instruction

namespace Exec

variable {check : Checker} {op : Opcode} {rest : List Operation} {executing : Bool} {m m' : Machine}

theorem RewritesAs.effect_iff {i : Instruction} {x : Exec Unit} (hx : RewritesAs i x)
    (hi : i.isRewriting = true) : x m = .ok () m' ↔ i.Effect check rest executing m m' := by
  rw [hx]
  refine ⟨?_, ?_⟩
  · intro hgiven
    obtain ⟨taken, given, below, h, hmain, rfl⟩ := hgiven
    exact .rewrite h hmain
  · intro hgiven
    cases hgiven with
    | rewrite h hmain => exact ⟨_, _, _, h, hmain, rfl⟩
    | _ => cases hi

theorem perform_toAlt_iff :
    perform check op rest executing .toAlt m = .ok () m' ↔
      Instruction.Effect check rest executing .toAlt m m' := by
  simp only [perform, bind_eq_ok_iff, pop_eq_ok_iff, modify_eq_ok_iff]
  refine ⟨?_, ?_⟩
  · intro hgiven
    obtain ⟨item, _, ⟨below, hmain, rfl⟩, rfl⟩ := hgiven
    exact .toAlt hmain
  · intro hgiven
    cases hgiven with
    | rewrite h => cases h
    | toAlt hmain => exact ⟨_, _, ⟨_, hmain, rfl⟩, rfl⟩

theorem perform_fromAlt_iff :
    perform check op rest executing .fromAlt m = .ok () m' ↔
      Instruction.Effect check rest executing .fromAlt m m' := by
  have hrun : perform check op rest executing .fromAlt m = .ok () m' ↔
      ∃ item below, m.alt = item :: below ∧
        m' = { m with main := item :: m.main, alt := below } := by
    unfold perform
    dsimp only
    cases m.alt <;> simp [and_assoc, eq_comm]
  rw [hrun]
  refine ⟨?_, ?_⟩
  · intro hgiven
    obtain ⟨item, below, halt, rfl⟩ := hgiven
    exact .fromAlt halt
  · intro hgiven
    cases hgiven with
    | rewrite h => cases h
    | fromAlt halt => exact ⟨_, _, halt, rfl⟩

theorem perform_depth_iff :
    perform check op rest executing .depth m = .ok () m' ↔
      Instruction.Effect check rest executing .depth m m' := by
  simp only [perform, pushNumber, bind_eq_ok_iff, get_eq_ok_iff, push_eq_ok_iff]
  refine ⟨?_, ?_⟩
  · intro hgiven
    obtain ⟨_, _, ⟨rfl, rfl⟩, rfl⟩ := hgiven
    exact .depth _
  · intro hgiven
    cases hgiven with
    | rewrite h => cases h
    | depth => exact ⟨m, m, ⟨rfl, rfl⟩, rfl⟩

theorem perform_turnBranch_iff :
    perform check op rest executing .turnBranch m = .ok () m' ↔
      Instruction.Effect check rest executing .turnBranch m m' := by
  have hrun : perform check op rest executing .turnBranch m = .ok () m' ↔
      ∃ taken outer, m.branches = taken :: outer ∧
        m' = { m with branches := (!taken) :: outer } := by
    unfold perform
    dsimp only
    cases m.branches <;> simp [and_assoc, eq_comm]
  rw [hrun]
  refine ⟨?_, ?_⟩
  · intro hgiven
    obtain ⟨taken, outer, hbranches, rfl⟩ := hgiven
    exact .turn hbranches
  · intro hgiven
    cases hgiven with
    | rewrite h => cases h
    | turn hbranches => exact ⟨_, _, hbranches, rfl⟩

theorem perform_closeBranch_iff :
    perform check op rest executing .closeBranch m = .ok () m' ↔
      Instruction.Effect check rest executing .closeBranch m m' := by
  have hrun : perform check op rest executing .closeBranch m = .ok () m' ↔
      ∃ taken outer, m.branches = taken :: outer ∧ m' = { m with branches := outer } := by
    unfold perform
    dsimp only
    cases m.branches <;> simp [and_assoc, eq_comm]
  rw [hrun]
  refine ⟨?_, ?_⟩
  · intro hgiven
    obtain ⟨taken, outer, hbranches, rfl⟩ := hgiven
    exact .close hbranches
  · intro hgiven
    cases hgiven with
    | rewrite h => cases h
    | close hbranches => exact ⟨_, _, hbranches, rfl⟩

theorem perform_openBranch_iff {inverted : Bool} :
    perform check op rest executing (.openBranch inverted) m = .ok () m' ↔
      Instruction.Effect check rest executing (.openBranch inverted) m m' := by
  cases executing with
  | true =>
    simp only [perform, if_true, map_eq_pure_bind, bind_eq_ok_iff, pop_eq_ok_iff, pure_eq_ok_iff,
      modify_eq_ok_iff]
    refine ⟨?_, ?_⟩
    · intro hgiven
      obtain ⟨_, _, ⟨item, _, ⟨below, hmain, rfl⟩, rfl, rfl⟩, rfl⟩ := hgiven
      exact .openTaken rfl hmain
    · intro hgiven
      cases hgiven with
      | rewrite h => cases h
      | openTaken _ hmain => exact ⟨_, _, ⟨_, _, ⟨_, hmain, rfl⟩, rfl, rfl⟩, rfl⟩
      | openPassed hoff => cases hoff
  | false =>
    simp only [perform, Bool.false_eq_true, if_false, bind_eq_ok_iff, pure_eq_ok_iff,
      modify_eq_ok_iff]
    refine ⟨?_, ?_⟩
    · intro hgiven
      obtain ⟨_, _, ⟨rfl, rfl⟩, rfl⟩ := hgiven
      exact .openPassed rfl
    · intro hgiven
      cases hgiven with
      | rewrite h => cases h
      | openTaken hon => cases hon
      | openPassed => exact ⟨_, _, ⟨rfl, rfl⟩, rfl⟩

theorem perform_checkSig_iff {insist : Bool} :
    perform check op rest executing (.checkSig insist) m = .ok () m' ↔
      Instruction.Effect check rest executing (.checkSig insist) m m' := by
  simp only [perform, ask, bind_eq_ok_iff, require_eq_ok_iff, pop_eq_ok_iff, get_eq_ok_iff,
    modify_eq_ok_iff, pure_eq_ok_iff, deliver_eq_ok_iff]
  refine ⟨?_, ?_⟩
  · intro hgiven
    obtain ⟨_, _, ⟨-, rfl⟩, key, _, ⟨_, hmain, rfl⟩, signature, _, ⟨below, rfl, rfl⟩, _, _,
      ⟨rfl, rfl⟩, _, _, ⟨_, _, rfl, rfl, rfl⟩, given, h, rfl⟩ := hgiven
    exact .checkSig hmain rfl h
  · intro hgiven
    cases hgiven with
    | rewrite h => cases h
    | checkSig hmain hq h =>
      subst hq
      exact ⟨(), m, ⟨by simp [hmain], rfl⟩, _, _, ⟨_, hmain, rfl⟩, _, _, ⟨_, rfl, rfl⟩, _, _,
        ⟨rfl, rfl⟩, _, _, ⟨(), _, rfl, rfl, rfl⟩, _, h, rfl⟩

theorem perform_checkMultisig_iff {insist : Bool} :
    perform check op rest executing (.checkMultisig insist) m = .ok () m' ↔
      Instruction.Effect check rest executing (.checkMultisig insist) m m' := by
  simp only [perform, bind_eq_ok_iff, checkMultisig_eq_ok_iff, deliver_eq_ok_iff]
  refine ⟨?_, ?_⟩
  · intro hgiven
    obtain ⟨_, _, ⟨base, signatures, keys, asked, hoffered, hasked, rfl⟩, given, h, rfl⟩ := hgiven
    exact .checkMultisig hoffered hasked h
  · intro hgiven
    cases hgiven with
    | rewrite h => cases h
    | checkMultisig hoffered hasked h =>
      exact ⟨_, _, ⟨_, _, _, _, hoffered, hasked, rfl⟩, _, h, rfl⟩

/-- An instruction succeeds exactly with its effect. -/
theorem perform_eq_ok_iff {i : Instruction} :
    perform check op rest executing i m = .ok () m' ↔ i.Effect check rest executing m m' := by
  cases i with
  | constant n => exact (constant_rewrites n).effect_iff rfl
  | nop => exact nop_rewrites.effect_iff rfl
  | openBranch inverted => exact perform_openBranch_iff
  | turnBranch => exact perform_turnBranch_iff
  | closeBranch => exact perform_closeBranch_iff
  | verify => exact verify_rewrites.effect_iff rfl
  | giveUp =>
    refine ⟨fun h => (by cases h), fun hgiven => ?_⟩
    cases hgiven with
    | rewrite h => cases h
  | toAlt => exact perform_toAlt_iff
  | fromAlt => exact perform_fromAlt_iff
  | rearrange r => exact (rearrange_rewrites r).effect_iff rfl
  | dupIfTrue => exact dupIfTrue_rewrites.effect_iff rfl
  | depth => exact perform_depth_iff
  | size => exact size_rewrites.effect_iff rfl
  | pick => exact pick_rewrites.effect_iff rfl
  | roll => exact roll_rewrites.effect_iff rfl
  | equal insist => exact (equal_rewrites insist).effect_iff rfl
  | unary f => exact (unary_rewrites f).effect_iff rfl
  | binary f => exact (binary_rewrites f).effect_iff rfl
  | numEqualVerify => exact numEqualVerify_rewrites.effect_iff rfl
  | within => exact within_rewrites.effect_iff rfl
  | hash a => exact (hash_rewrites a).effect_iff rfl
  | codeSeparator =>
    refine ⟨fun h => ?_, fun hgiven => ?_⟩
    · cases h
      exact .separate m
    · cases hgiven with
      | rewrite h => cases h
      | separate => rfl
  | checkSig insist => exact perform_checkSig_iff
  | checkMultisig insist => exact perform_checkMultisig_iff

end Exec

/-- Whether the operation is more than passed over: where execution is off, only the operations on
conditionals are. -/
def Operation.isActive (executing : Bool) (o : Operation) : Bool :=
  executing || (o.data.isNone && (o.opcode.isConditional || o.opcode.isForbiddenBranch))

/-- What an operation does to a machine: it pushes its data, performs its instruction, or is passed
over. -/
inductive Operation.Effect (check : Checker) (rest : List Operation) (executing : Bool)
    (o : Operation) : Machine → Machine → Prop
  | push {m : Machine} {data : Bytes} (hactive : o.isActive executing = true)
    (hdata : o.data = some data) : Effect check rest executing o m (m.pushed data)
  | perform {m m' : Machine} {i : Instruction} (hactive : o.isActive executing = true)
    (hdata : o.data = none) (hi : Instruction.ofOpcode? o.opcode = some i)
    (h : i.Effect check rest executing m m') : Effect check rest executing o m m'
  | pass {m : Machine} (hpassive : o.isActive executing = false) :
    Effect check rest executing o m m

namespace Exec

variable {check : Checker} {o : Operation} {rest : List Operation} {executing : Bool}
  {m m' : Machine}

theorem effect_eq :
    effect check o rest executing =
      if o.isActive executing then
        match o.data, Instruction.ofOpcode? o.opcode with
        | some data, _ => push data
        | none, some i => perform check o.opcode rest executing i
        | none, none => throw (.badOpcode o.opcode)
      else pure () := by
  unfold effect Operation.isActive
  cases o.data with
  | some data => simp
  | none => cases Instruction.ofOpcode? o.opcode <;> simp [Bool.or_assoc]

/-- An operation succeeds exactly with its effect. -/
theorem effect_eq_ok_iff :
    effect check o rest executing m = .ok () m' ↔ o.Effect check rest executing m m' := by
  rw [effect_eq]
  refine ⟨fun h => ?_, fun h => ?_⟩
  · cases hactive : o.isActive executing with
    | false =>
      rw [hactive, if_neg Bool.false_ne_true, pure_eq_ok_iff] at h
      obtain ⟨-, rfl⟩ := h
      exact .pass hactive
    | true =>
      rw [hactive, if_pos rfl] at h
      cases hdata : o.data with
      | some data =>
        rw [hdata] at h
        obtain rfl := push_eq_ok_iff.1 h
        exact .push hactive hdata
      | none =>
        cases hi : Instruction.ofOpcode? o.opcode with
        | none =>
          rw [hdata, hi] at h
          cases h
        | some i =>
          rw [hdata, hi] at h
          exact .perform hactive hdata hi (perform_eq_ok_iff.1 h)
  · cases h with
    | push hactive hdata =>
      rw [hactive, if_pos rfl, hdata]
      exact push_eq_ok_iff.2 rfl
    | perform hactive hdata hi h =>
      rw [hactive, if_pos rfl, hdata, hi]
      exact perform_eq_ok_iff.2 h
    | pass hpassive =>
      rw [hpassive, if_neg Bool.false_ne_true]
      rfl

end Exec

end ChainRules.Script
