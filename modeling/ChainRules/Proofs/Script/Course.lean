import Mathlib
import ChainRules.Proofs.Script.Composition

/-!
# The course of a run

A run executes the operations of a script one by one, and a branch that is not taken is passed
through without effect. `Course` keeps, for every machine that a run comes to, the operations behind
it and whether execution was on at each. These determine the script code of the machine: it starts
behind the last separator that was executed.
-/

namespace ChainRules.Script

variable {α β γ : Type}

namespace Exec

/-- The machine in which a computation ends or is aborted. -/
def final : EStateM.Result Abort Machine α → Machine
  | .ok _ m => m
  | .error _ m => m

/-- The computation leaves a part of the machine as it is, also where it is aborted. -/
def Leaves (part : Machine → γ) (x : Exec α) : Prop :=
  ∀ m, part (final (x m)) = part m

theorem Leaves.bind {part : Machine → γ} {x : Exec α} {f : α → Exec β} (hx : Leaves part x)
    (hf : ∀ a, Leaves part (f a)) : Leaves part (x >>= f) := by
  intro m
  have hfirst := hx m
  show part (final (EStateM.bind x f m)) = part m
  unfold EStateM.bind
  cases hrun : x m with
  | ok a m' =>
    rw [hrun] at hfirst
    exact (hf a m').trans hfirst
  | error cause m' =>
    rw [hrun] at hfirst
    exact hfirst

theorem Leaves.of_ok {part : Machine → γ} {x : Exec α} (h : Leaves part x) {m m' : Machine} {a : α}
    (hx : x m = .ok a m') : part m' = part m := by
  have hfinal := h m
  rw [hx] at hfinal
  exact hfinal

/-- What neither the stacks nor the count of operations take part in is left as it is by accesses to
the state. -/
theorem leaves_stateAccess {part : Machine → γ}
    (hstacks : ∀ m main alt, part { m with main := main, alt := alt } = part m)
    (hcount : ∀ m n, part { m with opCount := n } = part m) :
    StateAccess fun _ x => Leaves part x where
  pure _ _ := rfl
  throw _ _ := rfl
  bind hx hf := hx.bind hf
  look _ hf m := hf m m
  restack _ _ m := hstacks m _ _
  tally _ m := hcount m _

theorem code_compositional : Compositional fun _ x => Leaves Machine.code x where
  toStateAccess := leaves_stateAccess (fun _ _ _ => rfl) fun _ _ => rfl
  asked _ _ := rfl

end Exec

/-- The operation that moves the start of the script code. -/
def separator : Operation :=
  .bare .opCodeSeparator

theorem ofOpcode?_eq_codeSeparator_iff (op : Opcode) :
    Instruction.ofOpcode? op = some .codeSeparator ↔ op = .opCodeSeparator := by
  revert op
  decide +kernel

namespace Exec

theorem effect_leaves_code (check : Checker) {o : Operation} (rest : List Operation)
    {executing : Bool} (h : ¬(o = separator ∧ executing = true)) :
    Leaves Machine.code (effect check o rest executing) := by
  by_cases hcode : o = separator
  · subst hcode
    have hskip : executing = false := by simpa using h
    subst hskip
    intro m
    rfl
  · apply code_compositional.effect
    intro i hdata hi
    refine code_compositional.perform _ _ _ _ _ (fun _ _ _ => rfl) fun hsep => ?_
    rw [hsep, ofOpcode?_eq_codeSeparator_iff] at hi
    obtain ⟨opcode, data⟩ := o
    subst hdata hi
    exact absurd rfl hcode

/-- Executing an operation changes the script code only if it is a separator. -/
theorem code_of_execute {check : Checker} {o : Operation} {rest : List Operation} {m m' : Machine}
    (h : execute check o rest m = .ok () m') :
    m'.code = if o = separator ∧ m.isExecuting = true then rest else m.code := by
  obtain ⟨-, mid, hchecked, heffect, -⟩ := execute_eq_ok_iff.1 h
  have hprecheck : Leaves Machine.code (precheck o) := code_compositional.precheck o
  have hmid := hprecheck.of_ok hchecked
  change mid.code = m.code at hmid
  by_cases hsep : o = separator ∧ m.isExecuting = true
  · rw [if_pos hsep]
    rw [hsep.1, hsep.2] at heffect
    cases heffect
    rfl
  · rw [if_neg hsep, ← hmid]
    exact (effect_leaves_code check rest hsep).of_ok heffect

end Exec

/-- The machines that a run of `ops` comes to: each with the operations that are done and whether
execution was on at them, and with the operations that follow. -/
inductive Course (check : Checker) (ops : List Operation) :
    List (Operation × Bool) → List Operation → Machine → Prop
  | start (m : Machine) :
    Course check ops [] ops { m with branches := [], opCount := 0, code := ops }
  | step {done : List (Operation × Bool)} {o : Operation} {rest : List Operation} {m m' : Machine} :
    Course check ops done (o :: rest) m → Exec.execute check o rest m = .ok () m' →
    Course check ops (done ++ [(o, m.isExecuting)]) rest m'

/-- From a machine on its course, running what follows ends as running the whole script does. -/
theorem Course.run_eq {check : Checker} {ops rest : List Operation}
    {done : List (Operation × Bool)} {m : Machine} (h : Course check ops done rest m) :
    ∃ m₀ : Machine, Exec.run check ops { m₀ with branches := [], opCount := 0, code := ops } =
      Exec.run check rest m := by
  induction h with
  | start m => exact ⟨m, rfl⟩
  | step hbefore hexecuted ih =>
    obtain ⟨m₀, hrun⟩ := ih
    refine ⟨m₀, hrun.trans ?_⟩
    rw [Exec.run]
    simp only [Bind.bind, EStateM.bind, hexecuted]

/-- The operations behind the last separator that was executed, all if there was none. -/
def sinceSeparator (done : List (Operation × Bool)) (rest : List Operation) : List Operation :=
  (done.rtakeWhile fun p => !(p.1 = separator && p.2)).map Prod.fst ++ rest

/-- The script code of a machine starts behind the last separator that was executed. -/
theorem Course.code_eq {check : Checker} {ops rest : List Operation}
    {done : List (Operation × Bool)} {m : Machine} (h : Course check ops done rest m) :
    m.code = sinceSeparator done rest := by
  induction h with
  | start m => simp [sinceSeparator]
  | step hbefore hexecuted ih =>
    rename_i done o rest m m'
    rw [Exec.code_of_execute hexecuted, sinceSeparator, List.rtakeWhile_concat]
    by_cases hsep : o = separator ∧ m.isExecuting = true
    · simp [hsep]
    · have hkept : (!(decide (o = separator) && m.isExecuting)) = true := by
        rw [Bool.not_eq_true', ← Bool.not_eq_true, Bool.and_eq_true, decide_eq_true_eq]
        exact hsep
      rw [if_neg hsep, if_pos hkept, ih, sinceSeparator]
      simp

end ChainRules.Script
