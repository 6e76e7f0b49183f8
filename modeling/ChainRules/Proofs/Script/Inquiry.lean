import ChainRules.Proofs.Script.Budget
import ChainRules.Proofs.Script.Limits

/-!
# What the checker is asked

The log of a run keeps, for every operation that is begun, the machine before it and the questions
that it puts to the checker. Every question is about items of the main stack and about the operations
from one place of the script on: behind the last separator that the run has executed so far, or from
the start.
-/

namespace ChainRules.Script

variable {α β : Type}

/-- An operation that a run begins: the machine before it, and the questions that it asks. -/
structure Entry where
  before : Machine
  asked : List Query

namespace Exec

/-- The operations that a run begins, in order. The last one may be aborted. -/
def log (check : Checker) : List Operation → Machine → List Entry
  | [], _ => []
  | o :: rest, m =>
    let result := execute check o rest m
    ⟨m, (final result).queries.drop m.queries.length⟩ ::
      match result with
      | .ok _ m' => log check rest m'
      | .error _ _ => []

end Exec

/-- The run executes a separator at the index. -/
def SeparatesAt (ops : List Operation) (log : List Entry) (i : Nat) : Prop :=
  ops[i]? = some separator ∧ ∃ entry, log[i]? = some entry ∧ entry.before.isExecuting = true

/-- The index `k` is one past the last separator that the run executes below the index `pc`, or 0 if
it executes none there. -/
structure CodeStart (ops : List Operation) (log : List Entry) (pc k : Nat) : Prop where
  le : k ≤ pc
  behind : k = 0 ∨ SeparatesAt ops log (k - 1)
  last : ∀ i, k ≤ i → i < pc → ¬SeparatesAt ops log i

section CodeStart

variable {o : Operation} {rest : List Operation} {entry : Entry} {log : List Entry} {pc k i : Nat}

theorem separatesAt_zero :
    SeparatesAt (o :: rest) (entry :: log) 0 ↔ o = separator ∧ entry.before.isExecuting = true := by
  simp [SeparatesAt]

theorem separatesAt_succ :
    SeparatesAt (o :: rest) (entry :: log) (i + 1) ↔ SeparatesAt rest log i := by
  simp [SeparatesAt]

/-- The code starts behind the same separator where one more operation comes first, or behind this
operation. -/
theorem CodeStart.succ (h : CodeStart rest log pc k)
    (hsep : SeparatesAt (o :: rest) (entry :: log) k) :
    CodeStart (o :: rest) (entry :: log) (pc + 1) (k + 1) := by
  refine ⟨Nat.succ_le_succ h.le, .inr hsep, fun i hle hlt => ?_⟩
  obtain ⟨j, rfl⟩ := Nat.exists_eq_add_of_le' (Nat.succ_le_of_lt (Nat.lt_of_lt_of_le k.succ_pos hle))
  rw [separatesAt_succ]
  exact h.last j (by omega) (by omega)

theorem CodeStart.none (h : CodeStart rest log pc 0)
    (hsep : ¬SeparatesAt (o :: rest) (entry :: log) 0) :
    CodeStart (o :: rest) (entry :: log) (pc + 1) 0 := by
  refine ⟨Nat.zero_le _, .inl rfl, fun i _ hlt => ?_⟩
  cases i with
  | zero => exact hsep
  | succ i =>
    rw [separatesAt_succ]
    exact h.last i (Nat.zero_le i) (by omega)

end CodeStart

/-- The operation asks about these signatures: about the topmost item but one, for the key above it, or
about several, for keys that are offered with them. -/
inductive Operation.Inquires (o : Operation) (m : Machine) : List Item → Query → Prop
  | single {q : Query} {below : Stack} (hop : o = .bare .opCheckSig ∨ o = .bare .opCheckSigVerify)
    (hmain : m.main = q.key :: q.signature :: below) : Inquires o m [q.signature] q
  | several {q : Query} {base : Stack} {signatures keys : List Item}
    (hop : o = .bare .opCheckMultisig ∨ o = .bare .opCheckMultisigVerify)
    (hoffered : m.OffersMultisig base signatures keys) (hsignature : q.signature ∈ signatures)
    (hkey : q.key ∈ keys) : Inquires o m signatures q

/-- The signature and the key of a question are items of the main stack. -/
theorem Operation.Inquires.mem_main {o : Operation} {m : Machine} {signatures : List Item} {q : Query}
    (h : o.Inquires m signatures q) : q.signature ∈ m.main ∧ q.key ∈ m.main := by
  cases h with
  | single _ hmain => simp [hmain]
  | several _ hoffered hsignature hkey =>
    obtain ⟨dummy, sigCount, keyCount, hmain, -⟩ := hoffered.main
    simp [hmain, hsignature, hkey]

namespace Exec

variable {check : Checker} {P : Query → Prop} {m : Machine}

/-! ## Questions of computations -/

/-- From the machine, the computation asks only questions of one kind. -/
def AsksOnly (P : Query → Prop) (m : Machine) (x : Exec α) : Prop :=
  ∃ asked, (final (x m)).queries = m.queries ++ asked ∧ ∀ q ∈ asked, P q

theorem queries_bind {x : Exec α} {f : α → Exec β} (hf : ∀ a, Leaves Machine.queries (f a))
    (m : Machine) : (final ((x >>= f) m)).queries = (final (x m)).queries := by
  cases hrun : x m with
  | ok a m' =>
    rw [bind_ok hrun]
    exact hf a m'
  | error cause m' =>
    rw [bind_error hrun]
    rfl

namespace AsksOnly

theorem of_leaves {x : Exec α} (h : Leaves Machine.queries x) : AsksOnly P m x :=
  ⟨[], (h m).trans (List.append_nil _).symm, by simp⟩

/-- What comes first asks nothing. -/
theorem after {x : Exec α} {f : α → Exec β} (hx : Leaves Machine.queries x)
    (hf : ∀ a m', x m = .ok a m' → AsksOnly P m' (f a)) : AsksOnly P m (x >>= f) := by
  cases hrun : x m with
  | ok a m' =>
    obtain ⟨asked, hqueries, hasked⟩ := hf a m' hrun
    refine ⟨asked, ?_, hasked⟩
    rw [bind_ok hrun, hqueries, hx.of_ok hrun]
  | error cause m' =>
    have hsame := hx m
    rw [hrun] at hsame
    refine ⟨[], ?_, by simp⟩
    rw [bind_error hrun, List.append_nil]
    exact hsame

/-- What comes last asks nothing. -/
theorem before {x : Exec α} {f : α → Exec β} (hx : AsksOnly P m x)
    (hf : ∀ a, Leaves Machine.queries (f a)) : AsksOnly P m (x >>= f) := by
  obtain ⟨asked, hqueries, hasked⟩ := hx
  exact ⟨asked, (queries_bind hf m).trans hqueries, hasked⟩

end AsksOnly

/-- By induction along the keys: every question is about one of the signatures and one of the keys. -/
theorem matchSignatures_asksOnly (check : Checker) (code : List Operation)
    (signatures keys : List Bytes) (m : Machine) :
    AsksOnly (fun q => q.signature ∈ signatures ∧ q.key ∈ keys ∧ q.code = code ∧
      q.answer = check q.signature q.key q.code) m (matchSignatures check code signatures keys) := by
  induction keys generalizing signatures m with
  | nil =>
    cases signatures with
    | nil => exact .of_leaves fun _ => rfl
    | cons s signatures => exact .of_leaves fun _ => rfl
  | cons k keys ih =>
    cases signatures with
    | nil => exact .of_leaves fun _ => rfl
    | cons s signatures =>
      let q : Query := ⟨s, k, code, check s k code⟩
      let left := if check s k code then signatures else s :: signatures
      have hleft : ∀ s' ∈ left, s' ∈ s :: signatures := by
        intro s' hs'
        simp only [left] at hs'
        split at hs'
        · exact List.mem_cons_of_mem s hs'
        · exact hs'
      unfold AsksOnly
      rw [matchSignatures_cons_cons]
      by_cases hfew : keys.length < left.length
      · refine ⟨[q], ?_, by simp [q]⟩
        rw [if_pos hfew]
        rfl
      · obtain ⟨asked, hqueries, hasked⟩ := ih left (m.asked q)
        refine ⟨q :: asked, ?_, ?_⟩
        · rw [if_neg hfew, hqueries]
          simp [Machine.asked]
        · rw [List.forall_mem_cons]
          refine ⟨by simp [q], fun q' hq' => ?_⟩
          obtain ⟨hsignature, hkey, hcode⟩ := hasked q' hq'
          exact ⟨hleft _ hsignature, List.mem_cons_of_mem k hkey, hcode⟩

/-! ## Questions of operations -/

theorem takeKeys_leaves_queries (op : Opcode) : Leaves Machine.queries (takeKeys op) := by
  have h := queries_stateAccess
  unfold takeKeys
  refine h.bind (h.popNumber op) fun keyCount => h.check fun _ => ?_
  refine h.bind (h.count _) fun _ => h.bind (h.require _ _) fun _ => ?_
  exact h.look (fun _ _ => rfl) fun m => h.bind (h.setMain _) fun _ => h.pure _

theorem takeSignatures_leaves_queries (op : Opcode) (n : Int) :
    Leaves Machine.queries (takeSignatures op n) := by
  have h := queries_stateAccess
  unfold takeSignatures
  refine h.bind (h.popNumber op) fun sigCount => h.check fun _ => ?_
  refine h.bind (h.require _ _) fun _ => h.look (fun _ _ => rfl) fun m => ?_
  exact h.bind (h.setMain _) fun _ => h.pure _

/-- A question that an operation asks in the machine: about the script code without the signatures
that the operation asks about, and answered by the checker. -/
def InquiresIn (check : Checker) (o : Operation) (m : Machine) (q : Query) : Prop :=
  q.answer = check q.signature q.key q.code ∧
    ∃ signatures, o.Inquires m signatures q ∧ q.code = withoutPushes signatures m.code

theorem ofOpcode?_eq_checkSig {op : Opcode} {insist : Bool}
    (h : Instruction.ofOpcode? op = some (.checkSig insist)) :
    op = .opCheckSig ∨ op = .opCheckSigVerify := by
  revert op insist
  decide +kernel

theorem ofOpcode?_eq_checkMultisig {op : Opcode} {insist : Bool}
    (h : Instruction.ofOpcode? op = some (.checkMultisig insist)) :
    op = .opCheckMultisig ∨ op = .opCheckMultisigVerify := by
  revert op insist
  decide +kernel

theorem scriptCode_singleton (m : Machine) (signature : Bytes) :
    m.scriptCode [signature] = withoutPushes [signature] m.code :=
  m.scriptCode_reverse [signature]

theorem perform_checkSig_asksOnly {o : Operation} (rest : List Operation) (executing insist : Bool)
    (hop : o = .bare .opCheckSig ∨ o = .bare .opCheckSigVerify) (m : Machine) :
    AsksOnly (InquiresIn check o m) m (perform check o.opcode rest executing (.checkSig insist)) := by
  have h := queries_stateAccess
  unfold perform
  refine .after (h.require o.opcode 2) fun _ m' hrequired => ?_
  obtain ⟨-, rfl⟩ := require_eq_ok_iff.1 hrequired
  refine .after (h.pop o.opcode) fun key m₁ hkey => ?_
  obtain ⟨below, hmain, rfl⟩ := pop_eq_ok_iff.1 hkey
  refine .after (h.pop o.opcode) fun signature m₂ hsignature => ?_
  obtain ⟨base, rfl, rfl⟩ := pop_eq_ok_iff.1 hsignature
  refine .after (fun _ => rfl) fun m₃ m₄ hget => ?_
  obtain ⟨rfl, rfl⟩ := get_eq_ok_iff.1 hget
  let code := m'.scriptCode [signature]
  let q : Query := ⟨signature, key, code, check signature key code⟩
  have hsingle : o.Inquires m' [q.signature] q := .single hop hmain
  refine .before ⟨[q], rfl, ?_⟩ fun answer => h.deliver _ _ _
  rw [List.forall_mem_singleton]
  exact ⟨rfl, [signature], hsingle, scriptCode_singleton _ signature⟩

theorem perform_checkMultisig_asksOnly {o : Operation} (rest : List Operation)
    (executing insist : Bool)
    (hop : o = .bare .opCheckMultisig ∨ o = .bare .opCheckMultisigVerify) (m : Machine) :
    AsksOnly (InquiresIn check o m) m
      (perform check o.opcode rest executing (.checkMultisig insist)) := by
  have h := queries_stateAccess
  unfold perform
  refine .before ?_ fun answer => h.deliver _ _ _
  rw [checkMultisig_eq]
  refine .after (takeKeys_leaves_queries _) fun taken m₁ hkeys => ?_
  obtain ⟨n, keys⟩ := taken
  refine .after (takeSignatures_leaves_queries _ _) fun signatures m₂ hsignatures => ?_
  obtain ⟨base, hoffered, rfl⟩ := offersMultisig_of_taken hkeys hsignatures
  refine .after (fun _ => rfl) fun m₃ m₄ hget => ?_
  obtain ⟨rfl, rfl⟩ := get_eq_ok_iff.1 hget
  obtain ⟨asked, hqueries, hasked⟩ := matchSignatures_asksOnly check _ signatures keys _
  refine ⟨asked, hqueries, fun q hq => ?_⟩
  obtain ⟨hsignature, hkey, hcode, hanswer⟩ := hasked q hq
  refine ⟨hanswer, signatures.reverse,
    .several hop hoffered (List.mem_reverse.2 hsignature) (List.mem_reverse.2 hkey), ?_⟩
  rw [hcode, ← Machine.scriptCode_reverse, List.reverse_reverse]
  rfl

/-- Only the operations that check signatures ask anything. -/
theorem effect_asksOnly (check : Checker) (o : Operation) (rest : List Operation) (executing : Bool)
    (m : Machine) : AsksOnly (InquiresIn check o m) m (effect check o rest executing) := by
  have h := queries_stateAccess
  rw [effect_eq]
  split
  · split
    · exact .of_leaves (h.push _)
    · rename_i i hdata hi
      have hbare : o = .bare o.opcode := by
        obtain ⟨op, data⟩ := o
        exact congrArg (Operation.mk op) hdata
      cases hasking : i.isAsking with
      | false =>
        refine .of_leaves (h.perform _ _ _ _ _ (fun _ _ _ => rfl) (fun _ _ => rfl) fun htrue => ?_)
        rw [hasking] at htrue
        cases htrue
      | true =>
        cases i with
        | checkSig insist =>
          refine perform_checkSig_asksOnly rest executing insist ?_ m
          rw [hbare]
          exact (ofOpcode?_eq_checkSig hi).imp (congrArg _) (congrArg _)
        | checkMultisig insist =>
          refine perform_checkMultisig_asksOnly rest executing insist ?_ m
          rw [hbare]
          exact (ofOpcode?_eq_checkMultisig hi).imp (congrArg _) (congrArg _)
        | _ => cases hasking
    · exact .of_leaves fun _ => rfl
  · exact .of_leaves fun _ => rfl

/-- What was counted for the operation itself leaves its questions as they are. -/
theorem InquiresIn.of_counted {o : Operation} {q : Query} {n : Nat} {t : Token}
    (h : InquiresIn check o { m with token := t, opCount := m.opCount + n } q) :
    InquiresIn check o m q := by
  obtain ⟨hanswer, signatures, hinquires, hcode⟩ := h
  refine ⟨hanswer, signatures, ?_, hcode⟩
  cases hinquires with
  | single hop hmain => exact .single hop hmain
  | several hop hoffered hsignature hkey =>
    obtain ⟨hmain, hsigCount, hkeyCount, hopCount⟩ := hoffered
    change m.opCount + n + _ ≤ limits.operations at hopCount
    exact .several hop ⟨hmain, hsigCount, hkeyCount, by omega⟩ hsignature hkey

theorem execute_asksOnly (check : Checker) (o : Operation) (rest : List Operation) (m : Machine) :
    AsksOnly (InquiresIn check o m) m (execute check o rest) := by
  rw [execute_eq]
  refine .after poll_leaves_queries fun _ m₁ hpolled => ?_
  obtain ⟨-, rfl⟩ := poll_eq_ok_iff.1 hpolled
  refine .after (fun _ => rfl) fun m₂ m₃ hget => ?_
  obtain ⟨rfl, rfl⟩ := get_eq_ok_iff.1 hget
  refine .after (queries_stateAccess.precheck o) fun _ mid hchecked => ?_
  obtain ⟨-, -, -, rfl⟩ := precheck_eq_ok_iff.1 hchecked
  refine .before ?_ fun _ => queries_stateAccess.checkStacks
  obtain ⟨asked, hqueries, hasked⟩ := effect_asksOnly check o rest _ _
  exact ⟨asked, hqueries, fun q hq => (hasked q hq).of_counted (n := o.cost) (t := m.token.polled)⟩

/-! ## Questions of runs -/

/-- The questions of a logged operation are its own. -/
theorem inquiresIn_of_log {ops : List Operation} {pc : Nat} {entry : Entry}
    (h : (log check ops m)[pc]? = some entry) :
    ∃ o, ops[pc]? = some o ∧ ∀ q ∈ entry.asked, InquiresIn check o entry.before q := by
  induction ops generalizing m pc with
  | nil => simp [log] at h
  | cons o rest ih =>
    cases pc with
    | zero =>
      obtain rfl := Option.some.inj h
      refine ⟨o, rfl, ?_⟩
      obtain ⟨asked, hqueries, hasked⟩ := execute_asksOnly check o rest m
      dsimp only
      rw [hqueries, List.drop_left]
      exact hasked
    | succ pc =>
      rw [log, List.getElem?_cons_succ] at h
      cases hrun : execute check o rest m with
      | ok _ m' =>
        rw [hrun] at h
        exact ih h
      | error cause m' =>
        rw [hrun] at h
        cases h

/-- By induction along the operations: a run asks what its operations ask, one after the other. -/
theorem queries_run (check : Checker) (ops : List Operation) (m : Machine) :
    (final (run check ops m)).queries = m.queries ++ (log check ops m).flatMap Entry.asked := by
  induction ops generalizing m with
  | nil => exact (List.append_nil _).symm
  | cons o rest ih =>
    obtain ⟨asked, hqueries, -⟩ := execute_asksOnly check o rest m
    rw [run, log, List.flatMap_cons, hqueries, List.drop_left, ← List.append_assoc, ← hqueries]
    cases hrun : execute check o rest m with
    | ok _ m' =>
      rw [bind_ok hrun, ih m']
      rfl
    | error cause m' =>
      rw [bind_error hrun]
      exact (List.append_nil _).symm

/-- By induction along the operations: the code of a machine starts behind the last separator that was
executed before, if there is one in the run. -/
theorem codeStart_of_log {ops : List Operation} {pc : Nat} {entry : Entry}
    (h : (log check ops m)[pc]? = some entry) :
    ∃ k, CodeStart ops (log check ops m) pc k ∧
      entry.before.code = if k = 0 then m.code else ops.drop k := by
  induction ops generalizing m pc with
  | nil => simp [log] at h
  | cons o rest ih =>
    cases pc with
    | zero =>
      obtain rfl := Option.some.inj h
      exact ⟨0, ⟨Nat.le_refl 0, .inl rfl, by omega⟩, rfl⟩
    | succ pc =>
      cases hrun : execute check o rest m with
      | error cause m' =>
        rw [log, List.getElem?_cons_succ, hrun] at h
        cases h
      | ok _ m' =>
        rw [log, hrun] at h ⊢
        rw [List.getElem?_cons_succ] at h
        obtain ⟨k, ⟨hle, hbehind, hlast⟩, hcode⟩ := ih h
        rw [code_of_execute hrun] at hcode
        cases k with
        | succ k =>
          have hsep := hbehind.resolve_left k.succ_ne_zero
          exact ⟨k + 2, CodeStart.succ ⟨hle, hbehind, hlast⟩ (separatesAt_succ.2 hsep), hcode⟩
        | zero =>
          by_cases hsep : o = separator ∧ m.isExecuting = true
          · rw [if_pos rfl, if_pos hsep] at hcode
            exact ⟨1, CodeStart.succ ⟨hle, hbehind, hlast⟩ (separatesAt_zero.2 hsep), hcode⟩
          · rw [if_pos rfl, if_neg hsep] at hcode
            exact ⟨0, CodeStart.none ⟨hle, hbehind, hlast⟩ (mt separatesAt_zero.1 hsep), hcode⟩

theorem queries_operations (check : Checker) (ops : List Operation) (m : Machine) :
    (final (operations check ops m)).queries =
      m.queries ++ (log check ops (m.entering ops)).flatMap Entry.asked := by
  have hclosing : Leaves Machine.queries
      (do if !(← get).branches.isEmpty then throw .unbalancedConditional : Exec Unit) :=
    queries_stateAccess.look (fun _ _ => rfl) fun _ => queries_stateAccess.insist
  calc
    _ = (final ((run check ops >>= fun _ => do
          if !(← get).branches.isEmpty then throw .unbalancedConditional) (m.entering ops))).queries :=
      rfl
    _ = (final (run check ops (m.entering ops))).queries :=
      queries_bind (fun _ => hclosing) (m.entering ops)
    _ = m.queries ++ (log check ops (m.entering ops)).flatMap Entry.asked :=
      queries_run check ops (m.entering ops)

/-- The question is asked at an operation of the script, which is run from the machine. -/
def AskedIn (check : Checker) (bytes : Bytes) (m : Machine) (q : Query) : Prop :=
  ∃ (ops : List Operation) (pc : Nat) (entry : Entry), parse bytes = .ok ops ∧
    (log check ops (m.entering ops))[pc]? = some entry ∧ q ∈ entry.asked

theorem askedIn_of_script {bytes : Bytes} {q : Query}
    (h : q ∈ (final (script check bytes m)).queries) : q ∈ m.queries ∨ AskedIn check bytes m q := by
  unfold script at h
  dsimp only at h
  split at h
  · exact .inl h
  · cases hparse : parse bytes with
    | error cause =>
      rw [hparse] at h
      exact .inl h
    | ok ops =>
      rw [hparse] at h
      dsimp only at h
      rw [queries_operations, List.mem_append, List.mem_flatMap] at h
      refine h.imp_right fun hlogged => ?_
      obtain ⟨entry, hentry, hq⟩ := hlogged
      obtain ⟨pc, hpc⟩ := List.mem_iff_getElem?.1 hentry
      exact ⟨ops, pc, entry, hparse, hpc, hq⟩

/-- Every question of a spend is asked in the run of one of its scripts. -/
theorem askedIn_of_spend {token : Token} {unlock lock : Bytes} {q : Query}
    (h : q ∈ (final (spend check unlock lock (Machine.empty token))).queries) :
    AskedIn check unlock (Machine.empty token) q ∨
      ∃ m, script check unlock (Machine.empty token) = .ok () m ∧ AskedIn check lock m q := by
  have hunlock : ∀ q ∈ (final (script check unlock (Machine.empty token))).queries,
      AskedIn check unlock (Machine.empty token) q := by
    intro q hq
    refine (askedIn_of_script hq).resolve_left ?_
    simp [Machine.empty]
  unfold spend at h
  cases hrun : script check unlock (Machine.empty token) with
  | error cause m =>
    rw [bind_error hrun] at h
    left
    apply hunlock
    rw [hrun]
    exact h
  | ok _ m =>
    rw [bind_ok hrun, queries_bind fun _ _ => rfl] at h
    rcases askedIn_of_script h with hbefore | hlock
    · left
      apply hunlock
      rw [hrun]
      exact hbefore
    · exact .inr ⟨m, rfl, hlock⟩

end Exec

/-- The checker always sees the right script code. A run asks what its operations ask, and each of
these questions is about items of the main stack and about the operations from one past the last
separator that the run executed before, without those that push a signature that the operation asks
about; the operation itself is always among them. A spend asks nothing but in the runs of its two
scripts. -/
theorem questions_on_code (check : Checker) :
    (∀ (ops : List Operation) (m : Machine),
      (Exec.final (Exec.operations check ops m)).queries =
        m.queries ++ (Exec.log check ops (m.entering ops)).flatMap Entry.asked ∧
      ∀ pc entry q, (Exec.log check ops (m.entering ops))[pc]? = some entry → q ∈ entry.asked →
        ∃ o signatures k, ops[pc]? = some o ∧ o.Inquires entry.before signatures q ∧
          q.signature ∈ entry.before.main ∧ q.key ∈ entry.before.main ∧
          CodeStart ops (Exec.log check ops (m.entering ops)) pc k ∧
          q.code = withoutPushes signatures (ops.drop k) ∧ o ∈ q.code ∧
          q.answer = check q.signature q.key q.code) ∧
    ∀ (token : Token) (unlock lock : Bytes),
      ∀ q ∈ (Exec.final (spend check token unlock lock)).queries,
        Exec.AskedIn check unlock (Machine.empty token) q ∨
          ∃ m, Exec.script check unlock (Machine.empty token) = .ok () m ∧
            Exec.AskedIn check lock m q := by
  refine ⟨fun ops m => ⟨Exec.queries_operations check ops m, ?_⟩,
    fun token unlock lock q hq => Exec.askedIn_of_spend hq⟩
  intro pc entry q hentry hq
  obtain ⟨o, ho, hasked⟩ := Exec.inquiresIn_of_log hentry
  obtain ⟨hanswer, signatures, hinquires, hcode⟩ := hasked q hq
  obtain ⟨k, hstart, hbehind⟩ := Exec.codeStart_of_log hentry
  have hdrop : entry.before.code = ops.drop k := by
    rw [hbehind]
    split
    · rename_i hzero
      rw [hzero]
      rfl
    · rfl
  rw [hdrop] at hcode
  obtain ⟨hsignature, hkey⟩ := hinquires.mem_main
  refine ⟨o, signatures, k, ho, hinquires, hsignature, hkey, hstart, hcode, ?_, hanswer⟩
  have hmem : o ∈ ops.drop k := by
    refine List.mem_iff_getElem?.2 ⟨pc - k, ?_⟩
    rw [List.getElem?_drop, Nat.add_sub_cancel' hstart.le]
    exact ho
  have hbare : o.data = none := by
    cases hinquires with
    | single hop => rcases hop with rfl | rfl <;> rfl
    | several hop => rcases hop with rfl | rfl <;> rfl
  rw [hcode, withoutPushes, List.mem_filter]
  exact ⟨hmem, by simp [hbare]⟩

/-- A separator in a branch that is not taken leaves the code as it is. -/
theorem questions_on_code_skipped_separator :
    let check : Checker := fun _ _ _ => true
    let ops : List Operation :=
      [.push [], .bare .opIf, separator, .bare .opEndIf, .push [9], .push [8], .bare .opCheckSig]
    let entries := Exec.log check ops ((Machine.empty .never).entering ops)
    ∃ entry q, entries[6]? = some entry ∧ q ∈ entry.asked ∧ CodeStart ops entries 6 0 ∧
      q.code = [.push [], .bare .opIf, separator, .bare .opEndIf, .push [8], .bare .opCheckSig] := by
  intro check ops entries
  have hentry : ∃ entry, entries[6]? = some entry ∧ ∃ q, entry.asked = [q] ∧ q.signature = [9] :=
    ⟨_, rfl, _, rfl, rfl⟩
  obtain ⟨entry, hentry, q, hasked, hsignature⟩ := hentry
  have hq : q ∈ entry.asked := by simp [hasked]
  obtain ⟨o, signatures, k, ho, hinquires, -, -, hstart, hcode, -⟩ :=
    ((questions_on_code check).1 ops (Machine.empty .never)).2 6 entry q hentry hq
  obtain rfl : k = 0 := by
    refine hstart.behind.resolve_right ?_
    rintro ⟨hsep, before, hbefore, hon⟩
    have honly : ∀ i < 6, ops[i]? = some separator → i = 2 := by decide
    have hle := hstart.le
    have htwo : k - 1 = 2 := honly (k - 1) (by omega) hsep
    rw [htwo] at hbefore
    cases hbefore
    cases hon
  obtain rfl : .bare .opCheckSig = o := Option.some.inj ho
  obtain rfl : signatures = [[9]] := by
    cases hinquires with
    | single => rw [hsignature]
    | several hop => rcases hop with hop | hop <;> cases hop
  exact ⟨entry, q, hentry, hq, hstart, hcode.trans (by decide)⟩

end ChainRules.Script
