import Mathlib
import ChainRules.Proofs.Script.Course

/-!
# Several signatures against several keys

The machine tries signatures and keys in one pass from the top of the stack, each key once, and
gives up as soon as more signatures than keys are left. This decides whether there is any assignment
of the signatures to keys that keeps their order.
-/

namespace ChainRules.Script

variable {α β : Type}

section Matching

variable {R : α → β → Prop}

theorem sublistForall₂_tail {a : α} {as : List α} {bs : List β}
    (h : List.SublistForall₂ R (a :: as) bs) : List.SublistForall₂ R as bs := by
  obtain ⟨cs, hcs, hsub⟩ := List.sublistForall₂_iff.1 h
  cases hcs with
  | cons _ htail =>
    exact List.sublistForall₂_iff.2 ⟨_, htail, (List.sublist_cons_self _ _).trans hsub⟩

theorem sublistForall₂_length_le {as : List α} {bs : List β} (h : List.SublistForall₂ R as bs) :
    as.length ≤ bs.length := by
  obtain ⟨cs, hcs, hsub⟩ := List.sublistForall₂_iff.1 h
  rw [hcs.length_eq]
  exact hsub.length_le

/-- If the first two are related they may be paired: whatever the first of `as` is paired with
otherwise, the rest of `as` finds its partners behind `b`. -/
theorem sublistForall₂_cons_cons_of_rel {a : α} {b : β} {as : List α} {bs : List β} (hab : R a b) :
    List.SublistForall₂ R (a :: as) (b :: bs) ↔ List.SublistForall₂ R as bs := by
  refine ⟨fun h => ?_, fun h => .cons hab h⟩
  cases h with
  | cons _ htail => exact htail
  | cons_right hrest => exact sublistForall₂_tail hrest

theorem sublistForall₂_cons_cons_of_not_rel {a : α} {b : β} {as : List α} {bs : List β}
    (hab : ¬R a b) :
    List.SublistForall₂ R (a :: as) (b :: bs) ↔ List.SublistForall₂ R (a :: as) bs := by
  refine ⟨fun h => ?_, fun h => .cons_right h⟩
  cases h with
  | cons hrel _ => exact absurd hrel hab
  | cons_right hrest => exact hrest

theorem sublistForall₂_reverse_iff {as : List α} {bs : List β} :
    List.SublistForall₂ R as.reverse bs.reverse ↔ List.SublistForall₂ R as bs := by
  have hreverse : ∀ {as : List α} {bs : List β}, List.SublistForall₂ R as bs →
      List.SublistForall₂ R as.reverse bs.reverse := by
    intro as bs h
    obtain ⟨cs, hcs, hsub⟩ := List.sublistForall₂_iff.1 h
    exact List.sublistForall₂_iff.2 ⟨cs.reverse, List.rel_reverse hcs, hsub.reverse⟩
  refine ⟨fun h => ?_, hreverse⟩
  simpa using hreverse h

/-- Partners can be found along a list if and only if places of partners can, in the same order. -/
theorem sublistForall₂_iff_exists_strictMono {as : List α} {bs : List β} :
    List.SublistForall₂ R as bs ↔ ∃ f : Fin as.length → Fin bs.length,
      StrictMono f ∧ ∀ j, R (as.get j) (bs.get (f j)) := by
  rw [List.sublistForall₂_iff]
  refine ⟨?_, ?_⟩
  · intro hgiven
    obtain ⟨cs, hcs, hsub⟩ := hgiven
    obtain ⟨f, hf⟩ := List.sublist_iff_exists_fin_orderEmbedding_get_eq.1 hsub
    obtain ⟨hlen, hrel⟩ := List.forall₂_iff_get.1 hcs
    refine ⟨fun j => f (Fin.cast hlen j), fun i j hij => f.strictMono hij, fun j => ?_⟩
    rw [← hf]
    exact hrel j.1 j.2 (hlen ▸ j.2)
  · intro hgiven
    obtain ⟨f, hf, hrel⟩ := hgiven
    have hlen : (List.ofFn fun j => bs.get (f j)).length = as.length := List.length_ofFn
    refine ⟨List.ofFn fun j => bs.get (f j), ?_, ?_⟩
    · refine List.forall₂_iff_get.2 ⟨hlen.symm, fun i hi hi' => ?_⟩
      rw [List.get_ofFn]
      exact hrel ⟨i, hi⟩
    · have hmono : StrictMono fun j => f (Fin.cast hlen j) := fun i j hij => hf hij
      refine List.sublist_iff_exists_fin_orderEmbedding_get_eq.2
        ⟨OrderEmbedding.ofStrictMono _ hmono, fun j => ?_⟩
      rw [List.get_ofFn]
      rfl

end Matching

/-- The signatures can be assigned, in order, to keys for which the checker accepts them. -/
def Assignable (check : Checker) (code : List Operation) : (signatures keys : List Bytes) → Prop :=
  List.SublistForall₂ fun s k => check s k code = true

section Assignable

variable {check : Checker} {code : List Operation} {signatures keys : List Bytes}

theorem assignable_nil : Assignable check code [] keys :=
  .nil

theorem not_assignable_of_lt (h : keys.length < signatures.length) :
    ¬Assignable check code signatures keys :=
  fun hassigned => absurd (sublistForall₂_length_le hassigned) (Nat.not_le.2 h)

/-- A signature that the first key fits is assigned to it, which loses no assignment. -/
theorem assignable_cons_cons {s k : Bytes} :
    Assignable check code (s :: signatures) (k :: keys) ↔
      Assignable check code (if check s k code then signatures else s :: signatures) keys := by
  by_cases hfits : check s k code = true
  · rw [if_pos hfits]
    exact sublistForall₂_cons_cons_of_rel hfits
  · rw [if_neg hfits]
    exact sublistForall₂_cons_cons_of_not_rel hfits

end Assignable

namespace Exec

theorem matchSignatures_cons_cons (check : Checker) (code : List Operation) (s k : Bytes)
    (signatures keys : List Bytes) (m : Machine) :
    let left := if check s k code then signatures else s :: signatures
    matchSignatures check code (s :: signatures) (k :: keys) m =
      (if keys.length < left.length then pure false
        else matchSignatures check code left keys : Exec Bool)
        (m.asked ⟨s, k, code, check s k code⟩) := by
  rw [matchSignatures]
  simp only [ask]
  cases check s k code <;> rfl

/-- The computation answers `answer`, and all that it does is to ask `asked`. -/
def Asks (x : Exec α) (asked : List Query) (answer : α) : Prop :=
  ∀ m, x m = .ok answer { m with queries := m.queries ++ asked }

/-- One pass over the keys finds out whether the signatures can be assigned to keys in order. -/
theorem matchSignatures_asks (check : Checker) (code : List Operation)
    (signatures keys : List Bytes) :
    ∃ answer asked, Asks (matchSignatures check code signatures keys) asked answer ∧
      asked.length ≤ keys.length ∧ (answer = true ↔ Assignable check code signatures keys) := by
  have hall : ∀ keys, ∃ answer asked, Asks (matchSignatures check code [] keys) asked answer ∧
      asked.length ≤ keys.length ∧ (answer = true ↔ Assignable check code [] keys) := by
    intro keys
    refine ⟨true, [], fun m => ?_, Nat.zero_le _, iff_of_true rfl assignable_nil⟩
    simp [matchSignatures, pure, EStateM.pure]
  induction keys generalizing signatures with
  | nil =>
    cases signatures with
    | nil => exact hall []
    | cons s signatures =>
      refine ⟨false, [], fun m => ?_, Nat.zero_le _, ?_⟩
      · simp [matchSignatures, pure, EStateM.pure]
      · exact iff_of_false Bool.false_ne_true (not_assignable_of_lt (Nat.succ_pos _))
  | cons k keys ih =>
    cases signatures with
    | nil => exact hall (k :: keys)
    | cons s signatures =>
      let left := if check s k code then signatures else s :: signatures
      let q : Query := ⟨s, k, code, check s k code⟩
      rw [assignable_cons_cons]
      by_cases hfew : keys.length < left.length
      · refine ⟨false, [q], fun m => ?_, by simp, ?_⟩
        · rw [matchSignatures_cons_cons, if_pos hfew]
          rfl
        · exact iff_of_false Bool.false_ne_true (not_assignable_of_lt hfew)
      · obtain ⟨answer, asked, hrun, hlen, hanswer⟩ := ih left
        refine ⟨answer, q :: asked, fun m => ?_, Nat.succ_le_succ hlen, hanswer⟩
        rw [matchSignatures_cons_cons, if_neg hfew, hrun]
        simp [Machine.asked, q]

/-- Takes the number of keys and the keys, and counts them. -/
def takeKeys (op : Opcode) : Exec (Int × List Item) := do
  let keyCount ← popNumber op
  if keyCount < 0 ∨ limits.keys < keyCount then throw (.pubkeyCount keyCount)
  count keyCount.toNat
  require op (keyCount.toNat + 1)
  let keys := (← get).main.take keyCount.toNat
  modify fun m => { m with main := m.main.drop keyCount.toNat }
  return (keyCount, keys)

/-- Takes the number of signatures, the signatures and the item below them. -/
def takeSignatures (op : Opcode) (keyCount : Int) : Exec (List Item) := do
  let sigCount ← popNumber op
  if sigCount < 0 ∨ keyCount < sigCount then throw (.sigCount sigCount)
  require op (sigCount.toNat + 1)
  let signatures := (← get).main.take sigCount.toNat
  modify fun m => { m with main := m.main.drop (sigCount.toNat + 1) }
  return signatures

theorem checkMultisig_eq (check : Checker) (op : Opcode) :
    checkMultisig check op = (do
      let (keyCount, keys) ← takeKeys op
      let signatures ← takeSignatures op keyCount
      let m ← get
      matchSignatures check (m.scriptCode signatures) signatures keys) := by
  unfold checkMultisig takeKeys takeSignatures
  simp only [ite_bind, throw_bind, bind_assoc, pure_bind]

theorem takeKeys_eq_ok_iff {op : Opcode} {n : Int} {keys : List Item} {m m' : Machine} :
    takeKeys op m = .ok (n, keys) m' ↔ ∃ size rest,
      m.main = size :: (keys ++ rest) ∧ rest ≠ [] ∧ size.number = .ok (keys.length : Int) ∧
      n = keys.length ∧ keys.length ≤ limits.keys ∧
      m.opCount + keys.length ≤ limits.operations ∧
      m' = { m with main := rest, opCount := m.opCount + keys.length } := by
  simp only [takeKeys, bind_eq_ok_iff, check_eq_ok_iff, popNumber_eq_ok_iff, count_eq_ok_iff,
    require_eq_ok_iff, get_eq_ok_iff, modify_eq_ok_iff, pure_eq_ok_iff]
  refine ⟨?_, ?_⟩
  · intro hgiven
    obtain ⟨k, _, ⟨size, rest, hmain, hsize, rfl⟩, hrange, _, _, ⟨hbudget, rfl⟩, _, _,
      ⟨hdepth, rfl⟩, _, _, ⟨rfl, rfl⟩, _, _, rfl, hkeys, rfl⟩ := hgiven
    simp only [Prod.mk.injEq] at hkeys hdepth
    obtain ⟨rfl, rfl⟩ := hkeys
    have hlen : (rest.take n.toNat).length = n.toNat := List.length_take_of_le (by omega)
    have hn : n = (rest.take n.toNat).length := by omega
    refine ⟨size, rest.drop n.toNat, ?_, ?_, hn ▸ hsize, hn, ?_, ?_, ?_⟩
    · rw [List.take_append_drop, hmain]
    · rw [ne_eq, List.drop_eq_nil_iff]
      omega
    · omega
    · rw [hlen]
      exact hbudget
    · rw [hlen]
  · intro hgiven
    obtain ⟨size, rest, hmain, hrest, hsize, rfl, hkeys, hbudget, rfl⟩ := hgiven
    have hpos := List.length_pos_iff.2 hrest
    refine ⟨_, _, ⟨size, _, hmain, hsize, rfl⟩, by omega, (), _, ⟨hbudget, rfl⟩, (), _,
      ⟨?_, rfl⟩, _, _, ⟨rfl, rfl⟩, (), _, rfl, ?_⟩
    · rw [List.length_append]
      omega
    · simp

theorem takeSignatures_eq_ok_iff {op : Opcode} {n : Int} {signatures : List Item}
    {m m' : Machine} :
    takeSignatures op n m = .ok signatures m' ↔ ∃ size dummy rest,
      m.main = size :: (signatures ++ dummy :: rest) ∧
      size.number = .ok (signatures.length : Int) ∧ (signatures.length : Int) ≤ n ∧
      m' = { m with main := rest } := by
  simp only [takeSignatures, bind_eq_ok_iff, check_eq_ok_iff, popNumber_eq_ok_iff,
    require_eq_ok_iff, get_eq_ok_iff, modify_eq_ok_iff, pure_eq_ok_iff]
  refine ⟨?_, ?_⟩
  · intro hgiven
    obtain ⟨k, _, ⟨size, rest, hmain, hsize, rfl⟩, hrange, _, _, ⟨hdepth, rfl⟩, _, _,
      ⟨rfl, rfl⟩, _, _, rfl, htaken, rfl⟩ := hgiven
    change signatures = rest.take k.toNat at htaken
    simp only at hdepth
    subst htaken
    have hlen : (rest.take k.toNat).length = k.toNat := List.length_take_of_le (by omega)
    have hk : k = (rest.take k.toNat).length := by omega
    have hrest : rest = rest.take k.toNat ++ rest[k.toNat] :: rest.drop (k.toNat + 1) := by
      rw [List.getElem_cons_drop, List.take_append_drop]
    refine ⟨size, rest[k.toNat], rest.drop (k.toNat + 1), ?_, hk ▸ hsize, by omega, rfl⟩
    rw [← hrest, hmain]
  · intro hgiven
    obtain ⟨size, dummy, rest, hmain, hsize, hle, rfl⟩ := hgiven
    refine ⟨_, _, ⟨size, _, hmain, hsize, rfl⟩, by omega, (), _, ⟨?_, rfl⟩, _, _, ⟨rfl, rfl⟩,
      (), _, rfl, ?_⟩
    · rw [List.length_append, List.length_cons]
      omega
    · simp

/-- The computation is aborted only for causes of one kind. -/
def FailsOnly (C : Abort → Prop) (x : Exec α) : Prop :=
  ∀ m cause m', x m = .error cause m' → C cause

namespace FailsOnly

variable {C : Abort → Prop}

theorem bind {x : Exec α} {f : α → Exec β} (hx : FailsOnly C x) (hf : ∀ a, FailsOnly C (f a)) :
    FailsOnly C (x >>= f) := by
  intro m cause m' hrun
  simp only [Bind.bind, EStateM.bind] at hrun
  cases hfirst : x m with
  | ok a mid =>
    rw [hfirst] at hrun
    exact hf a mid cause m' hrun
  | error cause' mid =>
    rw [hfirst] at hrun
    cases hrun
    exact hx m cause m' hfirst

theorem of_ok {x : Exec α} (h : ∀ m, ∃ a m', x m = .ok a m') : FailsOnly C x := by
  intro m cause m' hrun
  obtain ⟨a, mid, hok⟩ := h m
  rw [hok] at hrun
  cases hrun

theorem check {c : Prop} [Decidable c] {cause : Abort} {next : Unit → Exec α} (h : c → C cause)
    (hnext : ∀ u, FailsOnly C (next u)) :
    FailsOnly C (if c then (MonadExcept.throw cause : Exec Unit) >>= next else next ()) := by
  by_cases hc : c
  · rw [if_pos hc]
    intro m cause' m' hrun
    cases hrun
    exact h hc
  · rw [if_neg hc]
    exact hnext ()

theorem insist {c : Prop} [Decidable c] {cause : Abort} (h : c → C cause) :
    FailsOnly C (if c then (MonadExcept.throw cause : Exec Unit) else pure ()) := by
  have hcheck : FailsOnly C
      (if c then (MonadExcept.throw cause : Exec Unit) >>= pure else pure ()) :=
    check h fun _ => of_ok fun m => ⟨(), m, rfl⟩
  exact hcheck

end FailsOnly

end Exec

/-- The causes for which a check of several signatures is aborted. -/
inductive MultisigFault (op : Opcode) : Abort → Prop
  | stackUnderflow : MultisigFault op (.stackUnderflow op)
  | numberOverflow : MultisigFault op (.numberOverflow Number.operandSize)
  | pubkeyCount (n : Int) : MultisigFault op (.pubkeyCount n)
  | sigCount (n : Int) : MultisigFault op (.sigCount n)
  | opCount : MultisigFault op .opCount

namespace Exec

theorem popNumber_failsOnly (op : Opcode) : FailsOnly (MultisigFault op) (popNumber op) := by
  refine FailsOnly.bind ?_ fun item => ?_
  · intro m cause m' hrun
    unfold pop at hrun
    cases hmain : m.main with
    | nil =>
      rw [hmain] at hrun
      cases hrun
      exact .stackUnderflow
    | cons item rest =>
      rw [hmain] at hrun
      cases hrun
  · intro m cause m' hrun
    unfold number at hrun
    by_cases hlong : Number.operandSize < item.length
    · rw [Item.number, Number.decode, if_pos hlong] at hrun
      cases hrun
      exact .numberOverflow
    · rw [Item.number, Number.decode, if_neg hlong] at hrun
      cases hrun

theorem require_failsOnly (op : Opcode) (n : Nat) :
    FailsOnly (MultisigFault op) (require op n) :=
  FailsOnly.bind (FailsOnly.of_ok fun m => ⟨m, m, rfl⟩) fun _ =>
    FailsOnly.insist fun _ => .stackUnderflow

theorem checkMultisig_failsOnly (check : Checker) (op : Opcode) :
    FailsOnly (MultisigFault op) (checkMultisig check op) := by
  have hget : FailsOnly (MultisigFault op) (get : Exec Machine) :=
    FailsOnly.of_ok fun m => ⟨m, m, rfl⟩
  have hmodify : ∀ f : Machine → Machine,
      FailsOnly (MultisigFault op) (modify f : Exec PUnit) :=
    fun f => FailsOnly.of_ok fun m => ⟨(), f m, rfl⟩
  have hcount : ∀ n, FailsOnly (MultisigFault op) (count n) := fun n =>
    (hmodify _).bind fun _ => hget.bind fun _ => FailsOnly.insist fun _ => .opCount
  have hmatch : ∀ code signatures keys,
      FailsOnly (MultisigFault op) (matchSignatures check code signatures keys) := by
    intro code signatures keys
    apply FailsOnly.of_ok
    intro m
    obtain ⟨answer, asked, hrun, -⟩ := matchSignatures_asks check code signatures keys
    exact ⟨answer, _, hrun m⟩
  unfold checkMultisig
  refine (popNumber_failsOnly op).bind fun keyCount => ?_
  refine .check (fun _ => .pubkeyCount keyCount) fun _ => ?_
  refine (hcount _).bind fun _ => (require_failsOnly op _).bind fun _ => hget.bind fun _ => ?_
  refine (hmodify _).bind fun _ => (popNumber_failsOnly op).bind fun sigCount => ?_
  refine .check (fun _ => .sigCount sigCount) fun _ => (require_failsOnly op _).bind fun _ => ?_
  exact hget.bind fun _ => (hmodify _).bind fun _ => hget.bind fun _ => hmatch _ _ _

end Exec

/-- The operations of a script code without those that push one of the signatures. -/
def withoutPushes (signatures : List Bytes) (code : List Operation) : List Operation :=
  code.filter fun o => ¬∃ s ∈ signatures, s ≠ [] ∧ o.data = some s

theorem Machine.scriptCode_reverse (m : Machine) (signatures : List Bytes) :
    m.scriptCode signatures.reverse = withoutPushes signatures m.code := by
  unfold scriptCode withoutPushes
  congr 1
  funext o
  rw [Bool.eq_iff_iff]
  simp

/-- The main stack holds, from the bottom, `base`, one more item, the signatures and their number,
the keys and their number; and so many keys are within the limits. -/
structure Machine.OffersMultisig (m : Machine) (base : Stack) (signatures keys : List Item) :
    Prop where
  main : ∃ dummy sigCount keyCount,
    m.main = keyCount :: (keys.reverse ++ sigCount :: (signatures.reverse ++ dummy :: base)) ∧
    sigCount.number = .ok (signatures.length : Int) ∧
    keyCount.number = .ok (keys.length : Int)
  sigCount_le : signatures.length ≤ keys.length
  keyCount_le : keys.length ≤ limits.keys
  opCount_le : m.opCount + keys.length ≤ limits.operations

namespace Exec

/-- Signatures and keys that are taken one after the other were offered. -/
theorem offersMultisig_of_taken {op : Opcode} {n : Int} {signatures keys : List Item}
    {m mid m' : Machine} (hkeys : takeKeys op m = .ok (n, keys) mid)
    (hsignatures : takeSignatures op n mid = .ok signatures m') :
    ∃ base, m.OffersMultisig base signatures.reverse keys.reverse ∧
      m' = { m with main := base, opCount := m.opCount + keys.length } := by
  obtain ⟨keyCount, below, hmain, -, hkeyCount, rfl, hlimit, hbudget, rfl⟩ :=
    takeKeys_eq_ok_iff.1 hkeys
  obtain ⟨sigCount, dummy, base, hbelow, hsigCount, hle, rfl⟩ :=
    takeSignatures_eq_ok_iff.1 hsignatures
  change below = _ at hbelow
  refine ⟨base, ⟨⟨dummy, sigCount, keyCount, ?_, by simpa using hsigCount, by simpa using hkeyCount⟩,
    by simpa using hle, by simpa using hlimit, by simpa using hbudget⟩, rfl⟩
  rw [hmain, hbelow, List.reverse_reverse, List.reverse_reverse]

/-- A check of several signatures succeeds exactly if signatures and keys are offered, and then does
nothing but to take them and to ask about them. -/
theorem checkMultisig_eq_ok_iff {check : Checker} {op : Opcode} {m m' : Machine} {answer : Bool} :
    checkMultisig check op m = .ok answer m' ↔ ∃ base signatures keys asked,
      m.OffersMultisig base signatures keys ∧
      Asks (matchSignatures check (m.scriptCode signatures.reverse) signatures.reverse keys.reverse)
        asked answer ∧
      m' = { m with
        main := base, opCount := m.opCount + keys.length, queries := m.queries ++ asked } := by
  rw [checkMultisig_eq]
  simp only [bind_eq_ok_iff, get_eq_ok_iff]
  refine ⟨?_, ?_⟩
  · intro hgiven
    obtain ⟨⟨n, keys⟩, _, hkeys, signatures, _, hsignatures, taken, _, ⟨rfl, rfl⟩, hrun⟩ := hgiven
    obtain ⟨base, hoffered, rfl⟩ := offersMultisig_of_taken hkeys hsignatures
    obtain ⟨answer', asked, hasks, -⟩ := matchSignatures_asks check (m.scriptCode signatures)
      signatures keys
    have hsame := hrun.symm.trans (hasks _)
    simp only [EStateM.Result.ok.injEq] at hsame
    obtain ⟨rfl, rfl⟩ := hsame
    refine ⟨base, signatures.reverse, keys.reverse, asked, hoffered, ?_, ?_⟩
    · rw [List.reverse_reverse, List.reverse_reverse]
      exact hasks
    · rw [List.length_reverse]
  · intro hgiven
    obtain ⟨base, signatures, keys, asked, hoffered, hasks, rfl⟩ := hgiven
    obtain ⟨dummy, sigCount, keyCount, hmain, hsigCount, hkeyCount⟩ := hoffered.main
    let below := sigCount :: (signatures.reverse ++ dummy :: base)
    let offered : Machine := { m with main := below, opCount := m.opCount + keys.length }
    let taken : Machine := { m with main := base, opCount := m.opCount + keys.length }
    have hkeys : takeKeys op m = .ok ((keys.length : Int), keys.reverse) offered := by
      refine takeKeys_eq_ok_iff.2 ⟨keyCount, below, hmain, List.cons_ne_nil _ _, ?_⟩
      simp only [List.length_reverse]
      exact ⟨hkeyCount, trivial, hoffered.keyCount_le, hoffered.opCount_le, rfl⟩
    have hsignatures : takeSignatures op keys.length offered = .ok signatures.reverse taken := by
      refine takeSignatures_eq_ok_iff.2 ⟨sigCount, dummy, base, rfl, ?_⟩
      simp only [List.length_reverse]
      exact ⟨hsigCount, by exact_mod_cast hoffered.sigCount_le, rfl⟩
    exact ⟨_, _, hkeys, _, _, hsignatures, _, _, ⟨rfl, rfl⟩, hasks taken⟩

theorem checkMultisig_eq_ok (check : Checker) (op : Opcode) {m : Machine} {base : Stack}
    {signatures keys : List Item} (h : m.OffersMultisig base signatures keys) :
    ∃ answer queries,
      checkMultisig check op m = .ok answer { m with
        main := base, opCount := m.opCount + keys.length, queries := m.queries ++ queries } ∧
      queries.length ≤ keys.length ∧
      (answer = true ↔
        Assignable check (withoutPushes signatures m.code) signatures keys) := by
  obtain ⟨answer, queries, hasks, hlen, hanswer⟩ := matchSignatures_asks check
    (m.scriptCode signatures.reverse) signatures.reverse keys.reverse
  rw [m.scriptCode_reverse signatures] at hanswer
  have hreverse := hanswer.trans sublistForall₂_reverse_iff
  refine ⟨answer, queries, ?_, by simpa using hlen, hreverse⟩
  exact checkMultisig_eq_ok_iff.2 ⟨base, signatures, keys, queries, h, hasks, rfl⟩

theorem offersMultisig_of_ok {check : Checker} {op : Opcode} {m m' : Machine} {answer : Bool}
    (h : checkMultisig check op m = .ok answer m') :
    ∃ base signatures keys, m.OffersMultisig base signatures keys := by
  obtain ⟨base, signatures, keys, -, hoffered, -⟩ := checkMultisig_eq_ok_iff.1 h
  exact ⟨base, signatures, keys, hoffered⟩

end Exec

/-- A check of several signatures at a place of a script: if the stack offers signatures and keys,
all of it is taken and the answer is whether the signatures can be assigned, in order, to keys for
which the checker accepts them; otherwise the check is aborted. -/
theorem checkMultisig_decides {check : Checker} {ops rest : List Operation}
    {done : List (Operation × Bool)} {here m : Machine} (hhere : Course check ops done rest here)
    (hcode : m.code = here.code) (op : Opcode) :
    (∀ base signatures keys, m.OffersMultisig base signatures keys →
      ∃ answer queries,
        Exec.checkMultisig check op m = .ok answer { m with
          main := base, opCount := m.opCount + keys.length, queries := m.queries ++ queries } ∧
        queries.length ≤ keys.length ∧
        (answer = true ↔ ∃ f : Fin signatures.length → Fin keys.length, StrictMono f ∧
          ∀ j, check (signatures.get j) (keys.get (f j))
            (withoutPushes signatures (sinceSeparator done rest)) = true)) ∧
    ((¬∃ base signatures keys, m.OffersMultisig base signatures keys) →
      ∃ cause m', Exec.checkMultisig check op m = .error cause m' ∧ MultisigFault op cause) := by
  refine ⟨?_, ?_⟩
  · intro base signatures keys hoffered
    obtain ⟨answer, queries, hrun, hasked, hanswer⟩ :=
      Exec.checkMultisig_eq_ok check op hoffered
    rw [hcode, hhere.code_eq] at hanswer
    exact ⟨answer, queries, hrun, hasked, hanswer.trans sublistForall₂_iff_exists_strictMono⟩
  · intro hnone
    cases hrun : Exec.checkMultisig check op m with
    | ok answer m' => exact absurd (Exec.offersMultisig_of_ok hrun) hnone
    | error cause m' =>
      exact ⟨cause, m', rfl, Exec.checkMultisig_failsOnly check op m cause m' hrun⟩

/-- A machine behind a separator, with two signatures and three keys on its stack. -/
def Machine.twoOfThree (first second : Item) : Machine where
  main := [[3], [9], [8], [7], [2], second, first, []]
  alt := []
  branches := []
  opCount := 1
  code := [.push [7], .bare .opCheckMultisig]
  token := .never
  queries := []

/-- Signatures that equal keys count if they are in the order of the keys, and only then. The push
of one of them is not part of what they commit to. -/
theorem checkMultisig_two_of_three :
    let check : Checker := fun s k code => s = k ∧ code = [.bare .opCheckMultisig]
    (∃ m, Exec.checkMultisig check .opCheckMultisig (.twoOfThree [7] [9]) = .ok true m ∧
      m.main = []) ∧
    (∃ m, Exec.checkMultisig check .opCheckMultisig (.twoOfThree [9] [7]) = .ok false m ∧
      m.main = []) ∧
    let lacking : Machine := { Machine.twoOfThree [7] [9] with main := [[3]] }
    ∃ cause m, Exec.checkMultisig check .opCheckMultisig lacking = .error cause m := by
  intro check
  let ops : List Operation := [separator, .push [7], .bare .opCheckMultisig]
  have hstart : Course check ops [] ops _ := .start (Machine.empty .never)
  have hhere := hstart.step rfl
  have hoffered : ∀ first second, (Machine.twoOfThree first second).OffersMultisig []
      [first, second] [[7], [8], [9]] := fun first second =>
    ⟨⟨[], [2], [3], rfl, rfl, rfl⟩, by simp, by simp [limits],
      by simp [limits, Machine.twoOfThree]⟩
  refine ⟨?_, ?_, ?_⟩
  · obtain ⟨answer, queries, hrun, -, hanswer⟩ :=
      (checkMultisig_decides (m := .twoOfThree [7] [9]) hhere rfl .opCheckMultisig).1 _ _ _
        (hoffered _ _)
    have htrue : answer = true := hanswer.2 ⟨![0, 2], by decide, by decide⟩
    exact ⟨_, htrue ▸ hrun, rfl⟩
  · obtain ⟨answer, queries, hrun, -, hanswer⟩ :=
      (checkMultisig_decides (m := .twoOfThree [9] [7]) hhere rfl .opCheckMultisig).1 _ _ _
        (hoffered _ _)
    have hfalse : answer = false := by
      rw [← Bool.not_eq_true, hanswer]
      decide
    exact ⟨_, hfalse ▸ hrun, rfl⟩
  · intro lacking
    have hnone : ¬∃ base signatures keys, lacking.OffersMultisig base signatures keys := by
      intro hgiven
      obtain ⟨base, signatures, keys, hoffered⟩ := hgiven
      obtain ⟨dummy, sigCount, keyCount, hmain, -⟩ := hoffered.main
      have hlen := congrArg List.length hmain
      simp [lacking] at hlen
    obtain ⟨cause, m, hrun, -⟩ :=
      (checkMultisig_decides (m := lacking) hhere rfl .opCheckMultisig).2 hnone
    exact ⟨cause, m, hrun⟩

end ChainRules.Script
