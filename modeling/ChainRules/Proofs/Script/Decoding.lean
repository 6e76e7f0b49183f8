import ChainRules.Proofs.Script.Encoding

/-!
# Reading scripts

A script is read as a list of operations exactly if it is the written form of the list. Where no
operation can be read any more, what stands before is a script, and nothing longer is: this place is
what the failure reports. The push of an item takes the shortest of the forms that hold it.
-/

namespace ChainRules.Script

/-- Opcodes fall into five classes by the data that follows them. -/
theorem Opcode.dataForm_cases (op : Opcode) :
    op ≤ .opPushBytes75 ∧ op.dataForm = .fixed op.toNat ∨
      op = .opPushData1 ∧ op.dataForm = .counted 1 ∨
      op = .opPushData2 ∧ op.dataForm = .counted 2 ∨
      op = .opPushData4 ∧ op.dataForm = .counted 4 ∨
      .opPushData4 < op ∧ op.dataForm = .bare := by
  revert op
  decide +kernel

/-- Some bytes are left, but no operation is written in front of them. -/
def Stuck (bs : Bytes) : Prop :=
  bs ≠ [] ∧ ∀ (o : Operation) (rest : Bytes), o.WellFormed → bs ≠ o.encode ++ rest

namespace Operation

/-- Which data an operation has to carry, by the number of its opcode. -/
theorem wellFormed_iff (o : Operation) :
    o.WellFormed ↔ (o.data.isSome = true ↔ o.opcode ≤ .opPushData4) ∧ ∀ data, o.data = some data →
      (o.opcode ≤ .opPushBytes75 → data.length = o.opcode.toNat) ∧
      (o.opcode = .opPushData1 → data.length < 2 ^ 8) ∧
      (o.opcode = .opPushData2 → data.length < 2 ^ 16) ∧
      (o.opcode = .opPushData4 → data.length < 2 ^ 32) := by
  obtain ⟨op, data⟩ := o
  unfold WellFormed
  dsimp only
  rcases op.dataForm_cases with ⟨hop, hform⟩ | ⟨rfl, hform⟩ | ⟨rfl, hform⟩ | ⟨rfl, hform⟩ |
    ⟨hop, hform⟩
  · have hle : op ≤ .opPushData4 := UInt8.le_trans hop (by decide)
    have hne : ∀ marker : Opcode, .opPushBytes75 < marker → op ≠ marker := by
      rintro marker hmarker rfl
      exact absurd hop (UInt8.not_le.2 hmarker)
    have hne1 := hne .opPushData1 (by decide)
    have hne2 := hne .opPushData2 (by decide)
    have hne4 := hne .opPushData4 (by decide)
    cases data <;> simp [hform, hop, hle, hne1, hne2, hne4]
  · cases data <;> simp [hform, Opcode.opPushBytes75, Opcode.opPushData1, Opcode.opPushData2,
      Opcode.opPushData4]
  · cases data <;> simp [hform, Opcode.opPushBytes75, Opcode.opPushData1, Opcode.opPushData2,
      Opcode.opPushData4]
  · cases data <;> simp [hform, Opcode.opPushBytes75, Opcode.opPushData1, Opcode.opPushData2,
      Opcode.opPushData4]
  · have hgt : ¬op ≤ .opPushData4 := UInt8.not_le.2 hop
    cases data <;> simp [hform, hgt]

/-- An operation is split from what follows it exactly if its written form stands there. -/
theorem splitData?_eq_some_iff {op : Opcode} {bs rest : Bytes} {data : Option Bytes} :
    splitData? op bs = some (data, rest) ↔
      (⟨op, data⟩ : Operation).WellFormed ∧ op :: bs = (⟨op, data⟩ : Operation).encode ++ rest := by
  refine ⟨fun h => ?_, fun h => ?_⟩
  · unfold splitData? at h
    unfold WellFormed
    dsimp only
    cases hform : op.dataForm with
    | bare =>
      rw [hform] at h
      cases h
      exact ⟨rfl, rfl⟩
    | fixed size =>
      simp only [hform, Option.map_eq_some_iff, Prod.exists, Prod.mk.injEq] at h
      obtain ⟨front, rest, hsplit, rfl, rfl⟩ := h
      obtain ⟨rfl, hlen⟩ := Bytes.split?_eq_some_iff.1 hsplit
      refine ⟨⟨front, rfl, hlen⟩, ?_⟩
      simp [encode, lengthField, hform]
    | counted width =>
      simp only [hform, bind, Option.bind_eq_some_iff, Prod.exists, pure, Option.some.injEq,
        Prod.mk.injEq] at h
      obtain ⟨field, behind, hfield, front, rest, hsplit, rfl, rfl⟩ := h
      obtain ⟨rfl, hwidth⟩ := Bytes.split?_eq_some_iff.1 hfield
      obtain ⟨rfl, hlen⟩ := Bytes.split?_eq_some_iff.1 hsplit
      have hfits := Bytes.toNatLe_lt field
      have hwritten := Bytes.ofNatLe_toNatLe field
      rw [hwidth] at hfits hwritten
      refine ⟨⟨front, rfl, hlen ▸ hfits⟩, ?_⟩
      simp [encode, lengthField, hform, hlen, hwritten]
  · obtain ⟨hform, heq⟩ := h
    obtain ⟨tail, hencode, hsplit⟩ := splitData?_encode hform rest
    rw [hencode, List.cons_append, List.cons.injEq] at heq
    rw [heq.2]
    exact hsplit

theorem encode_ne_nil (o : Operation) : o.encode ≠ [] := by
  unfold encode
  cases o.data <;> simp

/-- The written form of an operation shows where it ends. -/
theorem encode_append_inj {o o' : Operation} {a b : Bytes} (h : o.WellFormed) (h' : o'.WellFormed)
    (heq : o.encode ++ a = o'.encode ++ b) : o = o' ∧ a = b := by
  obtain ⟨tail, hencode, hsplit⟩ := splitData?_encode h a
  obtain ⟨tail', hencode', hsplit'⟩ := splitData?_encode h' b
  rw [hencode, hencode', List.cons_append, List.cons_append, List.cons.injEq] at heq
  obtain ⟨hop, htail⟩ := heq
  rw [hop, htail, hsplit'] at hsplit
  simp only [Option.some.injEq, Prod.mk.injEq] at hsplit
  obtain ⟨hdata, hrest⟩ := hsplit
  cases o; cases o'
  simp_all

theorem stuck_of_splitData? {op : Opcode} {bs : Bytes} (h : splitData? op bs = none) :
    Stuck (op :: bs) := by
  refine ⟨List.cons_ne_nil op bs, fun o rest hform heq => ?_⟩
  obtain ⟨tail, hencode, hsplit⟩ := splitData?_encode hform rest
  rw [hencode, List.cons_append, List.cons.injEq] at heq
  obtain ⟨rfl, rfl⟩ := heq
  rw [h] at hsplit
  cases hsplit

end Operation

theorem encode_cons (o : Operation) (ops : List Operation) :
    encode (o :: ops) = o.encode ++ encode ops :=
  rfl

/-- Reading goes over the written form of some operations, and from there it either is at the end or
gets stuck. -/
theorem parseFrom_cases {fuel : Nat} (offset : Nat) {bs : Bytes} (hfuel : bs.length ≤ fuel) :
    ∃ ops rest, (∀ o ∈ ops, o.WellFormed) ∧ bs = encode ops ++ rest ∧
      (rest = [] ∧ parseFrom fuel offset bs = .ok ops ∨
        Stuck rest ∧
          parseFrom fuel offset bs = .error (.truncatedPush (offset + (encode ops).length))) := by
  induction fuel generalizing offset bs with
  | zero =>
    rw [Nat.le_zero, List.length_eq_zero_iff] at hfuel
    subst hfuel
    exact ⟨[], [], by simp, rfl, .inl ⟨rfl, rfl⟩⟩
  | succ fuel ih =>
    cases bs with
    | nil => exact ⟨[], [], by simp, rfl, .inl ⟨rfl, rfl⟩⟩
    | cons op bs =>
      rw [parseFrom]
      cases hsplit : Operation.splitData? op bs with
      | none =>
        exact ⟨[], op :: bs, by simp, rfl, .inr ⟨Operation.stuck_of_splitData? hsplit, rfl⟩⟩
      | some found =>
        obtain ⟨data, behind⟩ := found
        obtain ⟨hform, heq⟩ := Operation.splitData?_eq_some_iff.1 hsplit
        have hpos := List.length_pos_iff.2 (Operation.encode_ne_nil ⟨op, data⟩)
        have hbehind : behind.length ≤ fuel := by
          have hlen := congrArg List.length heq
          rw [List.length_cons, List.length_append] at hlen
          rw [List.length_cons] at hfuel
          omega
        obtain ⟨ops, rest, hforms, rfl, hresult⟩ :=
          ih (offset + (Operation.encode ⟨op, data⟩).length) hbehind
        refine ⟨⟨op, data⟩ :: ops, rest, List.forall_mem_cons.2 ⟨hform, hforms⟩, ?_, ?_⟩
        · rw [encode_cons, List.append_assoc]
          exact heq
        · rcases hresult with ⟨hrest, hparse⟩ | ⟨hstuck, hparse⟩
          · refine .inl ⟨hrest, ?_⟩
            simp [hparse]
          · refine .inr ⟨hstuck, ?_⟩
            simp [hparse, encode_cons, Nat.add_assoc]

theorem parse_cases (s : Bytes) :
    ∃ ops rest, (∀ o ∈ ops, o.WellFormed) ∧ s = encode ops ++ rest ∧
      (rest = [] ∧ parse s = .ok ops ∨
        Stuck rest ∧ parse s = .error (.truncatedPush (encode ops).length)) := by
  have hcases := parseFrom_cases 0 (Nat.le_refl s.length)
  simpa only [parse, Nat.zero_add] using hcases

/-- A script is read as a list of operations exactly if it is the list's written form. -/
theorem parse_eq_ok_iff {s : Bytes} {ops : List Operation} :
    parse s = .ok ops ↔ (∀ o ∈ ops, o.WellFormed) ∧ encode ops = s := by
  refine ⟨fun h => ?_, fun h => ?_⟩
  · obtain ⟨ops', rest, hforms, hs, hresult⟩ := parse_cases s
    rcases hresult with ⟨rfl, hparse⟩ | ⟨-, hparse⟩
    · rw [h] at hparse
      cases hparse
      exact ⟨hforms, by simp [hs]⟩
    · rw [h] at hparse
      cases hparse
  · obtain ⟨hforms, rfl⟩ := h
    exact parse_encode hforms

/-- Where reading gets stuck behind some operations, no longer part of the script is the written
form of any. -/
theorem length_encode_le_of_stuck {ops ops' : List Operation} {rest rest' : Bytes}
    (hforms : ∀ o ∈ ops, o.WellFormed) (hforms' : ∀ o ∈ ops', o.WellFormed) (hstuck : Stuck rest)
    (heq : encode ops' ++ rest' = encode ops ++ rest) :
    (encode ops').length ≤ (encode ops).length := by
  induction ops generalizing ops' with
  | nil =>
    cases ops' with
    | nil => exact Nat.le_refl _
    | cons o' ops' =>
      rw [encode_cons, List.append_assoc] at heq
      exact absurd heq.symm (hstuck.2 o' _ (hforms' o' List.mem_cons_self))
  | cons o ops ih =>
    cases ops' with
    | nil => exact Nat.zero_le _
    | cons o' ops' =>
      rw [List.forall_mem_cons] at hforms hforms'
      rw [encode_cons, encode_cons, List.append_assoc, List.append_assoc] at heq
      obtain ⟨rfl, htail⟩ := Operation.encode_append_inj hforms'.1 hforms.1 heq
      have hle := ih hforms.2 hforms'.2 htail
      rw [encode_cons, encode_cons, List.length_append, List.length_append]
      omega

/-- The lengths of those parts at the front of a script that are scripts by themselves. -/
def readableLengths (s : Bytes) : Set Nat :=
  { n | n ≤ s.length ∧ ∃ ops, parse (s.take n) = .ok ops }

/-- A script that cannot be read fails behind the longest part of it that can. -/
theorem isGreatest_of_parse_eq_error {s : Bytes} {cause : Abort} (h : parse s = .error cause) :
    ∃ k, cause = .truncatedPush k ∧ IsGreatest (readableLengths s) k := by
  obtain ⟨ops, rest, hforms, hs, hresult⟩ := parse_cases s
  rcases hresult with ⟨-, hparse⟩ | ⟨hstuck, hparse⟩
  · rw [h] at hparse
    cases hparse
  · rw [h] at hparse
    cases hparse
    refine ⟨_, rfl, ⟨?_, ops, ?_⟩, ?_⟩
    · rw [hs, List.length_append]
      exact Nat.le_add_right _ _
    · rw [hs, List.take_left]
      exact parse_encode hforms
    · rintro n ⟨hn, ops', hops'⟩
      obtain ⟨hforms', hencode⟩ := parse_eq_ok_iff.1 hops'
      have heq : encode ops' ++ s.drop n = encode ops ++ rest := by
        rw [hencode, List.take_append_drop, hs]
      have hle := length_encode_le_of_stuck hforms hforms' hstuck heq
      rw [hencode, List.length_take_of_le hn] at hle
      exact hle

/-! ## The shortest push -/

namespace Operation

/-- How many bytes stand between an opcode and its data. -/
def fieldWidth (op : Opcode) : Nat :=
  match op.dataForm with
  | .counted width => width
  | _ => 0

theorem length_encode_some (op : Opcode) (data : Bytes) :
    (⟨op, some data⟩ : Operation).encode.length = 1 + fieldWidth op + data.length := by
  have hfield : (lengthField op data.length).length = fieldWidth op := by
    unfold lengthField fieldWidth
    cases op.dataForm <;> simp
  simp only [encode, List.length_append, List.length_cons, hfield]
  omega

/-- The width of the length in front of an item bounds the item. -/
theorem fieldWidth_cases {op : Opcode} {data : Bytes}
    (h : (⟨op, some data⟩ : Operation).WellFormed) :
    fieldWidth op = 0 ∧ data.length ≤ 0x4b ∨ fieldWidth op = 1 ∧ data.length < 2 ^ 8 ∨
      fieldWidth op = 2 ∧ data.length < 2 ^ 16 ∨ fieldWidth op = 4 ∧ data.length < 2 ^ 32 := by
  obtain ⟨hsome, hlen⟩ := (wellFormed_iff _).1 h
  obtain ⟨hfixed, hbyte, hword, hlong⟩ := hlen data rfl
  unfold fieldWidth
  rcases op.dataForm_cases with ⟨hop, hform⟩ | ⟨hop, hform⟩ | ⟨hop, hform⟩ | ⟨hop, hform⟩ |
    ⟨hop, -⟩
  · refine .inl ⟨by rw [hform], ?_⟩
    rw [hfixed hop]
    exact UInt8.le_iff_toNat_le.1 hop
  · exact .inr (.inl ⟨by rw [hform], hbyte hop⟩)
  · exact .inr (.inr (.inl ⟨by rw [hform], hword hop⟩))
  · exact .inr (.inr (.inr ⟨by rw [hform], hlong hop⟩))
  · exact absurd (hsome.1 rfl) (UInt8.not_le.2 hop)

theorem fieldWidth_push (data : Bytes) :
    fieldWidth (push data).opcode = if data.length ≤ 0x4b then 0
      else if data.length ≤ 0xff then 1 else if data.length ≤ 0xffff then 2 else 4 := by
  unfold push
  dsimp only
  by_cases hshort : data.length ≤ 0x4b
  · rw [if_pos hshort, if_pos hshort, fieldWidth, dataForm_ofNat hshort]
  · rw [if_neg hshort, if_neg hshort]
    split_ifs <;> rfl

/-- No operation carries an item in fewer bytes than its push. -/
theorem length_encode_push_le {data : Bytes} {o : Operation} (h : o.WellFormed)
    (hdata : o.data = some data) : (push data).encode.length ≤ o.encode.length := by
  obtain ⟨op, _⟩ := o
  cases hdata
  have hwidth := fieldWidth_push data
  have hpush := length_encode_some (push data).opcode data
  have hother := length_encode_some op data
  change (push data).encode.length = _ at hpush
  rcases fieldWidth_cases h with ⟨hop, hlen⟩ | ⟨hop, hlen⟩ | ⟨hop, hlen⟩ | ⟨hop, hlen⟩
  all_goals split_ifs at hwidth
  all_goals omega

end Operation

/-- Reading and writing scripts are inverse to each other: a script is read as the operations of
which it is the written form; one that is none fails behind its longest part that is; and an item is
pushed in the fewest bytes. -/
theorem parse_inverse_encode :
    (∀ o : Operation, o.WellFormed ↔
      (o.data.isSome = true ↔ o.opcode ≤ .opPushData4) ∧ ∀ data, o.data = some data →
        (o.opcode ≤ .opPushBytes75 → data.length = o.opcode.toNat) ∧
        (o.opcode = .opPushData1 → data.length < 2 ^ 8) ∧
        (o.opcode = .opPushData2 → data.length < 2 ^ 16) ∧
        (o.opcode = .opPushData4 → data.length < 2 ^ 32)) ∧
    (∀ (s : Bytes) (ops : List Operation),
      parse s = .ok ops ↔ (∀ o ∈ ops, o.WellFormed) ∧ encode ops = s) ∧
    (∀ (s : Bytes) (cause : Abort), parse s = .error cause →
      ∃ k, cause = .truncatedPush k ∧ IsGreatest (readableLengths s) k) ∧
    ∀ data : Bytes, data.length < 2 ^ 32 →
      (Operation.push data).WellFormed ∧ (Operation.push data).data = some data ∧
      ∀ o : Operation, o.WellFormed → o.data = some data →
        (Operation.push data).encode.length ≤ o.encode.length :=
  ⟨Operation.wellFormed_iff, fun _ _ => parse_eq_ok_iff, fun _ _ => isGreatest_of_parse_eq_error,
    fun _ hlen => ⟨Operation.wellFormed_push hlen, rfl, fun _ => Operation.length_encode_push_le⟩⟩

/-- A script that ends inside the length of its second push can be read up to that push. -/
theorem parse_inverse_encode_cut :
    let s : Bytes := [1, 7, 0x4d, 1]
    let long : Operation := ⟨0x4e, some [7]⟩
    parse s = .error (.truncatedPush 2) ∧ IsGreatest (readableLengths s) 2 ∧ long.WellFormed ∧
      (Operation.push [7]).encode.length ≤ long.encode.length := by
  intro s long
  obtain ⟨hwellFormed, -, hfails, hpush⟩ := parse_inverse_encode
  have hcut : parse s = .error (.truncatedPush 2) := rfl
  have hlong : long.WellFormed := (hwellFormed long).2 (by decide)
  obtain ⟨k, hk, hgreatest⟩ := hfails s _ hcut
  cases hk
  exact ⟨hcut, hgreatest, hlong, (hpush [7] (by decide)).2.2 long hlong rfl⟩

end ChainRules.Script
