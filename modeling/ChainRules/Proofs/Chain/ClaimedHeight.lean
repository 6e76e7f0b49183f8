import ChainRules.Chain.Validation
import ChainRules.Proofs.Script.Decoding
import ChainRules.Proofs.Script.Numbers

/-!
# The height that a coinbase claims

A coinbase claims the number that its script pushes first, but only a script that can be read to its
end pushes anything. So it depends on the bytes behind the first push, too, whether a height too far
above the tip is noticed: if a push behind it is cut short, none is.
-/

namespace ChainRules

namespace Script

/-- The operation pushes a number of at most eight bytes, as data or by its opcode alone. -/
def Operation.Pushes (o : Operation) (n : Int) : Prop :=
  (∃ data, o.data = some data ∧ data.length ≤ 8 ∧ n = Number.value data) ∨
    (o.opcode = .op1Negate ∧ n = -1) ∨
    (.op1 ≤ o.opcode ∧ o.opcode ≤ .op16 ∧ n = o.opcode.toNat - Opcode.op1.toNat + 1)

theorem Operation.WellFormed.data_of_lt {o : Operation} (h : o.WellFormed)
    (hop : .opPushData4 < o.opcode) : o.data = none := by
  have hsome := ((Operation.wellFormed_iff o).1 h).1
  rw [← Option.not_isSome_iff_eq_none, hsome]
  exact UInt8.not_le.2 hop

theorem Operation.Pushes.pushedNumber? {o : Operation} {n : Int} (h : o.Pushes n)
    (hform : o.WellFormed) : o.pushedNumber? = some n := by
  unfold Operation.pushedNumber?
  rcases h with ⟨data, hdata, hlen, rfl⟩ | ⟨hop, rfl⟩ | ⟨hfrom, hto, rfl⟩
  · simp [hdata, Number.decode, Nat.not_lt.2 hlen, Except.toOption]
  · have hnone := hform.data_of_lt (by rw [hop]; decide)
    rw [hnone, hop]
    rfl
  · have hlow : .opPushData4 < o.opcode := UInt8.lt_of_lt_of_le (by decide) hfrom
    have hne : o.opcode ≠ .op1Negate := by
      rintro heq
      rw [heq] at hfrom
      exact absurd hfrom (by decide)
    rw [hform.data_of_lt hlow]
    simp [Opcode.smallInt?, hne, hfrom, hto]

/-- Eight bytes leave 63 bits for the magnitude. -/
theorem Operation.Pushes.lt_two_pow {o : Operation} {n : Int} (h : o.Pushes n) : n < 2 ^ 63 := by
  rcases h with ⟨data, -, hlen, rfl⟩ | ⟨-, rfl⟩ | ⟨-, -, rfl⟩
  · have hmagnitude := Number.natAbs_value_lt data
    have hpow : 2 ^ (8 * data.length - 1) ≤ 2 ^ 63 :=
      Nat.pow_le_pow_right (by decide) (by omega)
    omega
  · decide
  · have hbyte := o.opcode.toNat_lt
    omega

/-- Behind an operation a script goes on as a script. -/
theorem parse_encode_append_iff {o : Operation} (h : o.WellFormed) {rest : Bytes}
    {ops : List Operation} :
    parse (o.encode ++ rest) = .ok ops ↔ ∃ behind, parse rest = .ok behind ∧ ops = o :: behind := by
  simp only [parse_eq_ok_iff]
  constructor
  · rintro ⟨hforms, hencode⟩
    cases ops with
    | nil =>
      have hnil : o.encode = [] := (List.append_eq_nil_iff.1 hencode.symm).1
      exact absurd hnil o.encode_ne_nil
    | cons o' behind =>
      obtain ⟨hform, hforms⟩ := List.forall_mem_cons.1 hforms
      rw [encode_cons] at hencode
      obtain ⟨rfl, hbehind⟩ := Operation.encode_append_inj hform h hencode
      exact ⟨behind, ⟨hforms, hbehind⟩, rfl⟩
  · rintro ⟨behind, ⟨hforms, rfl⟩, rfl⟩
    exact ⟨List.forall_mem_cons.2 ⟨h, hforms⟩, encode_cons o behind⟩

/-- A byte string consists of whole operations. -/
def Whole (script : Bytes) : Prop :=
  ∃ ops : List Operation, (∀ o ∈ ops, o.WellFormed) ∧ encode ops = script

theorem whole_iff {script : Bytes} : Whole script ↔ ∃ ops, parse script = .ok ops := by
  simp only [Whole, parse_eq_ok_iff]

end Script

open Script

/-- A block that is not the first one, with a coinbase whose script pushes `n` and goes on with
`rest`. -/
structure Block.Claims (b : Block) (n : Int) (rest : Bytes) : Prop where
  follows : b.header.isGenesis = false
  pushes : ∃ coinbase input o, b.coinbase? = some coinbase ∧ coinbase.inputs.head? = some input ∧
    input.script = Operation.encode o ++ rest ∧ o.WellFormed ∧ o.Pushes n

section Claims

variable {b : Block} {n : Int} {rest : Bytes}

/-- The number that is pushed first is the claim if whole operations stand behind it. -/
theorem Block.Claims.claimedHeight? (h : b.Claims n rest) (hwhole : Whole rest) :
    b.coinbase?.bind Transaction.claimedHeight? = some n := by
  obtain ⟨coinbase, input, o, hcoinbase, hinput, hscript, hform, hpushes⟩ := h.pushes
  obtain ⟨behind, hbehind⟩ := whole_iff.1 hwhole
  have hparse := (parse_encode_append_iff hform).2 ⟨behind, hbehind, rfl⟩
  rw [← hscript] at hparse
  rw [hcoinbase, Option.bind_some, Transaction.claimedHeight?, hinput]
  simp [hparse, Except.toOption, hpushes.pushedNumber? hform]

/-- Without whole operations behind the first push, nothing is claimed. -/
theorem Block.Claims.claimedHeight?_eq_none (h : b.Claims n rest) (hcut : ¬Whole rest) :
    b.coinbase?.bind Transaction.claimedHeight? = none := by
  obtain ⟨coinbase, input, o, hcoinbase, hinput, hscript, hform, -⟩ := h.pushes
  rw [hcoinbase, Option.bind_some, Transaction.claimedHeight?, hinput]
  cases hparse : parse input.script with
  | error cause => simp [hparse, Except.toOption]
  | ok ops =>
    rw [hscript] at hparse
    obtain ⟨behind, hbehind, -⟩ := (parse_encode_append_iff hform).1 hparse
    exact absurd (whole_iff.2 ⟨behind, hbehind⟩) hcut

theorem Block.Claims.lt_two_pow (h : b.Claims n rest) : n < 2 ^ 63 := by
  obtain ⟨_, _, _, -, -, -, -, hpushes⟩ := h.pushes
  exact hpushes.lt_two_pow

end Claims

namespace Chain

section Lead

variable {settings : Settings} {heights : Heights} {b : Block} {n : Int} {rest : Bytes}
  {lead tip : Nat} {top : Hash256}

theorem checkClaimedHeight_of_whole (h : b.Claims n rest)
    (hlead : settings.maxHeightLead = some lead) (htip : heights.tip = some (top, tip))
    (hwhole : Whole rest) :
    checkClaimedHeight settings heights b =
      if ((tip + lead : Nat) : Int) < n then .error (.farHeight n lead tip) else .ok () := by
  unfold checkClaimedHeight
  rw [hlead, htip, h.claimedHeight? hwhole, h.follows]
  by_cases hfar : ((tip + lead : Nat) : Int) < n
  · simp only [hfar, Bool.not_false, decide_true, Bool.and_self, if_true]
  · simp only [hfar, decide_false, Bool.and_false, Bool.false_eq_true, if_false]

theorem checkClaimedHeight_of_cut (h : b.Claims n rest)
    (hlead : settings.maxHeightLead = some lead) (htip : heights.tip = some (top, tip))
    (hcut : ¬Whole rest) : checkClaimedHeight settings heights b = .ok () := by
  unfold checkClaimedHeight
  rw [hlead, htip, h.claimedHeight?_eq_none hcut]

/-- The number that a coinbase pushes first decides about the block if whole operations stand behind
it: the block is refused for a number that is further above the tip than the lead, and passes with
any other. With a push that is cut short behind it, the block passes whatever the number is. It makes
no difference that the sum of tip and lead has to fit 64 bits. -/
theorem claimed_height_decides (h : b.Claims n rest) (hlead : settings.maxHeightLead = some lead)
    (htip : heights.tip = some (top, tip)) :
    (checkClaimedHeight settings heights b = .error (.farHeight n lead tip) ↔
        Whole rest ∧ ((tip + lead : Nat) : Int) < n) ∧
      (checkClaimedHeight settings heights b = .ok () ↔
        (Whole rest → n ≤ ((tip + lead : Nat) : Int))) ∧
      (((min (tip + lead) (2 ^ 64 - 1) : Nat) : Int) < n ↔ ((tip + lead : Nat) : Int) < n) := by
  -- a sum that leaves 64 bits is above every number of eight bytes
  have hbound := h.lt_two_pow
  have hsaturated : ((min (tip + lead) (2 ^ 64 - 1) : Nat) : Int) < n ↔
      ((tip + lead : Nat) : Int) < n := by
    omega
  by_cases hrefused : Whole rest ∧ ((tip + lead : Nat) : Int) < n
  · have hcheck : checkClaimedHeight settings heights b = .error (.farHeight n lead tip) := by
      rw [checkClaimedHeight_of_whole h hlead htip hrefused.1, if_pos hrefused.2]
    refine ⟨iff_of_true hcheck hrefused, iff_of_false ?_ ?_, hsaturated⟩
    · rw [hcheck]
      rintro ⟨⟩
    · intro hpass
      exact absurd (hpass hrefused.1) (not_le.2 hrefused.2)
  · have hcheck : checkClaimedHeight settings heights b = .ok () := by
      by_cases hwhole : Whole rest
      · rw [checkClaimedHeight_of_whole h hlead htip hwhole, if_neg]
        exact fun hfar => hrefused ⟨hwhole, hfar⟩
      · exact checkClaimedHeight_of_cut h hlead htip hwhole
    refine ⟨iff_of_false ?_ hrefused, iff_of_true hcheck ?_, hsaturated⟩
    · rw [hcheck]
      rintro ⟨⟩
    · intro hwhole
      exact not_lt.1 fun hfar => hrefused ⟨hwhole, hfar⟩

end Lead

/-- A block that claims the height 10000 and goes on with `rest`. -/
def sampleClaim (rest : Bytes) : Block where
  header := ⟨1, .one, .zero, 0, 0, 0⟩
  transactions := [⟨1, [⟨⟨.zero, 0xffffffff⟩, [2, 0x10, 0x27] ++ rest, 0⟩], [⟨50, [0x51]⟩], 0⟩]

theorem sampleClaim_claims (rest : Bytes) : (sampleClaim rest).Claims 10000 rest where
  follows := rfl
  pushes := ⟨_, _, ⟨2, some [0x10, 0x27]⟩, rfl, rfl, rfl, ⟨_, rfl, rfl⟩,
    .inl ⟨_, rfl, by decide, rfl⟩⟩

/-- Above a tip at zero, the claim is too high for the standard lead. -/
theorem claimed_height_decides_far :
    Whole [0x51] ∧ checkClaimedHeight .standard ⟨[(.one, 0)], some (.one, 0)⟩ (sampleClaim [0x51]) =
      .error (.farHeight 10000 5000 0) := by
  have hwhole : Whole [0x51] := ⟨[⟨0x51, none⟩], List.forall_mem_singleton.2 rfl, rfl⟩
  have hrefused : checkClaimedHeight .standard ⟨[(.one, 0)], some (.one, 0)⟩ (sampleClaim [0x51]) =
      .error (.farHeight 10000 5000 0) ↔ Whole [0x51] ∧ ((0 + 5000 : Nat) : Int) < 10000 :=
    (claimed_height_decides (sampleClaim_claims [0x51]) rfl rfl).1
  exact ⟨hwhole, hrefused.2 ⟨hwhole, by decide⟩⟩

/-- The same claim passes in front of a push that is cut short. -/
theorem cut_push_hides_height :
    (sampleClaim [0x4c]).Claims 10000 [0x4c] ∧ ((0 + 5000 : Nat) : Int) < 10000 ∧
      checkClaimedHeight .standard ⟨[(.one, 0)], some (.one, 0)⟩ (sampleClaim [0x4c]) = .ok () :=
  ⟨sampleClaim_claims [0x4c], by decide, by decide⟩

end Chain

end ChainRules
