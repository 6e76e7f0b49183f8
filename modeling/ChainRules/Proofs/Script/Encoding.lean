import Mathlib
import ChainRules.Bytes.Lemmas
import ChainRules.Script.Operation

/-!
# Written scripts

The opcode of an operation says where its data ends, so the operations of a written script are found
one after the other, whatever stands behind them.
-/

namespace ChainRules.Script

/-- The operation carries the data that its opcode asks for, in the length that the opcode gives or
has room for. -/
def Operation.WellFormed (o : Operation) : Prop :=
  match o.opcode.dataForm with
  | .bare => o.data = none
  | .fixed size => ∃ data, o.data = some data ∧ data.length = size
  | .counted width => ∃ data, o.data = some data ∧ data.length < 256 ^ width

namespace Operation

/-- Behind its opcode, an operation that was written is split from what follows it. -/
theorem splitData?_encode {o : Operation} (h : o.WellFormed) (rest : Bytes) :
    ∃ tail, o.encode = o.opcode :: tail ∧ splitData? o.opcode (tail ++ rest) = some (o.data, rest) := by
  obtain ⟨op, data⟩ := o
  have hdata : ∀ field : Bytes, ∀ bs : Bytes, field = lengthField op bs.length →
      (⟨op, some bs⟩ : Operation).encode = op :: (field ++ bs) := by
    rintro field bs rfl
    rfl
  unfold WellFormed at h
  cases hform : op.dataForm with
  | bare =>
    simp only [hform] at h
    subst h
    exact ⟨[], rfl, by simp [splitData?, hform]⟩
  | fixed size =>
    simp only [hform] at h
    obtain ⟨bs, rfl, hlen⟩ := h
    have hfield : [] = lengthField op bs.length := by simp [lengthField, hform]
    have hsplit : (bs ++ rest).split? size = some (bs, rest) :=
      Bytes.split?_eq_some_iff.2 ⟨rfl, hlen⟩
    exact ⟨bs, hdata [] bs hfield, by simp [splitData?, hform, hsplit]⟩
  | counted width =>
    simp only [hform] at h
    obtain ⟨bs, rfl, hlen⟩ := h
    have hfield : Bytes.ofNatLe width bs.length = lengthField op bs.length := by
      simp [lengthField, hform]
    have hcount : (Bytes.ofNatLe width bs.length ++ (bs ++ rest)).split? width =
        some (Bytes.ofNatLe width bs.length, bs ++ rest) :=
      Bytes.split?_eq_some_iff.2 ⟨rfl, Bytes.length_ofNatLe _ _⟩
    have hsize : (Bytes.ofNatLe width bs.length).toNatLe = bs.length := by
      rw [Bytes.toNatLe_ofNatLe_of_lt hlen]
    have hsplit : (bs ++ rest).split? bs.length = some (bs, rest) :=
      Bytes.split?_eq_some_iff.2 ⟨rfl, rfl⟩
    refine ⟨_, hdata _ bs hfield, ?_⟩
    simp [splitData?, hform, hcount, hsize, hsplit]

/-- The opcode of a short push is the number of bytes that it pushes. -/
theorem dataForm_ofNat {n : Nat} (h : n ≤ 0x4b) :
    Opcode.dataForm (UInt8.ofNat n) = .fixed n := by
  have hop : (UInt8.ofNat n).toNat = n := by
    rw [UInt8.toNat_ofNat']
    omega
  have hle : UInt8.ofNat n ≤ 0x4b := by
    rw [UInt8.le_iff_toNat_le, hop]
    exact h
  rw [Opcode.dataForm, if_pos hle, hop]

/-- The push with the opcode that takes the fewest bytes is well-formed. -/
theorem wellFormed_push {data : Bytes} (h : data.length < 2 ^ 32) : (push data).WellFormed := by
  have hcounted : ∀ (op : Opcode) (width : Nat), op.dataForm = .counted width →
      data.length < 256 ^ width → (⟨op, some data⟩ : Operation).WellFormed := by
    intro op width hform hlen
    simp only [WellFormed, hform]
    exact ⟨data, rfl, hlen⟩
  unfold push
  dsimp only
  by_cases hshort : data.length ≤ 0x4b
  · rw [if_pos hshort]
    simp only [WellFormed, dataForm_ofNat hshort]
    exact ⟨data, rfl, rfl⟩
  · rw [if_neg hshort]
    split_ifs with hbyte hword
    · exact hcounted 0x4c 1 rfl (by omega)
    · exact hcounted 0x4d 2 rfl (by omega)
    · exact hcounted 0x4e 4 rfl (by omega)

end Operation

/-- A written script is read as the operations of which it was written. -/
theorem parseFrom_encode {ops : List Operation} (h : ∀ o ∈ ops, o.WellFormed) {fuel : Nat}
    (offset : Nat) (hfuel : (encode ops).length ≤ fuel) :
    parseFrom fuel offset (encode ops) = .ok ops := by
  induction ops generalizing fuel offset with
  | nil => cases fuel <;> rfl
  | cons o ops ih =>
    rw [List.forall_mem_cons] at h
    obtain ⟨tail, hencode, hsplit⟩ := Operation.splitData?_encode h.1 (encode ops)
    have hcons : encode (o :: ops) = o.opcode :: (tail ++ encode ops) := by
      rw [encode, List.flatMap_cons, hencode, List.cons_append, encode]
    rw [hcons] at hfuel ⊢
    cases fuel with
    | zero => cases hfuel
    | succ fuel =>
      have hrest : (encode ops).length ≤ fuel := by
        rw [List.length_cons, List.length_append] at hfuel
        omega
      simp only [parseFrom, hsplit, ih h.2 _ hrest]
      rfl

theorem parse_encode {ops : List Operation} (h : ∀ o ∈ ops, o.WellFormed) :
    parse (encode ops) = .ok ops :=
  parseFrom_encode h 0 le_rfl

end ChainRules.Script
