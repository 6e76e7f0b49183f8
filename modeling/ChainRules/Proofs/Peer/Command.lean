import Mathlib
import ChainRules.Peer.Command

/-!
# Names in command fields

A field holds a name exactly if it is the field of that name: visible characters, then zeros up to
the twelfth byte. So a name has one field, and a field one name at most.
-/

namespace ChainRules.Peer.CommandField

/-- The field holds these characters, all of them visible, and zeros behind them. -/
structure Spells (field : CommandField) (text : Bytes) : Prop where
  visible : ∀ b ∈ text, isVisible b = true
  padded : field.bytes = text ++ List.replicate (12 - text.length) 0

/-- The name that is spelled by some characters. -/
def nameOf (text : Bytes) : String :=
  String.ofList (text.map fun b => Char.ofNat b.toNat)

theorem isVisible_ne_zero {b : UInt8} (h : isVisible b = true) : b ≠ 0 := by
  rintro rfl
  cases h

/-- A visible byte and its character have one number. -/
theorem toNat_ofNat_of_isVisible {b : UInt8} (h : isVisible b = true) :
    (Char.ofNat b.toNat).toNat = b.toNat := by
  revert b
  decide +kernel

theorem isVisible_iff (b : UInt8) : isVisible b = true ↔ 0x21 ≤ b.toNat ∧ b.toNat ≤ 0x7e := by
  revert b
  decide +kernel

/-- A visible character and its byte have one number. -/
theorem toNat_ofNat_of_visible {c : Char} (h : 0x21 ≤ c.toNat ∧ c.toNat ≤ 0x7e) :
    (UInt8.ofNat c.toNat).toNat = c.toNat := by
  refine UInt8.toNat_ofNat_of_lt' ?_
  have hsize : UInt8.size = 256 := rfl
  omega

/-- A name of visible characters is spelled by their bytes. -/
theorem nameOf_bytes {name : String}
    (h : ∀ c ∈ name.toList, 0x21 ≤ c.toNat ∧ c.toNat ≤ 0x7e) :
    nameOf (name.toList.map fun c => UInt8.ofNat c.toNat) = name := by
  have hchars : ∀ c ∈ name.toList,
      Char.ofNat (UInt8.ofNat c.toNat).toNat = id c := by
    intro c hc
    rw [toNat_ofNat_of_visible (h c hc), Char.ofNat_toNat]
    rfl
  rw [nameOf, List.map_map, ← String.toList_inj, String.toList_ofList]
  exact (List.map_congr_left hchars).trans (List.map_id _)

/-- Visible bytes are those of the name that they spell. -/
theorem bytes_nameOf {text : Bytes} (h : ∀ b ∈ text, isVisible b = true) :
    (nameOf text).toList.map (fun c => UInt8.ofNat c.toNat) = text := by
  have hbytes : ∀ b ∈ text, UInt8.ofNat (Char.ofNat b.toNat).toNat = id b := by
    intro b hb
    rw [toNat_ofNat_of_isVisible (h b hb), UInt8.ofNat_toNat]
    rfl
  rw [nameOf, String.toList_ofList, List.map_map]
  exact (List.map_congr_left hbytes).trans (List.map_id _)

/-- The characters stand before the first zero, and the zeros behind them. -/
theorem Spells.split {field : CommandField} {text : Bytes} (h : field.Spells text) :
    field.bytes.takeWhile (· ≠ 0) = text ∧
      field.bytes.dropWhile (· ≠ 0) = List.replicate (12 - text.length) 0 := by
  have hnonzero : ∀ b ∈ text, decide (b ≠ 0) = true := by
    intro b hb
    exact decide_eq_true (isVisible_ne_zero (h.visible b hb))
  rw [h.padded, List.takeWhile_append_of_pos hnonzero, List.dropWhile_append_of_pos hnonzero]
  simp

/-- What is read from a field is the name that it spells. -/
theorem name_eq_ok_iff {field : CommandField} {name : String} :
    field.name = .ok name ↔ ∃ text, field.Spells text ∧ name = nameOf text := by
  unfold CommandField.name
  dsimp only
  constructor
  · intro h
    split at h
    · cases h
    · rename_i hpadding
      split at h
      · rename_i hvisible
        cases h
        have hsplit := List.takeWhile_append_dropWhile (p := (· ≠ (0 : UInt8))) (l := field.bytes)
        have hlength := congrArg List.length hsplit
        rw [List.length_append, field.size] at hlength
        have hzeros : field.bytes.dropWhile (· ≠ 0) =
            List.replicate (12 - (field.bytes.takeWhile (· ≠ 0)).length) 0 := by
          rw [List.eq_replicate_iff]
          refine ⟨by omega, fun b hb => ?_⟩
          simpa using List.any_eq_false.1 (Bool.eq_false_iff.2 hpadding) b hb
        refine ⟨_, ⟨List.all_eq_true.1 hvisible, ?_⟩, rfl⟩
        rw [← hzeros]
        exact hsplit.symm
      · cases h
  · rintro ⟨text, hspells, rfl⟩
    obtain ⟨htext, hzeros⟩ := hspells.split
    rw [htext, hzeros, if_neg, if_pos (List.all_eq_true.2 hspells.visible)]
    · rfl
    · simp

/-- The field of a name is the one that spells it. -/
theorem ofName_eq_ok_iff {field : CommandField} {name : String} :
    ofName name = .ok field ↔ ∃ text, field.Spells text ∧ name = nameOf text := by
  unfold ofName
  dsimp only
  constructor
  · intro h
    split at h
    · rename_i hchars
      cases h
      obtain ⟨-, hvisible⟩ := hchars
      have hrange : ∀ c ∈ name.toList, 0x21 ≤ c.toNat ∧ c.toNat ≤ 0x7e := by
        simpa using hvisible
      refine ⟨_, ⟨?_, ?_⟩, (nameOf_bytes hrange).symm⟩
      · intro b hb
        obtain ⟨c, hc, rfl⟩ := List.mem_map.1 hb
        rw [isVisible_iff, toNat_ofNat_of_visible (hrange c hc)]
        exact hrange c hc
      · rw [List.length_map]
    · cases h
  · rintro ⟨text, hspells, rfl⟩
    have hlength : (nameOf text).toList.length = text.length := by
      rw [nameOf, String.toList_ofList, List.length_map]
    have hfits : text.length ≤ 12 := by
      have hsize := field.size
      rw [hspells.padded, List.length_append] at hsize
      omega
    have hvisible : ∀ c ∈ (nameOf text).toList, 0x21 ≤ c.toNat ∧ c.toNat ≤ 0x7e := by
      rw [nameOf, String.toList_ofList]
      intro c hc
      obtain ⟨b, hb, rfl⟩ := List.mem_map.1 hc
      have hb' := hspells.visible b hb
      rw [toNat_ofNat_of_isVisible hb']
      exact (isVisible_iff b).1 hb'
    rw [dif_pos ⟨hlength.trans_le hfits, by simpa using hvisible⟩]
    congr 1
    have hbytes := hspells.padded
    cases field
    simp only [bytes_nameOf hspells.visible, hlength, ← hbytes]

/-- Reading a name from a field and writing its field are inverse. -/
theorem name_eq_ok_iff_ofName {field : CommandField} {name : String} :
    field.name = .ok name ↔ ofName name = .ok field :=
  name_eq_ok_iff.trans ofName_eq_ok_iff.symm

end ChainRules.Peer.CommandField
