import ChainRules.Peer.Payload
import ChainRules.Proofs.Codec.Ledger

/-!
# Positions in a payload

A reader stands at a position of a payload. It answers with a value and stops at a later position
exactly if the bytes between the two are the value's written form. So a payload has one reading, a
value one accepted form, and every payload that is no written form is malformed.
-/

namespace ChainRules

variable {α : Type}

/-- The bytes from one position to another. -/
def Bytes.slice? (payload : Bytes) (p q : Nat) : Option Bytes :=
  if p ≤ q ∧ q ≤ payload.length then some ((payload.drop p).take (q - p)) else none

/-- A cursor that has come to a position of a payload. -/
def Cursor.within (payload : Bytes) (p : Nat) : Cursor :=
  ⟨payload.drop p, p⟩

open Cursor (Advance within)

theorem Bytes.slice?_eq_some_iff {payload bs : Bytes} {p q : Nat} :
    payload.slice? p q = some bs ↔
      p ≤ payload.length ∧ q = p + bs.length ∧ payload.drop p = bs ++ payload.drop q := by
  unfold slice?
  split
  · rename_i hrange
    obtain ⟨hpq, hq⟩ := hrange
    have hlen : ((payload.drop p).take (q - p)).length = q - p := by
      rw [List.length_take_of_le]
      rw [List.length_drop]
      omega
    have hsplit : payload.drop p = (payload.drop p).take (q - p) ++ payload.drop q := by
      have hq' : q = p + (q - p) := by omega
      conv_rhs => rw [hq', ← List.drop_drop]
      simp
    rw [Option.some.injEq]
    refine ⟨?_, ?_⟩
    · intro hslice
      rw [hslice] at hlen hsplit
      exact ⟨by omega, by omega, hsplit⟩
    · intro hgiven
      obtain ⟨-, rfl, hdrop⟩ := hgiven
      rw [hdrop]
      simp
  · rename_i hrange
    simp only [reduceCtorEq, false_iff]
    intro hgiven
    obtain ⟨hp, rfl, hdrop⟩ := hgiven
    have hlen := congrArg List.length hdrop
    simp only [List.length_drop, List.length_append] at hlen
    omega

/-- What a cursor passes over on its way between two positions is what stands between them. -/
theorem Cursor.advance_within_iff {payload bs : Bytes} (hbs : bs ≠ []) {p : Nat} {c : Cursor} :
    Advance bs (within payload p) c ↔
      ∃ q, c = within payload q ∧ payload.slice? p q = some bs := by
  have hpos := List.length_pos_iff.2 hbs
  refine ⟨?_, ?_⟩
  · intro hadvance
    have hrest : payload.drop p = bs ++ c.rest := hadvance.rest
    have hlen := congrArg List.length hrest
    simp only [List.length_drop, List.length_append] at hlen
    have hbehind : c.rest = payload.drop (p + bs.length) := by
      rw [← List.drop_drop, hrest, List.drop_left]
    refine ⟨p + bs.length, ?_, Bytes.slice?_eq_some_iff.2 ⟨by omega, rfl, ?_⟩⟩
    · have hoffset := hadvance.offset
      cases c with
      | mk rest offset =>
        cases hbehind
        cases hoffset
        rfl
    · rw [← hbehind]
      exact hrest
  · intro hgiven
    obtain ⟨q, rfl, hslice⟩ := hgiven
    obtain ⟨-, rfl, hdrop⟩ := Bytes.slice?_eq_some_iff.1 hslice
    exact ⟨hdrop, rfl⟩

namespace Read

/-- A reader takes the written forms of values from a payload, wherever they stand in it, and
nothing else; and the whole payload is read as the value that it is the written form of. -/
structure Decides (read : Read α) (encode : α → Bytes) (decode : Bytes → Except Malformed α)
    (wrap : α → Peer.Payload) (payload : Bytes) : Prop where
  read_iff : ∀ p x c, read (within payload p) = .ok x c ↔
    ∃ q, c = within payload q ∧ payload.slice? p q = some (encode x)
  decode_iff : ∀ x, decode payload = .ok x ↔ payload = encode x
  one_reading : ∀ p q x q' x', payload.slice? p q = some (encode x) →
    payload.slice? p q' = some (encode x') → q = q' ∧ x = x'
  one_form : ∀ x other, decode payload = .ok x → decode other = .ok x → other = payload
  malformed : (∀ x, payload ≠ encode x) →
    ∃ cause, Peer.Payload.reading wrap (decode payload) = .error (.malformed cause)

/-- An exact reader decides every payload that is too short for the written form of a value that
does not fit. -/
theorem Exact.decides {read : Read α} {fits : α → Prop} {encode : α → Bytes} {size : Nat}
    (h : Exact read fits encode) (hfits : ∀ x, (encode x).length < size → fits x)
    (hpos : ∀ x, encode x ≠ []) (wrap : α → Peer.Payload) {payload : Bytes}
    (hsize : payload.length < size) :
    Decides read encode (whole read) wrap payload := by
  have hread : ∀ p x c, read (within payload p) = .ok x c ↔
      ∃ q, c = within payload q ∧ payload.slice? p q = some (encode x) := by
    intro p x c
    rw [h, Cursor.advance_within_iff (hpos x)]
    refine and_iff_right_of_imp fun hgiven => ?_
    obtain ⟨q, -, hslice⟩ := hgiven
    obtain ⟨-, -, hdrop⟩ := Bytes.slice?_eq_some_iff.1 hslice
    have hlen := congrArg List.length hdrop
    simp only [List.length_drop, List.length_append] at hlen
    exact hfits x (by omega)
  have hwhole : ∀ x, whole read payload = .ok x ↔ payload = encode x := by
    intro x
    rw [h.whole_eq_ok_iff]
    refine and_iff_right_of_imp fun hpayload => ?_
    rw [hpayload] at hsize
    exact hfits x hsize
  refine ⟨hread, hwhole, ?_, ?_, ?_⟩
  · intro p q x q' x' hslice hslice'
    have hx := (hread p x _).2 ⟨q, rfl, hslice⟩
    have hx' := (hread p x' _).2 ⟨q', rfl, hslice'⟩
    rw [hx] at hx'
    injection hx' with hvalue hcursor
    exact ⟨congrArg Cursor.offset hcursor, hvalue⟩
  · intro x other hx hother
    rw [(hwhole x).1 hx]
    exact (h.whole_eq_ok_iff.1 hother).2
  · intro hnone
    cases hdecode : whole read payload with
    | ok x => exact absurd ((hwhole x).1 hdecode) (hnone x)
    | error cause => exact ⟨cause, rfl⟩

end Read

/-! ## Written forms of lists and scripts have their lengths -/

namespace CompactSize

theorem fits_of_length_encodeBytes {bs : Bytes} {size : Nat}
    (h : (encodeBytes bs).length < size) : bs.length < size := by
  rw [encodeBytes, List.length_append] at h
  omega

theorem fits_of_length_encodeList {encode : α → Bytes} {least size : Nat} {fits : α → Prop}
    (hleast : ∀ x, least ≤ (encode x).length) (hpos : 0 < least)
    (hfits : ∀ x, (encode x).length < size → fits x) {xs : List α}
    (h : (encodeList encode xs).length < size) :
    xs.length < size ∧ ∀ x ∈ xs, fits x := by
  rw [encodeList, List.length_append] at h
  refine ⟨?_, fun x hx => hfits x ?_⟩
  · have hlen := length_flatMap_ge hleast xs
    have hmul := Nat.le_mul_of_pos_right xs.length hpos
    omega
  · obtain ⟨before, behind, rfl⟩ := List.append_of_mem hx
    simp only [List.flatMap_append, List.flatMap_cons, List.length_append] at h
    omega

end CompactSize

theorem Input.fits_of_length {i : Input} (h : i.encode.length < 2 ^ 64) : i.Fits := by
  rw [encode, List.length_append, List.length_append] at h
  exact CompactSize.fits_of_length_encodeBytes (by omega)

theorem Output.fits_of_length {o : Output} (h : o.encode.length < 2 ^ 64) : o.Fits := by
  rw [encode, List.length_append] at h
  exact CompactSize.fits_of_length_encodeBytes (by omega)

theorem Transaction.fits_of_length {tx : Transaction} (h : tx.encode.length < 2 ^ 64) :
    tx.Fits := by
  rw [encode_eq] at h
  simp only [List.length_append] at h
  refine ⟨?_, ?_⟩
  · exact CompactSize.fits_of_length_encodeList Input.leastSize_le (by decide)
      (fun _ => Input.fits_of_length) (by omega)
  · exact CompactSize.fits_of_length_encodeList Output.leastSize_le (by decide)
      (fun _ => Output.fits_of_length) (by omega)

theorem Block.fits_of_length {b : Block} (h : b.encode.length < 2 ^ 64) : b.Fits := by
  rw [encode_eq, List.length_append] at h
  exact CompactSize.fits_of_length_encodeList Transaction.leastSize_le (by decide)
    (fun _ => Transaction.fits_of_length) (by omega)

theorem Transaction.encode_ne_nil (tx : Transaction) : tx.encode ≠ [] := by
  have hsize := tx.leastSize_le
  intro hnil
  rw [hnil] at hsize
  exact absurd hsize (by decide)

theorem Block.encode_ne_nil (b : Block) : b.encode ≠ [] := by
  have hheader := b.header.length_encode
  intro hnil
  rw [encode_eq, List.append_eq_nil_iff] at hnil
  rw [hnil.1] at hheader
  exact absurd hheader (by decide)

/-- Transactions and blocks are read from payloads exactly. -/
theorem Peer.Payload.decided_exactly {payload : Bytes} (h : payload.length < 2 ^ 64) :
    Read.Decides Transaction.read Transaction.encode Transaction.decode .transaction payload ∧
    Read.Decides Block.read Block.encode Block.decode .block payload :=
  ⟨Transaction.read_exact.decides (fun _ => Transaction.fits_of_length)
      Transaction.encode_ne_nil .transaction h,
    Block.read_exact.decides (fun _ => Block.fits_of_length) Block.encode_ne_nil .block h⟩

/-- The shortest transaction is found inside a payload, which it is not the whole of. -/
theorem Peer.Payload.decided_inside :
    let tx : Transaction := ⟨1, [], [], 0⟩
    let payload := 7 :: (tx.encode ++ [9])
    Transaction.read (within payload 1) = .ok tx (within payload 11) ∧
      Transaction.decode payload ≠ .ok tx ∧ Transaction.decode tx.encode = .ok tx := by
  intro tx payload
  have hinside := (Peer.Payload.decided_exactly (show payload.length < 2 ^ 64 by decide)).1
  have hwhole := (Peer.Payload.decided_exactly (show tx.encode.length < 2 ^ 64 by decide)).1
  refine ⟨(hinside.read_iff 1 tx _).2 ⟨11, rfl, by decide⟩, ?_, (hwhole.decode_iff tx).2 rfl⟩
  rw [ne_eq, hinside.decode_iff]
  decide

end ChainRules
