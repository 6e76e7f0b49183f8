import ChainRules.Proofs.Codec.Exact

/-!
# Sizes and counted lists

Every size below 2^64 has exactly one written form, and a list behind its length is read exactly if
its members are and none of them is shorter than the reader assumes.
-/

namespace ChainRules.CompactSize

open Cursor (Advance advance_append)
open Read (Exact pure_ok bind_ok integer_exact bytes_exact)

theorem encode_short {n : Nat} (h : n < 0xfd) : encode n = Bytes.ofNatLe 1 n := by
  rw [encode, if_pos h]

theorem encode_word16 {n : Nat} (h : 0xfd ≤ n) (h' : n < 256 ^ 2) :
    encode n = Bytes.ofNatLe 1 0xfd ++ Bytes.ofNatLe 2 n := by
  rw [encode, if_neg (by omega), if_pos (by omega)]
  rfl

theorem encode_word32 {n : Nat} (h : 0x10000 ≤ n) (h' : n < 256 ^ 4) :
    encode n = Bytes.ofNatLe 1 0xfe ++ Bytes.ofNatLe 4 n := by
  rw [encode, if_neg (by omega), if_neg (by omega), if_pos (by omega)]
  rfl

theorem encode_word64 {n : Nat} (h : 0x100000000 ≤ n) :
    encode n = Bytes.ofNatLe 1 0xff ++ Bytes.ofNatLe 8 n := by
  rw [encode, if_neg (by omega), if_neg (by omega), if_neg (by omega)]
  rfl

/-- A number behind a marker is read if no shorter form holds it. -/
theorem readLong_ok {start least width : Nat} {what : Primitive} {n : Nat} {c c' : Cursor} :
    readLong start least width what c = .ok n c' ↔
      (least ≤ n ∧ n < 256 ^ width) ∧ Advance (Bytes.ofNatLe width n) c c' := by
  simp only [readLong, bind_ok, integer_exact _ _ _ _ _]
  refine ⟨?_, ?_⟩
  · intro hgiven
    obtain ⟨m, mid, ⟨hfits, hadvance⟩, hm⟩ := hgiven
    split at hm
    · cases hm
    · rename_i hleast
      obtain ⟨rfl, rfl⟩ := pure_ok.1 hm
      exact ⟨⟨Nat.le_of_not_lt hleast, hfits⟩, hadvance⟩
  · intro hgiven
    obtain ⟨⟨hleast, hfits⟩, hadvance⟩ := hgiven
    refine ⟨n, c', ⟨hfits, hadvance⟩, ?_⟩
    rw [if_neg (Nat.not_lt.2 hleast)]
    exact pure_ok.2 ⟨rfl, rfl⟩

/-- A size is read where its shortest form stands, and no other form is. -/
theorem read_exact : Exact read (· < 2 ^ 64) encode := by
  intro c n c'
  have hget : ∀ (f : Cursor → Read Nat), (get >>= f) c = f c c := fun _ => rfl
  simp only [read, hget, bind_ok, integer_exact _ _ _ _ _]
  refine ⟨?_, ?_⟩
  · intro hgiven
    obtain ⟨marker, mid, ⟨hmarker, hhead⟩, htail⟩ := hgiven
    split at htail
    · subst marker
      obtain ⟨⟨hleast, hfits⟩, htail⟩ := readLong_ok.1 htail
      refine ⟨by omega, ?_⟩
      rw [encode_word16 hleast hfits]
      exact advance_append.2 ⟨mid, hhead, htail⟩
    split at htail
    · subst marker
      obtain ⟨⟨hleast, hfits⟩, htail⟩ := readLong_ok.1 htail
      refine ⟨by omega, ?_⟩
      rw [encode_word32 hleast hfits]
      exact advance_append.2 ⟨mid, hhead, htail⟩
    split at htail
    · subst marker
      obtain ⟨⟨hleast, hfits⟩, htail⟩ := readLong_ok.1 htail
      refine ⟨by omega, ?_⟩
      rw [encode_word64 hleast]
      exact advance_append.2 ⟨mid, hhead, htail⟩
    · obtain ⟨rfl, rfl⟩ := pure_ok.1 htail
      refine ⟨by omega, ?_⟩
      rw [encode_short (by omega)]
      exact hhead
  · intro hgiven
    obtain ⟨hfits, hadvance⟩ := hgiven
    by_cases hshort : n < 0xfd
    · rw [encode_short hshort] at hadvance
      refine ⟨n, c', ⟨by omega, hadvance⟩, ?_⟩
      rw [if_neg (by omega), if_neg (by omega), if_neg (by omega)]
      exact pure_ok.2 ⟨rfl, rfl⟩
    by_cases hword16 : n < 256 ^ 2
    · rw [encode_word16 (by omega) hword16] at hadvance
      obtain ⟨mid, hhead, htail⟩ := advance_append.1 hadvance
      exact ⟨0xfd, mid, ⟨by omega, hhead⟩, readLong_ok.2 ⟨⟨by omega, hword16⟩, htail⟩⟩
    by_cases hword32 : n < 256 ^ 4
    · rw [encode_word32 (by omega) hword32] at hadvance
      obtain ⟨mid, hhead, htail⟩ := advance_append.1 hadvance
      exact ⟨0xfe, mid, ⟨by omega, hhead⟩, readLong_ok.2 ⟨⟨by omega, hword32⟩, htail⟩⟩
    · rw [encode_word64 (by omega)] at hadvance
      obtain ⟨mid, hhead, htail⟩ := advance_append.1 hadvance
      exact ⟨0xff, mid, ⟨by omega, hhead⟩, readLong_ok.2 ⟨⟨by omega, by omega⟩, htail⟩⟩

/-- A count is accepted if what is counted can still follow. -/
theorem readCount_ok {least : Nat} {what : Counted} {n : Nat} {c c' : Cursor} :
    readCount least what c = .ok n c' ↔
      n < 2 ^ 64 ∧ Advance (encode n) c c' ∧ n * least ≤ c'.rest.length := by
  have hget : ∀ (f : Cursor → Read Nat) (c : Cursor), (get >>= f) c = f c c := fun _ _ => rfl
  simp only [readCount, bind_ok, hget, read_exact _ _ _]
  refine ⟨?_, ?_⟩
  · intro hgiven
    obtain ⟨m, mid, ⟨hfits, hadvance⟩, hm⟩ := hgiven
    split at hm
    · rename_i hcovers
      obtain ⟨rfl, rfl⟩ := pure_ok.1 hm
      exact ⟨hfits, hadvance, (Bytes.covers_iff _ _).1 hcovers⟩
    · cases hm
  · intro hgiven
    obtain ⟨hfits, hadvance, hcovers⟩ := hgiven
    refine ⟨n, c', ⟨hfits, hadvance⟩, ?_⟩
    rw [if_pos ((Bytes.covers_iff _ _).2 hcovers)]
    exact pure_ok.2 ⟨rfl, rfl⟩

theorem readBytes_exact : Exact readBytes (·.length < 2 ^ 64) encodeBytes := by
  intro c bs c'
  simp only [readBytes, bind_ok, readCount_ok, bytes_exact _ _ _ _, encodeBytes, id]
  refine ⟨?_, ?_⟩
  · intro hgiven
    obtain ⟨n, mid, ⟨hfits, hhead, -⟩, rfl, htail⟩ := hgiven
    exact ⟨hfits, advance_append.2 ⟨mid, hhead, htail⟩⟩
  · intro hgiven
    obtain ⟨hfits, hadvance⟩ := hgiven
    obtain ⟨mid, hhead, htail⟩ := advance_append.1 hadvance
    refine ⟨bs.length, mid, ⟨hfits, hhead, ?_⟩, rfl, htail⟩
    rw [htail.rest, List.length_append]
    omega

/-- The written form of a list: its length and then its members. -/
def encodeList {α : Type} (encode : α → Bytes) (xs : List α) : Bytes :=
  CompactSize.encode xs.length ++ xs.flatMap encode

/-- Reads a list behind its length; each member takes at least `least` bytes. -/
def readList {α : Type} (r : Read α) (least : Nat) (what : Counted) : Read (List α) := do
  let count ← readCount least what
  Read.times r count

theorem length_flatMap_ge {α : Type} {encode : α → Bytes} {least : Nat}
    (hleast : ∀ x, least ≤ (encode x).length) (xs : List α) :
    xs.length * least ≤ (xs.flatMap encode).length := by
  induction xs with
  | nil => simp
  | cons x xs ih =>
    rw [List.flatMap_cons, List.length_append, List.length_cons, Nat.add_mul]
    have := hleast x
    omega

/-- A list is read exactly behind its length if its members are read exactly. -/
theorem list_exact {α : Type} {r : Read α} {fits : α → Prop} {encode : α → Bytes} {least : Nat}
    (what : Counted) (h : Exact r fits encode) (hleast : ∀ x, least ≤ (encode x).length) :
    Exact (readList r least what) (fun xs => xs.length < 2 ^ 64 ∧ ∀ x ∈ xs, fits x)
      (encodeList encode) := by
  intro c xs c'
  simp only [readList, bind_ok, readCount_ok, h.times _ _ _ _, encodeList]
  refine ⟨?_, ?_⟩
  · intro hgiven
    obtain ⟨n, mid, ⟨hfits, hhead, -⟩, ⟨rfl, hmembers⟩, htail⟩ := hgiven
    exact ⟨⟨hfits, hmembers⟩, advance_append.2 ⟨mid, hhead, htail⟩⟩
  · intro hgiven
    obtain ⟨⟨hfits, hmembers⟩, hadvance⟩ := hgiven
    obtain ⟨mid, hhead, htail⟩ := advance_append.1 hadvance
    refine ⟨xs.length, mid, ⟨hfits, hhead, ?_⟩, ⟨rfl, hmembers⟩, htail⟩
    have := length_flatMap_ge hleast xs
    rw [htail.rest, List.length_append]
    omega

end ChainRules.CompactSize
