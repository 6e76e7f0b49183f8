import Mathlib
import ChainRules.Bytes.Lemmas
import ChainRules.Codec.CompactSize

/-!
# Exact readers

A reader is exact for an encoding if it answers with a value precisely where the written form of
that value stands at the cursor, and leaves the cursor right behind it. Exactness of a compound
reader is put together from that of its parts, and with it both halves of a codec are known at once:
what was written is read back whatever follows, and nothing else is read.
-/

namespace ChainRules

/-- `bs` is what was read between two positions of a cursor. -/
structure Cursor.Advance (bs : Bytes) (c c' : Cursor) : Prop where
  rest : c.rest = bs ++ c'.rest
  offset : c'.offset = c.offset + bs.length

namespace Cursor

theorem advance_nil {c c' : Cursor} : Advance [] c c' ↔ c = c' := by
  refine ⟨?_, ?_⟩
  · intro hgiven
    obtain ⟨hrest, hoffset⟩ := hgiven
    cases c; cases c'
    simp_all
  · rintro rfl
    exact ⟨rfl, rfl⟩

theorem advance_append {a b : Bytes} {c c' : Cursor} :
    Advance (a ++ b) c c' ↔ ∃ mid, Advance a c mid ∧ Advance b mid c' := by
  refine ⟨?_, ?_⟩
  · intro hgiven
    obtain ⟨hrest, hoffset⟩ := hgiven
    refine ⟨⟨b ++ c'.rest, c.offset + a.length⟩, ⟨?_, rfl⟩, ⟨rfl, ?_⟩⟩
    · rw [hrest, List.append_assoc]
    · rw [hoffset, List.length_append, Nat.add_assoc]
  · intro hgiven
    obtain ⟨mid, ⟨hrest, hoffset⟩, ⟨hrest', hoffset'⟩⟩ := hgiven
    refine ⟨?_, ?_⟩
    · rw [hrest, hrest', List.append_assoc]
    · rw [hoffset', hoffset, List.length_append, Nat.add_assoc]

/-- Where a cursor gets to is determined by how much is read. -/
theorem Advance.unique {a b : Bytes} {c d e : Cursor} (ha : Advance a c d) (hb : Advance b c e)
    (hlen : a.length = b.length) : a = b ∧ d = e := by
  obtain ⟨hab, hrest⟩ := List.append_inj (ha.rest.symm.trans hb.rest) hlen
  refine ⟨hab, ?_⟩
  cases d; cases e
  have hoffset := ha.offset
  have hoffset' := hb.offset
  simp_all

end Cursor

open Cursor (Advance advance_nil advance_append)

namespace Read

variable {α β : Type}

theorem pure_ok {x y : α} {c c' : Cursor} :
    (pure x : Read α) c = .ok y c' ↔ x = y ∧ c = c' := by
  simp [pure, EStateM.pure]

theorem bind_ok {r : Read α} {f : α → Read β} {y : β} {c c' : Cursor} :
    (r >>= f) c = .ok y c' ↔ ∃ x mid, r c = .ok x mid ∧ f x mid = .ok y c' := by
  simp only [bind, EStateM.bind]
  cases h : r c <;> simp

/-- The reader answers with a value exactly where its written form stands. Only values that fit are
written. -/
def Exact (r : Read α) (fits : α → Prop) (encode : α → Bytes) : Prop :=
  ∀ c x c', r c = .ok x c' ↔ fits x ∧ Advance (encode x) c c'

/-- What follows a written form does not show where it ends: the reader does. -/
theorem Exact.append_inj {r : Read α} {fits : α → Prop} {encode : α → Bytes}
    (h : Exact r fits encode) {x y : α} {a b : Bytes} (hx : fits x) (hy : fits y)
    (heq : encode x ++ a = encode y ++ b) :
    x = y ∧ a = b := by
  have readX : r ⟨encode x ++ a, 0⟩ = .ok x ⟨a, (encode x).length⟩ :=
    (h _ _ _).2 ⟨hx, rfl, (Nat.zero_add _).symm⟩
  have readY : r ⟨encode x ++ a, 0⟩ = .ok y ⟨b, (encode y).length⟩ :=
    (h _ _ _).2 ⟨hy, heq, (Nat.zero_add _).symm⟩
  rw [readX] at readY
  injection readY with hxy hcursor
  exact ⟨hxy, congrArg Cursor.rest hcursor⟩

/-- Exactly the written forms of values that fit are whole payloads. -/
theorem Exact.whole_eq_ok_iff {r : Read α} {fits : α → Prop} {encode : α → Bytes}
    (h : Exact r fits encode) {payload : Bytes} {x : α} :
    whole r payload = .ok x ↔ fits x ∧ payload = encode x := by
  refine ⟨?_, ?_⟩
  · intro hwhole
    unfold whole at hwhole
    split at hwhole
    · cases hwhole
    · rename_i value c hread
      obtain ⟨hfits, hrest, -⟩ := (h _ _ _).1 hread
      unfold finish at hwhole
      cases c with
      | mk rest offset =>
        cases rest with
        | cons b bs => simp at hwhole
        | nil =>
          simp only [List.isEmpty_nil, if_true, Except.ok.injEq] at hwhole
          subst hwhole
          exact ⟨hfits, by simpa [Cursor.start] using hrest⟩
  · intro hgiven
    obtain ⟨hfits, rfl⟩ := hgiven
    have hread : r (.start (encode x)) = .ok x ⟨[], (encode x).length⟩ :=
      (h _ _ _).2 ⟨hfits, by simp [Cursor.start], by simp [Cursor.start]⟩
    simp [whole, hread, finish]

/-! ## Primitives -/

theorem exactly_ok {n : Nat} {what : Primitive} {bs : { bs : Bytes // bs.length = n }}
    {c c' : Cursor} : exactly n what c = .ok bs c' ↔ Advance bs.val c c' := by
  unfold exactly
  split
  · rename_i front rest hsplit
    obtain ⟨hrest, hlen⟩ := Bytes.split?_eq_some_iff.1 hsplit
    have hadvance : Advance front c ⟨rest, c.offset + n⟩ := ⟨hrest, by simp [hlen]⟩
    refine ⟨?_, ?_⟩
    · intro h
      injection h with hbs hcursor
      rw [← hbs, ← hcursor]
      exact hadvance
    · intro h
      obtain ⟨hbs, hcursor⟩ := hadvance.unique h (hlen.trans bs.property.symm)
      subst hcursor
      congr 1
      exact Subtype.ext hbs
  · rename_i hsplit
    have hshort := Bytes.split?_eq_none_iff.1 hsplit
    simp only [reduceCtorEq, false_iff]
    intro h
    have hlen := congrArg List.length h.rest
    rw [List.length_append, bs.property] at hlen
    omega

theorem integer_exact (width : Nat) (what : Primitive) :
    Exact (integer width what) (· < 256 ^ width) (Bytes.ofNatLe width) := by
  intro c n c'
  simp only [integer, bind_ok, pure_ok, exactly_ok]
  refine ⟨?_, ?_⟩
  · intro hgiven
    obtain ⟨⟨bs, hlen⟩, mid, hadvance, rfl, rfl⟩ := hgiven
    subst hlen
    refine ⟨Bytes.toNatLe_lt bs, ?_⟩
    rw [Bytes.ofNatLe_toNatLe]
    exact hadvance
  · intro hgiven
    obtain ⟨hfits, hadvance⟩ := hgiven
    refine ⟨⟨Bytes.ofNatLe width n, Bytes.length_ofNatLe width n⟩, c', hadvance, ?_, rfl⟩
    rw [Bytes.toNatLe_ofNatLe_of_lt hfits]

theorem word32_exact : Exact word32 (fun _ => True) (fun w => Bytes.ofNatLe 4 w.toNat) := by
  intro c w c'
  simp only [word32, bind_ok, pure_ok, integer_exact _ _ _ _ _, true_and]
  refine ⟨?_, ?_⟩
  · intro hgiven
    obtain ⟨n, mid, ⟨hfits, hadvance⟩, rfl, rfl⟩ := hgiven
    rwa [UInt32.toNat_ofNat_of_lt' hfits]
  · intro hadvance
    exact ⟨w.toNat, c', ⟨w.toNat_lt, hadvance⟩, UInt32.ofNat_toNat, rfl⟩

theorem amount_exact :
    Exact amount (fun _ => True) (fun v => Bytes.ofNatLe 8 v.toUInt64.toNat) := by
  intro c v c'
  simp only [amount, word64, bind_ok, pure_ok, integer_exact _ _ _ _ _, true_and]
  refine ⟨?_, ?_⟩
  · intro hgiven
    obtain ⟨w, mid, ⟨n, mid', ⟨hfits, hadvance⟩, rfl, rfl⟩, rfl, rfl⟩ := hgiven
    rwa [UInt64.toUInt64_toInt64, UInt64.toNat_ofNat_of_lt' hfits]
  · intro hadvance
    exact ⟨v.toUInt64, c',
      ⟨v.toUInt64.toNat, c', ⟨v.toUInt64.toNat_lt, hadvance⟩, UInt64.ofNat_toNat, rfl⟩,
      Int64.toInt64_toUInt64 v, rfl⟩

theorem hash_exact : Exact hash (fun _ => True) Hash256.bytes := by
  intro c h c'
  simp only [hash, bind_ok, pure_ok, exactly_ok, true_and]
  refine ⟨?_, ?_⟩
  · intro hgiven
    obtain ⟨bs, mid, hadvance, rfl, rfl⟩ := hgiven
    exact hadvance
  · intro hadvance
    exact ⟨⟨h.bytes, h.size⟩, c', hadvance, rfl, rfl⟩

theorem bytes_exact (n : Nat) : Exact (bytes n) (·.length = n) id := by
  intro c bs c'
  simp only [bytes, bind_ok, pure_ok, exactly_ok, id]
  refine ⟨?_, ?_⟩
  · intro hgiven
    obtain ⟨⟨bs, hlen⟩, mid, hadvance, rfl, rfl⟩ := hgiven
    exact ⟨hlen, hadvance⟩
  · intro hgiven
    obtain ⟨hlen, hadvance⟩ := hgiven
    exact ⟨⟨bs, hlen⟩, c', hadvance, rfl, rfl⟩

/-- Written forms one after the other are read by as many runs of the reader. -/
theorem Exact.times {r : Read α} {fits : α → Prop} {encode : α → Bytes} (h : Exact r fits encode)
    (n : Nat) :
    Exact (times r n) (fun xs => xs.length = n ∧ ∀ x ∈ xs, fits x) (·.flatMap encode) := by
  induction n with
  | zero =>
    intro c xs c'
    simp only [Read.times, pure_ok, List.length_eq_zero_iff]
    refine ⟨?_, ?_⟩
    · intro hgiven
      obtain ⟨rfl, rfl⟩ := hgiven
      exact ⟨⟨rfl, by simp⟩, advance_nil.2 rfl⟩
    · intro hgiven
      obtain ⟨⟨rfl, -⟩, hadvance⟩ := hgiven
      exact ⟨rfl, advance_nil.1 hadvance⟩
  | succ n ih =>
    intro c xs c'
    simp only [Read.times, bind_ok, pure_ok, h _ _ _, ih _ _ _]
    refine ⟨?_, ?_⟩
    · intro hgiven
      obtain ⟨x, mid, ⟨hx, hhead⟩, xs, mid', ⟨⟨rfl, hxs⟩, htail⟩, rfl, rfl⟩ := hgiven
      refine ⟨⟨rfl, ?_⟩, ?_⟩
      · rintro y (_ | ⟨_, hy⟩)
        · exact hx
        · exact hxs y hy
      · rw [List.flatMap_cons]
        exact advance_append.2 ⟨mid, hhead, htail⟩
    · intro hgiven
      obtain ⟨⟨hlen, hfits⟩, hadvance⟩ := hgiven
      cases xs with
      | nil => simp at hlen
      | cons x xs =>
        rw [List.flatMap_cons] at hadvance
        obtain ⟨mid, hhead, htail⟩ := advance_append.1 hadvance
        refine ⟨x, mid, ⟨hfits x (by simp), hhead⟩, xs, c', ⟨⟨?_, ?_⟩, htail⟩, rfl, rfl⟩
        · simpa using hlen
        · exact fun y hy => hfits y (List.mem_cons_of_mem x hy)

end Read

end ChainRules
