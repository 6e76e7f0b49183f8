import Mathlib
import ChainRules.Proofs.Chain.Contents
import ChainRules.Proofs.Codec.Ledger

/-!
# Blocks and transactions under one id

A store keeps blocks and transactions under the same kind of id, a hash of their binary forms, which
do not tell the one from the other. The 80 bytes of a header are the binary form of a transaction as
well if a transaction takes exactly 80 bytes; then, and only then, one of the two is refused for the
other, unless the hash collides.
-/

namespace ChainRules

namespace Header

/-- The header that 80 bytes spell. -/
def ofBytes (bs : Bytes) (h : bs.length = 80) : Header where
  version := .ofNat (Bytes.toNatLe (bs.take 4))
  previous := ⟨(bs.drop 4).take 32, by simp [h]⟩
  merkleRoot := ⟨(bs.drop 36).take 32, by simp [h]⟩
  timestamp := .ofNat (Bytes.toNatLe ((bs.drop 68).take 4))
  bits := .ofNat (Bytes.toNatLe ((bs.drop 72).take 4))
  nonce := .ofNat (Bytes.toNatLe (bs.drop 76))

/-- Every string of 80 bytes is the binary form of a header. -/
theorem encode_ofBytes (bs : Bytes) (h : bs.length = 80) : (ofBytes bs h).encode = bs := by
  have hjoin : ∀ n k, (bs.drop n).take k ++ bs.drop (n + k) = bs.drop n := by
    intro n k
    rw [← List.drop_drop, List.take_append_drop]
  simp only [encode, ofBytes]
  rw [Bytes.ofNatLe_word32 (by simp [h]), Bytes.ofNatLe_word32 (by simp [h]),
    Bytes.ofNatLe_word32 (by simp [h]), Bytes.ofNatLe_word32 (by simp [h])]
  simp only [List.append_assoc]
  rw [hjoin 72 4, hjoin 68 4, hjoin 36 32, hjoin 4 32, List.take_append_drop]

theorem encode_inj {a b : Header} : a.encode = b.encode ↔ a = b := by
  refine ⟨fun heq => ?_, congrArg encode⟩
  have happend : a.encode ++ [] = b.encode ++ [] := by rw [heq]
  exact (read_exact.append_inj trivial trivial happend).1

theorem eq_encode_iff {bs : Bytes} {header : Header} :
    bs = header.encode ↔ ∃ h : bs.length = 80, header = ofBytes bs h := by
  refine ⟨?_, ?_⟩
  · rintro rfl
    exact ⟨header.length_encode, encode_inj.1 (encode_ofBytes _ _).symm⟩
  · rintro ⟨h, rfl⟩
    exact (encode_ofBytes bs h).symm

end Header

namespace Chain

namespace Store

/-- The store refuses an entry because it keeps another one under the same id. -/
def Refuses (s : Store) (e old : Entry) : Prop :=
  s.get? e.id = some old ∧ s.put e = .error (.conflict (.entry e.kind e.id))

/-- The store after entries were offered to it one after the other. One that is refused changes
nothing. -/
def offered (s : Store) (es : List Entry) : Store :=
  es.foldl (fun s e => (s.put e).toOption.getD s) s

variable {s t : Store} {e old : Entry}

theorem refuses_iff : s.Refuses e old ↔ s.get? e.id = some old ∧ old ≠ e := by
  unfold Refuses put
  refine and_congr_right fun hold => ?_
  rw [hold]
  by_cases hsame : old = e
  · simp [hsame]
  · simp [hsame]

theorem Keyed.offered (hs : s.Keyed) (es : List Entry) : (s.offered es).Keyed := by
  induction es generalizing s with
  | nil => exact hs
  | cons e es ih =>
    have hstep : ((s.put e).toOption.getD s).Keyed := by
      cases hput : s.put e with
      | ok t => exact hs.put hput
      | error fault => exact hs
    exact ih hstep

/-- An entry that was stored is in the way of every other one with its id. -/
theorem refuses_of_put (hput : s.put old = .ok t) (hid : old.id = e.id) (hne : old ≠ e) :
    t.Refuses e old := by
  refine refuses_iff.2 ⟨?_, hne⟩
  rw [← hid]
  exact get?_put_self hput

end Store

/-- A transaction of 80 bytes. -/
def eightyBytes : Transaction :=
  ⟨1, [⟨⟨.one, 0⟩, [], 0xffffffff⟩], [⟨1000, List.replicate 20 0⟩], 0⟩

/-- A block whose header they spell. -/
def spelledBlock : Block where
  header :=
    { version := 1
      previous := ⟨[1, 1] ++ List.replicate 30 0, rfl⟩
      merkleRoot := ⟨List.replicate 6 0 ++ [0xff, 0xff, 0xff, 0xff, 1, 0xe8, 3] ++
        List.replicate 6 0 ++ [20] ++ List.replicate 12 0, rfl⟩
      timestamp := 0
      bits := 0
      nonce := 0 }
  transactions := []

theorem eightyBytes_encode : eightyBytes.encode = spelledBlock.header.encode := by
  decide

/-- A transaction that keeps the rules for single transactions may share its id with a block, in
which case neither can be stored after the other. -/
theorem id_shared :
    eightyBytes.check = .ok () ∧ eightyBytes.encode = spelledBlock.header.encode ∧
    (∃ s, Store.empty.put (.transaction eightyBytes) = .ok s ∧
      s.put (.block spelledBlock) = .error (.conflict (.entry .block spelledBlock.id))) ∧
    ∃ s, Store.empty.put (.block spelledBlock) = .ok s ∧
      s.put (.transaction eightyBytes) = .error (.conflict (.entry .transaction eightyBytes.id)) := by
  have hid : (Entry.transaction eightyBytes).id = (Entry.block spelledBlock).id :=
    congrArg Digest.hash256 eightyBytes_encode
  refine ⟨rfl, eightyBytes_encode, ⟨_, rfl, ?_⟩, ⟨_, rfl, ?_⟩⟩
  · exact (Store.refuses_of_put (s := Store.empty) rfl hid nofun).2
  · exact (Store.refuses_of_put (s := Store.empty) rfl hid.symm nofun).2

/-- A transaction and a block share the byte string that their ids are hashes of exactly if the
transaction takes 80 bytes and the block has the header that they spell; then each is refused after
the other was stored. Otherwise neither is ever refused for the other, if the two strings do not
collide. -/
theorem kinds_apart (tx : Transaction) (b : Block) :
    (tx.encode = b.header.encode ↔
      ∃ h : tx.encode.length = 80, b.header = Header.ofBytes tx.encode h) ∧
    (tx.encode = b.header.encode → ∀ s t : Store,
      (s.put (.transaction tx) = .ok t → t.Refuses (.block b) (.transaction tx)) ∧
      (s.put (.block b) = .ok t → t.Refuses (.transaction tx) (.block b))) ∧
    (tx.encode ≠ b.header.encode → Set.InjOn Digest.hash256 {tx.encode, b.header.encode} →
      ∀ es : List Entry,
        ¬(Store.empty.offered es).Refuses (.block b) (.transaction tx) ∧
        ¬(Store.empty.offered es).Refuses (.transaction tx) (.block b)) := by
  refine ⟨Header.eq_encode_iff, fun hsame s t => ?_, fun hapart hhash es => ?_⟩
  · have hid : (Entry.transaction tx).id = (Entry.block b).id := congrArg Digest.hash256 hsame
    exact ⟨fun hput => Store.refuses_of_put hput hid nofun,
      fun hput => Store.refuses_of_put hput hid.symm nofun⟩
  · have hid : tx.id ≠ b.id := fun heq => hapart (hhash (by simp) (by simp) heq)
    have hkeyed := Store.keyed_empty.offered es
    exact ⟨fun hrefused => hid (hkeyed.id_eq hrefused.1),
      fun hrefused => hid (hkeyed.id_eq hrefused.1).symm⟩

theorem kinds_apart_samples :
    let tx : Transaction := ⟨1, [⟨⟨.zero, 0xffffffff⟩, [], 0⟩], [⟨50, [0x51]⟩], 0⟩
    let b : Block := ⟨⟨1, .zero, .zero, 0, 0, 0⟩, [tx]⟩
    (∃ s, Store.empty.put (.transaction eightyBytes) = .ok s ∧
      s.Refuses (.block spelledBlock) (.transaction eightyBytes)) ∧
    tx.encode ≠ b.header.encode ∧ Set.InjOn Digest.hash256 {tx.encode, b.header.encode} ∧
    ∀ es : List Entry, ¬(Store.empty.offered es).Refuses (.block b) (.transaction tx) ∧
      ¬(Store.empty.offered es).Refuses (.transaction tx) (.block b) := by
  intro tx b
  have hapart : tx.encode ≠ b.header.encode := by decide
  have hhash : Set.InjOn Digest.hash256 {tx.encode, b.header.encode} := by
    have hdistinct : ([tx.encode, b.header.encode].map Digest.hash256).Nodup := by decide +kernel
    intro bs hbs bs' hbs' heq
    exact List.inj_on_of_nodup_map hdistinct (by simpa using hbs) (by simpa using hbs') heq
  refine ⟨⟨_, rfl, ?_⟩, hapart, hhash, (kinds_apart tx b).2.2 hapart hhash⟩
  exact ((kinds_apart eightyBytes spelledBlock).2.1 eightyBytes_encode Store.empty _).1 rfl

end Chain

end ChainRules
