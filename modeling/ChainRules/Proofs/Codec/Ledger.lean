import ChainRules.Codec.Block
import ChainRules.Proofs.Codec.CompactSize

/-!
# Transactions and blocks as payloads

A payload is read as a transaction or block if and only if it is the written form of one. The
lengths of lists and scripts are written as 64-bit integers, so values with longer ones have no
written form.
-/

namespace ChainRules

open Cursor (Advance advance_append)
open Read (Exact pure_ok bind_ok word32_exact amount_exact hash_exact)
open CompactSize (encodeList readList readBytes_exact list_exact)

/-- Whether the length of the script is a 64-bit integer. -/
def Input.Fits (i : Input) : Prop :=
  i.script.length < 2 ^ 64

/-- Whether the length of the script is a 64-bit integer. -/
def Output.Fits (o : Output) : Prop :=
  o.script.length < 2 ^ 64

/-- Whether all lengths in the transaction are 64-bit integers. -/
structure Transaction.Fits (tx : Transaction) : Prop where
  inputs : tx.inputs.length < 2 ^ 64 ∧ ∀ i ∈ tx.inputs, i.Fits
  outputs : tx.outputs.length < 2 ^ 64 ∧ ∀ o ∈ tx.outputs, o.Fits

/-- Whether all lengths in the block are 64-bit integers. -/
def Block.Fits (b : Block) : Prop :=
  b.transactions.length < 2 ^ 64 ∧ ∀ tx ∈ b.transactions, tx.Fits

theorem Outpoint.read_exact : Exact Outpoint.read (fun _ => True) Outpoint.encode := by
  intro c o c'
  simp only [Outpoint.read, bind_ok, pure_ok, hash_exact _ _ _, word32_exact _ _ _, true_and,
    Outpoint.encode, advance_append]
  refine ⟨?_, ?_⟩
  · intro hgiven
    obtain ⟨hash, mid, hhash, index, mid', hindex, rfl, rfl⟩ := hgiven
    exact ⟨mid, hhash, hindex⟩
  · intro hgiven
    obtain ⟨mid, hhash, hindex⟩ := hgiven
    exact ⟨o.hash, mid, hhash, o.index, c', hindex, rfl, rfl⟩

theorem Input.read_exact : Exact Input.read Input.Fits Input.encode := by
  intro c i c'
  simp only [Input.read, bind_ok, pure_ok, Outpoint.read_exact _ _ _, readBytes_exact _ _ _,
    word32_exact _ _ _, true_and, Input.encode, advance_append]
  refine ⟨?_, ?_⟩
  · intro hgiven
    obtain ⟨prevout, m₁, hprevout, script, m₂, ⟨hfits, hscript⟩, sequence, m₃, hsequence, rfl,
      rfl⟩ := hgiven
    exact ⟨hfits, m₂, ⟨m₁, hprevout, hscript⟩, hsequence⟩
  · intro hgiven
    obtain ⟨hfits, m₂, ⟨m₁, hprevout, hscript⟩, hsequence⟩ := hgiven
    exact ⟨i.prevout, m₁, hprevout, i.script, m₂, ⟨hfits, hscript⟩, i.sequence, c', hsequence,
      rfl, rfl⟩

theorem Output.read_exact : Exact Output.read Output.Fits Output.encode := by
  intro c o c'
  simp only [Output.read, bind_ok, pure_ok, amount_exact _ _ _, readBytes_exact _ _ _, true_and,
    Output.encode, advance_append]
  refine ⟨?_, ?_⟩
  · intro hgiven
    obtain ⟨value, mid, hvalue, script, mid', ⟨hfits, hscript⟩, rfl, rfl⟩ := hgiven
    exact ⟨hfits, mid, hvalue, hscript⟩
  · intro hgiven
    obtain ⟨hfits, mid, hvalue, hscript⟩ := hgiven
    exact ⟨o.value, mid, hvalue, o.script, c', ⟨hfits, hscript⟩, rfl, rfl⟩

theorem CompactSize.length_encode_pos (n : Nat) : 1 ≤ (CompactSize.encode n).length := by
  rw [CompactSize.length_encode, CompactSize.size]
  split_ifs <;> omega

theorem Input.leastSize_le (i : Input) : Input.leastSize ≤ i.encode.length := by
  have hsize := CompactSize.length_encode_pos i.script.length
  simp only [Input.leastSize, Input.encode, Outpoint.encode, CompactSize.encodeBytes,
    List.length_append, Bytes.length_ofNatLe, i.prevout.hash.size]
  omega

theorem Output.leastSize_le (o : Output) : Output.leastSize ≤ o.encode.length := by
  have hsize := CompactSize.length_encode_pos o.script.length
  simp only [Output.leastSize, Output.encode, CompactSize.encodeBytes, List.length_append,
    Bytes.length_ofNatLe]
  omega

namespace Transaction

theorem leastSize_le (tx : Transaction) : leastSize ≤ tx.encode.length := by
  have hinputs := CompactSize.length_encode_pos tx.inputs.length
  have houtputs := CompactSize.length_encode_pos tx.outputs.length
  simp only [leastSize, encode, List.length_append, Bytes.length_ofNatLe]
  omega

theorem encode_eq (tx : Transaction) :
    tx.encode = Bytes.ofNatLe 4 tx.version.toNat ++ (encodeList Input.encode tx.inputs ++
      (encodeList Output.encode tx.outputs ++ Bytes.ofNatLe 4 tx.lockTime.toNat)) := by
  simp only [encode, encodeList, List.append_assoc]

theorem read_eq :
    read = do
      let version ← Read.word32
      let inputs ← readList Input.read Input.leastSize .input
      let outputs ← readList Output.read Output.leastSize .output
      let lockTime ← Read.word32
      return { version, inputs, outputs, lockTime } := by
  simp only [read, readList, bind_assoc]

theorem read_exact : Exact read Fits encode := by
  intro c tx c'
  have hinputs := list_exact .input Input.read_exact Input.leastSize_le
  have houtputs := list_exact .output Output.read_exact Output.leastSize_le
  simp only [read_eq, bind_ok, pure_ok, word32_exact _ _ _, hinputs _ _ _, houtputs _ _ _, true_and,
    encode_eq, advance_append]
  refine ⟨?_, ?_⟩
  · rintro ⟨version, m₁, hversion, inputs, m₂, ⟨fitsInputs, hinputs⟩, outputs, m₃,
      ⟨fitsOutputs, houtputs⟩, lockTime, m₄, hlockTime, rfl, rfl⟩
    exact ⟨⟨fitsInputs, fitsOutputs⟩, m₁, hversion, m₂, hinputs, m₃, houtputs, hlockTime⟩
  · intro hgiven
    obtain ⟨⟨fitsInputs, fitsOutputs⟩, m₁, hversion, m₂, hinputs, m₃, houtputs, hlockTime⟩ := hgiven
    exact ⟨tx.version, m₁, hversion, tx.inputs, m₂, ⟨fitsInputs, hinputs⟩, tx.outputs, m₃,
      ⟨fitsOutputs, houtputs⟩, tx.lockTime, c', hlockTime, rfl, rfl⟩

/-- A payload is read as a transaction if and only if it is the transaction's written form. -/
theorem decode_eq_ok_iff {payload : Bytes} {tx : Transaction} :
    decode payload = .ok tx ↔ tx.Fits ∧ payload = tx.encode :=
  read_exact.whole_eq_ok_iff

/-- The written form of a transaction shows where it ends. -/
theorem encode_append_inj {tx tx' : Transaction} {a b : Bytes} (h : tx.Fits) (h' : tx'.Fits)
    (heq : tx.encode ++ a = tx'.encode ++ b) : tx = tx' ∧ a = b :=
  read_exact.append_inj h h' heq

end Transaction

theorem Header.read_exact : Exact Header.read (fun _ => True) Header.encode := by
  intro c h c'
  simp only [Header.read, bind_ok, pure_ok, hash_exact _ _ _, word32_exact _ _ _, true_and,
    Header.encode, advance_append]
  refine ⟨?_, ?_⟩
  · rintro ⟨version, m₁, hversion, previous, m₂, hprevious, merkleRoot, m₃, hmerkleRoot, timestamp,
      m₄, htimestamp, bits, m₅, hbits, nonce, m₆, hnonce, rfl, rfl⟩
    exact ⟨m₅, ⟨m₄, ⟨m₃, ⟨m₂, ⟨m₁, hversion, hprevious⟩, hmerkleRoot⟩, htimestamp⟩, hbits⟩, hnonce⟩
  · intro hgiven
    obtain ⟨m₅, ⟨m₄, ⟨m₃, ⟨m₂, ⟨m₁, hversion, hprevious⟩, hmerkleRoot⟩, htimestamp⟩, hbits⟩,
      hnonce⟩ := hgiven
    exact ⟨h.version, m₁, hversion, h.previous, m₂, hprevious, h.merkleRoot, m₃, hmerkleRoot,
      h.timestamp, m₄, htimestamp, h.bits, m₅, hbits, h.nonce, c', hnonce, rfl, rfl⟩

namespace Block

theorem encode_eq (b : Block) :
    b.encode = b.header.encode ++ encodeList Transaction.encode b.transactions := by
  simp only [encode, encodeList, List.append_assoc]

theorem read_eq :
    read = do
      let header ← Header.read
      let transactions ← readList Transaction.read Transaction.leastSize .transaction
      return { header, transactions } := by
  simp only [read, readList, bind_assoc]

theorem read_exact : Exact read Fits encode := by
  intro c b c'
  have htxs := list_exact .transaction Transaction.read_exact Transaction.leastSize_le
  simp only [read_eq, bind_ok, pure_ok, Header.read_exact _ _ _, htxs _ _ _, true_and, encode_eq,
    advance_append]
  refine ⟨?_, ?_⟩
  · intro hgiven
    obtain ⟨header, m₁, hheader, txs, m₂, ⟨hfits, htxs⟩, rfl, rfl⟩ := hgiven
    exact ⟨hfits, m₁, hheader, htxs⟩
  · intro hgiven
    obtain ⟨hfits, m₁, hheader, htxs⟩ := hgiven
    exact ⟨b.header, m₁, hheader, b.transactions, c', ⟨hfits, htxs⟩, rfl, rfl⟩

/-- A payload is read as a block if and only if it is the block's written form. -/
theorem decode_eq_ok_iff {payload : Bytes} {b : Block} :
    decode payload = .ok b ↔ b.Fits ∧ payload = b.encode :=
  read_exact.whole_eq_ok_iff

end Block

end ChainRules
