import ChainRules.Proofs.Codec.Payload
import ChainRules.Proofs.Peer.Command

/-!
# Messages that are understood

A command field and a payload are read as a value exactly if the field is that of the value's command
and the payload is the value's written form. Of the other messages, those whose field spells a name
that carries nothing are unsupported, and the rest are malformed.
-/

namespace ChainRules.Peer

open Cursor (advance_append)
open Read (Exact bind_ok pure_ok word32_exact hash_exact)

/-! ## Inventories -/

/-- Where there is no reason to refuse, a reading goes on as it is. -/
theorem refuse_ok {α : Type} {refused : Prop} [Decidable refused] {cause : Malformed} {r : Read α}
    {x : α} {c c' : Cursor} :
    (do if refused then throw cause
        r : Read α) c = .ok x c' ↔ ¬refused ∧ r c = .ok x c' := by
  by_cases h : refused
  · simp only [h, not_true_eq_false, false_and, iff_false]
    intro hread
    cases hread
  · simp only [h, not_false_eq_true, true_and]
    rfl

theorem InventoryEntry.length_encode (e : InventoryEntry) : e.encode.length = size := by
  rw [encode, List.length_append, Bytes.length_ofNatLe, e.hash.size]
  rfl

theorem InventoryEntry.read_exact : Exact read (fun _ => True) encode := by
  intro c e c'
  simp only [read, encode, bind_ok, pure_ok, word32_exact _ _ _, hash_exact _ _ _, true_and,
    advance_append]
  constructor
  · rintro ⟨kind, mid, hkind, hash, mid', hhash, rfl, rfl⟩
    exact ⟨mid, hkind, hhash⟩
  · rintro ⟨mid, hkind, hhash⟩
    exact ⟨e.kind, mid, hkind, e.hash, c', hhash, rfl, rfl⟩

namespace Inventory

theorem length_entries (inventory : Inventory) :
    (inventory.flatMap InventoryEntry.encode).length = inventory.length * InventoryEntry.size := by
  induction inventory with
  | nil => simp
  | cons e inventory ih =>
    rw [List.flatMap_cons, List.length_append, ih, e.length_encode, List.length_cons]
    ring

/-- An inventory is read where its written form stands, unless it is too long. -/
theorem read_exact : Exact read (·.length ≤ limit) encode := by
  intro c inventory c'
  have hget : ∀ (f : Cursor → Read Inventory) (c : Cursor), (get >>= f) c = f c c :=
    fun _ _ => rfl
  simp only [read, encode, bind_ok, CompactSize.read_exact _ _ _, advance_append, refuse_ok, hget,
    InventoryEntry.read_exact.times _ _ _ _]
  constructor
  · rintro ⟨count, mid, ⟨-, hcount⟩, hlimit, -, ⟨rfl, -⟩, hentries⟩
    exact ⟨Nat.le_of_not_lt hlimit, mid, hcount, hentries⟩
  · rintro ⟨hlimit, mid, hcount, hentries⟩
    have hcovers : mid.rest.covers (inventory.length * InventoryEntry.size) = true := by
      rw [Bytes.covers_iff, hentries.rest, List.length_append, length_entries]
      exact Nat.le_add_right _ _
    have hsize : limit < 2 ^ 64 := by decide
    refine ⟨inventory.length, mid, ⟨hlimit.trans_lt hsize, hcount⟩, Nat.not_lt.2 hlimit, ?_,
      ⟨rfl, fun _ _ => trivial⟩, hentries⟩
    rw [hcovers]
    decide

/-- A payload is read as an inventory if and only if it is the written form of one that is not too
long. -/
theorem decode_eq_ok_iff {payload : Bytes} {inventory : Inventory} :
    decode payload = .ok inventory ↔ inventory.length ≤ limit ∧ payload = inventory.encode :=
  read_exact.whole_eq_ok_iff

end Inventory

namespace Payload

/-- What a payload of a message is the written form of. -/
inductive Written : Payload → Bytes → Prop where
  | block (b : Block) : Written (.block b) b.encode
  | transaction (tx : Transaction) : Written (.transaction tx) tx.encode
  | inventory (entries : Inventory) (short : entries.length ≤ Inventory.limit) :
    Written (.inventory entries) entries.encode
  | request (entries : Inventory) (short : entries.length ≤ Inventory.limit) :
    Written (.request entries) entries.encode

/-- The names of the commands that carry something. -/
def commands : List String := ["block", "tx", "inv", "getdata"]

theorem command_mem (v : Payload) : v.command ∈ commands := by
  cases v <;> simp [command, commands]

theorem reading_eq_ok_iff {α : Type} {f : α → Payload} {r : Except Malformed α} {v : Payload} :
    reading f r = .ok v ↔ ∃ x, r = .ok x ∧ v = f x := by
  cases r with
  | ok x => simp [reading, eq_comm]
  | error cause => simp [reading]

theorem reading_eq_error {α : Type} {f : α → Payload} {r : Except Malformed α} {fault : Fault}
    (h : reading f r = .error fault) : ∃ cause, fault = .malformed cause := by
  cases r with
  | ok x => cases h
  | error cause =>
    cases h
    exact ⟨cause, rfl⟩

/-! Each command has one reader, which answers with what it finds the written form of. -/

theorem block_written_iff {payload : Bytes} (h : payload.length < 2 ^ 64) (b : Block) :
    Block.decode payload = .ok b ↔ (block b).Written payload := by
  rw [Block.decode_eq_ok_iff]
  constructor
  · rintro ⟨-, rfl⟩
    exact .block b
  · rintro ⟨⟩
    exact ⟨Block.fits_of_length h, rfl⟩

theorem transaction_written_iff {payload : Bytes} (h : payload.length < 2 ^ 64)
    (tx : Transaction) :
    Transaction.decode payload = .ok tx ↔ (transaction tx).Written payload := by
  rw [Transaction.decode_eq_ok_iff]
  constructor
  · rintro ⟨-, rfl⟩
    exact .transaction tx
  · rintro ⟨⟩
    exact ⟨Transaction.fits_of_length h, rfl⟩

/-- Offers and requests have the same written form. -/
theorem entries_written_iff {f : Inventory → Payload} (hf : f = inventory ∨ f = request)
    {payload : Bytes} (entries : Inventory) :
    Inventory.decode payload = .ok entries ↔ (f entries).Written payload := by
  rw [Inventory.decode_eq_ok_iff]
  constructor
  · rintro ⟨hshort, rfl⟩
    rcases hf with rfl | rfl
    · exact .inventory entries hshort
    · exact .request entries hshort
  · intro hwritten
    rcases hf with rfl | rfl
    all_goals
      obtain ⟨⟩ := hwritten
      exact ⟨‹_›, rfl⟩

/-- The payloads of one command are what its reader answers with. -/
theorem reading_written_iff {α : Type} {f : α → Payload} {r : Except Malformed α} {name : String}
    {payload : Bytes} {v : Payload} (hcommand : ∀ v : Payload, v.command = name ↔ ∃ x, v = f x)
    (hwritten : ∀ x, r = .ok x ↔ (f x).Written payload) :
    reading f r = .ok v ↔ name = v.command ∧ v.Written payload := by
  rw [reading_eq_ok_iff, eq_comm (a := name), hcommand]
  constructor
  · rintro ⟨x, hx, rfl⟩
    exact ⟨⟨x, rfl⟩, (hwritten x).1 hx⟩
  · rintro ⟨⟨x, rfl⟩, hx⟩
    exact ⟨x, (hwritten x).2 hx, rfl⟩

/-- The name in the field decides what a payload can be the written form of. -/
theorem decode_eq_ok_iff {field : CommandField} {payload : Bytes}
    (h : payload.length < 2 ^ 64) {v : Payload} :
    decode field payload = .ok v ↔ field.name = .ok v.command ∧ v.Written payload := by
  unfold decode
  cases hname : field.name with
  | error cause => simp
  | ok name =>
    dsimp only
    rw [Except.ok.injEq]
    by_cases hblock : name = "block"
    · rw [if_pos hblock, hblock]
      exact reading_written_iff (by rintro ⟨⟩ <;> simp [command]) (block_written_iff h)
    rw [if_neg hblock]
    by_cases htransaction : name = "tx"
    · rw [if_pos htransaction, htransaction]
      exact reading_written_iff (by rintro ⟨⟩ <;> simp [command]) (transaction_written_iff h)
    rw [if_neg htransaction]
    by_cases hinventory : name = "inv"
    · rw [if_pos hinventory, hinventory]
      exact reading_written_iff (by rintro ⟨⟩ <;> simp [command]) (entries_written_iff (.inl rfl))
    rw [if_neg hinventory]
    by_cases hrequest : name = "getdata"
    · rw [if_pos hrequest, hrequest]
      exact reading_written_iff (by rintro ⟨⟩ <;> simp [command]) (entries_written_iff (.inr rfl))
    rw [if_neg hrequest]
    have hunknown : name ∉ commands := by
      simp [commands, hblock, htransaction, hinventory, hrequest]
    simp only [reduceCtorEq, false_iff, not_and]
    rintro rfl
    exact absurd v.command_mem hunknown

/-- A message whose field spells a name that carries nothing is unsupported. -/
theorem decode_unsupported {field : CommandField} (payload : Bytes) {name : String}
    (hname : field.name = .ok name) (hunknown : name ∉ commands) :
    decode field payload = .error (.unsupported (.command name)) := by
  simp only [commands, List.mem_cons, List.not_mem_nil, or_false, not_or] at hunknown
  obtain ⟨hblock, htransaction, hinventory, hrequest⟩ := hunknown
  unfold decode
  rw [hname]
  dsimp only
  rw [if_neg hblock, if_neg htransaction, if_neg hinventory, if_neg hrequest]

/-- A message that could be understood by its name, or has none, is malformed if it is not read. -/
theorem decode_malformed {field : CommandField} {payload : Bytes} {fault : Fault}
    (hknown : ∀ name, field.name = .ok name → name ∈ commands)
    (h : decode field payload = .error fault) : ∃ cause, fault = .malformed cause := by
  unfold decode at h
  cases hname : field.name with
  | error cause =>
    rw [hname] at h
    cases h
    exact ⟨cause, rfl⟩
  | ok name =>
    have hmem := hknown name hname
    rw [hname] at h
    dsimp only at h
    simp only [commands, List.mem_cons, List.not_mem_nil, or_false] at hmem
    rcases hmem with rfl | rfl | rfl | rfl
    all_goals exact reading_eq_error h

/-- Reading messages is inverse to writing them: a field and a payload are read as a value exactly
if the field is that of its command and the payload its written form. A name that carries nothing is
unsupported, and every other message is malformed. -/
theorem decode_classified (field : CommandField) {payload : Bytes}
    (h : payload.length < 2 ^ 64) :
    (∀ v, decode field payload = .ok v ↔
      CommandField.ofName v.command = .ok field ∧ v.Written payload) ∧
    (∀ cause, decode field payload = .error (.unsupported cause) ↔
      ∃ text, field.Spells text ∧ CommandField.nameOf text ∉ commands ∧
        cause = .command (CommandField.nameOf text)) ∧
    ((∃ cause, decode field payload = .error (.malformed cause)) ↔
      (∀ v : Payload, ¬ (CommandField.ofName v.command = .ok field ∧ v.Written payload)) ∧
      ∀ text, field.Spells text → CommandField.nameOf text ∈ commands) := by
  have hread : ∀ v, decode field payload = .ok v ↔
      CommandField.ofName v.command = .ok field ∧ v.Written payload := by
    intro v
    rw [decode_eq_ok_iff h, CommandField.name_eq_ok_iff_ofName]
  have hknown : (∀ text, field.Spells text → CommandField.nameOf text ∈ commands) →
      ∀ name, field.name = .ok name → name ∈ commands := by
    intro hmem name hname
    obtain ⟨text, hspells, rfl⟩ := CommandField.name_eq_ok_iff.1 hname
    exact hmem text hspells
  have hunknown : ∀ text, field.Spells text → CommandField.nameOf text ∉ commands →
      decode field payload = .error (.unsupported (.command (CommandField.nameOf text))) := by
    intro text hspells hmem
    exact decode_unsupported payload (CommandField.name_eq_ok_iff.2 ⟨text, hspells, rfl⟩) hmem
  refine ⟨hread, fun cause => ?_, ?_⟩
  · constructor
    · intro herror
      by_cases hall : ∀ text, field.Spells text → CommandField.nameOf text ∈ commands
      · obtain ⟨_, hmalformed⟩ := decode_malformed (hknown hall) herror
        cases hmalformed
      · push Not at hall
        obtain ⟨text, hspells, hmem⟩ := hall
        rw [hunknown text hspells hmem] at herror
        cases herror
        exact ⟨text, hspells, hmem, rfl⟩
    · rintro ⟨text, hspells, hmem, rfl⟩
      exact hunknown text hspells hmem
  · constructor
    · rintro ⟨cause, herror⟩
      refine ⟨fun v hv => ?_, fun text hspells => ?_⟩
      · rw [(hread v).2 hv] at herror
        cases herror
      · by_contra hmem
        rw [hunknown text hspells hmem] at herror
        cases herror
    · rintro ⟨hnone, hall⟩
      cases hdecode : decode field payload with
      | ok v => exact absurd ((hread v).1 hdecode) (hnone v)
      | error fault =>
        obtain ⟨cause, rfl⟩ := decode_malformed (hknown hall) hdecode
        exact ⟨cause, rfl⟩

/-- One entry that is offered is read under the name for that, and not under another. -/
theorem decode_classified_offer :
    let offer : Inventory := [.block ⟨List.replicate 32 7, List.length_replicate⟩]
    decode ⟨[0x69, 0x6e, 0x76, 0, 0, 0, 0, 0, 0, 0, 0, 0], rfl⟩ offer.encode =
        .ok (.inventory offer) ∧
      decode ⟨[0x70, 0x69, 0x6e, 0x67, 0, 0, 0, 0, 0, 0, 0, 0], rfl⟩ offer.encode =
        .error (.unsupported (.command "ping")) := by
  intro offer
  have hlength : offer.encode.length = 37 := by
    rw [Inventory.encode, List.length_append, Inventory.length_entries]
    rfl
  have hsize : offer.encode.length < 2 ^ 64 := by
    rw [hlength]
    decide
  exact ⟨((decode_classified _ hsize).1 _).2 ⟨by decide, .inventory offer (by decide)⟩,
    ((decode_classified _ hsize).2.1 _).2
      ⟨[0x70, 0x69, 0x6e, 0x67], ⟨List.all_eq_true.1 rfl, rfl⟩, by decide, by decide⟩⟩

end Payload

end ChainRules.Peer
