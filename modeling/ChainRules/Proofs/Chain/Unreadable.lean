import ChainRules.Proofs.Chain.Commit
import ChainRules.Proofs.Chain.Judgement
import ChainRules.Proofs.Codec.Payload

/-!
# Payloads that cannot be read

That a payload cannot be read is said of it if and only if it is too long or the written form of
nothing. The payload of a block is read while its predecessor is looked for: whatever comes of the
look-up, and even if the token is cancelled in it, a payload that cannot be read is at fault. And no
rule that is checked afterwards, and nothing in the store, makes a payload out to be unreadable.
-/

namespace ChainRules

/-- The answer is that the payload cannot be read. -/
def Verdict.Unreadable (v : Verdict) : Prop :=
  ∃ text, v = .messageInvalid text

theorem Fault.unreadable_iff {fault : Fault} :
    fault.verdict.Unreadable ↔ ∃ cause, fault = .malformed cause := by
  unfold Verdict.Unreadable
  cases fault with
  | malformed cause => exact ⟨fun _ => ⟨cause, rfl⟩, fun _ => ⟨cause.message, rfl⟩⟩
  | script cause => cases cause <;> simp [Fault.verdict]
  | _ => simp [Fault.verdict]

namespace Chain

/-- The result is not the failure to read something. -/
def Legible {α : Type} (x : Except Fault α) : Prop :=
  ∀ cause, x ≠ .error (.malformed cause)

namespace Legible

variable {α β : Type}

theorem ok (a : α) : Legible (.ok a) := nofun

theorem error {fault : Fault} (h : ∀ cause, fault ≠ .malformed cause) :
    Legible (.error fault : Except Fault α) := by
  intro cause heq
  exact h cause (Except.error.inj heq)

/-- A broken rule is nothing that cannot be read. -/
theorem refused (cause : Violation) : Legible (.error (.invalid cause) : Except Fault α) :=
  error (by simp)

theorem invalid (x : Except Violation α) : Legible (x.mapError .invalid) := by
  cases x with
  | error cause => exact refused cause
  | ok a => exact ok a

theorem bind {x : Except Fault α} {f : α → Except Fault β} (hx : Legible x)
    (hf : ∀ a, Legible (f a)) : Legible (x >>= f) := by
  cases x with
  | error fault => exact fun cause heq => hx cause (congrArg _ (Except.error.inj heq))
  | ok a => exact hf a

theorem forM {xs : List α} {f : α → Except Fault Unit} (hf : ∀ a, Legible (f a)) :
    Legible (xs.forM f) := by
  induction xs with
  | nil => exact ok ()
  | cons a xs ih => exact (hf a).bind fun _ => ih

end Legible

theorem checkMerkleRoot_legible (header : Header) (txs : List Identified) :
    Legible (checkMerkleRoot header txs) := by
  have hroot : Legible (Merkle.rootOf (txs.map Identified.id)) := by
    unfold Merkle.rootOf
    cases txs.map Identified.id with
    | nil => exact .error (by simp)
    | cons id ids => exact .ok _
  refine hroot.bind fun root => ?_
  split
  · exact .refused _
  · exact .ok ()

theorem verifyAll_legible (spends : List Spend) : Legible (verifyAll spends) := by
  refine .forM fun spend => ?_
  unfold Spend.verify
  dsimp only
  cases Script.spend (Signature.inputChecker spend.tx spend.inputIndex) .never
    ((spend.tx.inputs[spend.inputIndex]?.map Input.script).getD []) spend.output.script with
  | ok answer m =>
    cases answer with
    | true => exact .ok ()
    | false => exact .refused _
  | error cause m =>
    dsimp only
    split
    · exact .error (by simp)
    · exact .refused _

namespace Ledger

variable {l : Ledger} {settings : Settings}

theorem heightOf_legible (l : Ledger) (header : Header) : Legible (l.heightOf header) := by
  unfold heightOf
  split
  · exact .ok 0
  · split
    · split
      · exact .ok _
      · exact .refused _
    · exact .refused _

theorem resolve_legible (l : Ledger) (txs : List Identified) : Legible (l.resolve txs) :=
  (Legible.invalid _).bind fun _ => .invalid _

theorem judgeAt_legible (l : Ledger) (settings : Settings) (b : Block) (height : Nat) :
    Legible (l.judgeAt settings b height) := by
  have hcontents : Legible (checkContents b) :=
    (Legible.invalid _).bind fun _ => checkMerkleRoot_legible _ _
  refine (Legible.invalid _).bind fun _ => hcontents.bind fun _ => ?_
  exact (l.resolve_legible _).bind fun spends => (verifyAll_legible spends).bind fun _ => .ok _

/-- The judgement on a payload that can be read is about what it says. -/
theorem judge_payload_legible {bytes : Bytes} (hsize : bytes.length ≤ settings.maxBlockSize)
    {b : Block} (hb : Block.decode bytes = .ok b) :
    Legible (l.judge settings (.payload bytes)) := by
  obtain ⟨hfits, rfl⟩ := Block.decode_eq_ok_iff.1 hb
  have hread : readBlock b.encode = .ok b := readBlock_eq_ok_iff.2 ⟨hfits, rfl⟩
  rw [judge, if_neg (Nat.not_lt.2 hsize), leadingHeader_encode, hread]
  exact (l.heightOf_legible b.header).bind fun height => l.judgeAt_legible settings b height

theorem judge_transaction_legible {bytes : Bytes} {tx : Transaction}
    (htx : Transaction.decode bytes = .ok tx) :
    Legible (l.judge settings (.transaction bytes)) := by
  rw [judge, htx]
  refine (Legible.invalid _).bind fun _ => ?_
  split
  · exact .refused _
  · exact (l.resolve_legible _).bind fun spends => (verifyAll_legible spends).bind fun _ => .ok _

/-- What is refused by the store or the height index is in conflict with what they contain. -/
theorem keep_legible (l : Ledger) (candidate : Candidate) : Legible (l.keep candidate).1 := by
  have hputAll : ∀ (es : List Entry) (s : Store), Legible (s.putAll es).1 := by
    intro es
    induction es with
    | nil => exact fun s => .ok ()
    | cons e es ih =>
      intro s
      unfold Store.putAll
      cases hput : s.put e with
      | ok t => exact ih t
      | error fault =>
        refine .error fun cause heq => ?_
        subst heq
        unfold Store.put at hput
        split at hput
        · cases hput
        · split at hput <;> cases hput
  have hall := hputAll candidate.entries l.store
  unfold keep
  cases hstored : l.store.putAll candidate.entries with
  | mk result store =>
    rw [hstored] at hall
    cases result with
    | error fault => exact .error fun cause heq => hall cause (congrArg _ heq)
    | ok u =>
      cases candidate with
      | transaction tx => exact .ok ()
      | block b height =>
        dsimp only
        cases hrecord : l.heights.record b.id height with
        | ok heights => exact .ok ()
        | error fault =>
          refine .error fun cause heq => ?_
          subst heq
          unfold Heights.record at hrecord
          split at hrecord
          · cases hrecord
          · split at hrecord <;> cases hrecord

/-- A call whose judgement is not that its payload cannot be read does not say so either, whether or
not its token stops it. -/
theorem not_unreadable_of_legible {c : Call} (h : Legible (l.judge c.settings c.request)) :
    ¬(l.call c).1.verdict.Unreadable := by
  have hserved : Legible (l.serve c.settings c.request).1 := by
    unfold Ledger.serve
    cases hjudged : l.judge c.settings c.request with
    | error fault => exact .error fun cause heq => h cause (by rw [hjudged, heq])
    | ok candidate => exact l.keep_legible candidate
  rcases l.call_cases c with ⟨-, hcancelled, -⟩ | ⟨hverdict, -⟩
  · rw [hcancelled]
    exact fun hunreadable => by cases hunreadable.choose_spec
  · rw [hverdict]
    cases hresult : (l.serve c.settings c.request).1 with
    | ok u => exact fun hunreadable => by cases hunreadable.choose_spec
    | error fault =>
      intro hunreadable
      obtain ⟨cause, rfl⟩ := Fault.unreadable_iff.1 hunreadable
      exact hserved cause hresult

end Ledger

/-! ## Examinations of payloads that cannot be read -/

theorem poll_of_alive {s : Session} (h : s.token.isCancelled = false) :
    Run.poll s = .ok () { s with token := s.token.polled } := by
  simp [Run.poll, h]

/-- What cannot be read is found out whatever the look-up of the predecessor comes to. -/
theorem examinePayload_unreadable {settings : Settings} {bytes : Bytes} {s : Session}
    (halive : s.token.isCancelled = false)
    (h : settings.maxBlockSize < bytes.length ∨ ∀ b, Block.decode bytes ≠ .ok b) :
    ∃ cause t, examinePayload settings bytes s = .error (.malformed cause) t ∧ s.Keeps t := by
  have hpolled : s.Keeps { s with token := s.token.polled } := .withToken s.token.ages_polled
  unfold examinePayload
  rw [Run.bind_ok (poll_of_alive halive)]
  by_cases hsize : settings.maxBlockSize < bytes.length
  · rw [if_pos hsize]
    exact ⟨_, _, rfl, hpolled⟩
  · rw [if_neg hsize]
    obtain ⟨malformed, hmalformed⟩ : ∃ cause, readBlock bytes = .error (.malformed cause) := by
      unfold readBlock
      cases hdecode : Block.decode bytes with
      | ok b => exact absurd hdecode (h.resolve_left hsize b)
      | error cause => exact ⟨cause, rfl⟩
    cases hheader : leadingHeader bytes with
    | error fault =>
      obtain ⟨cause, rfl⟩ : ∃ cause, fault = .malformed cause := by
        unfold leadingHeader at hheader
        split at hheader
        · cases hheader
        · exact ⟨_, (Except.error.inj hheader).symm⟩
      exact ⟨cause, _, rfl, hpolled⟩
    | ok header =>
      obtain ⟨t, result, hkeeps, hattempt, -⟩ :=
        (heightOf_observes header).attempt { s with token := s.token.polled }
      refine ⟨malformed, t, ?_, hpolled.trans hkeeps⟩
      exact (Run.bind_ok hattempt).trans (by rw [hmalformed]; rfl)

theorem examineTransaction_unreadable {settings : Settings} {bytes : Bytes} {s : Session}
    (halive : s.token.isCancelled = false) (h : ∀ tx, Transaction.decode bytes ≠ .ok tx) :
    ∃ cause t, examineTransaction settings bytes s = .error (.malformed cause) t ∧ s.Keeps t := by
  unfold examineTransaction
  rw [Run.bind_ok (poll_of_alive halive)]
  cases hdecode : Transaction.decode bytes with
  | ok tx => exact absurd hdecode (h tx)
  | error cause => exact ⟨cause, _, rfl, .withToken s.token.ages_polled⟩

namespace Ledger

/-- A call whose examination ends with the failure to read its payload says so and changes nothing. -/
theorem unreadable_of_examine {l : Ledger} {c : Call}
    (h : ∃ cause t, c.request.examine c.settings (l.session c) = .error (.malformed cause) t ∧
      (l.session c).Keeps t) : (l.call c).1.verdict.Unreadable ∧ (l.call c).2 = l := by
  obtain ⟨cause, t, hexamined, hkeeps⟩ := h
  have hended : c.request.run c.settings (l.session c) = outcome t (.error (.malformed cause)) := by
    rw [Request.run_eq, Run.bind_error hexamined]
    rfl
  rw [call_of_run hended]
  exact ⟨⟨cause.message, rfl⟩, hkeeps.ledger⟩

/-- A call says that its payload cannot be read exactly under a condition under which its examination
fails to read it and without which its judgement is about what the payload says. -/
theorem unreadable_iff_of_examine {l : Ledger} {c : Call} {P : Prop}
    (hexamined : P → ∃ cause t,
      c.request.examine c.settings (l.session c) = .error (.malformed cause) t ∧
        (l.session c).Keeps t)
    (hjudged : ¬P → Legible (l.judge c.settings c.request)) :
    ((l.call c).1.verdict.Unreadable ↔ P) ∧
      ((l.call c).1.verdict.Unreadable → (l.call c).2 = l) := by
  by_cases h : P
  · obtain ⟨hunreadable, hsame⟩ := unreadable_of_examine (hexamined h)
    exact ⟨iff_of_true hunreadable h, fun _ => hsame⟩
  · have hreadable := not_unreadable_of_legible (hjudged h)
    exact ⟨iff_of_false hreadable h, fun hunreadable => absurd hunreadable hreadable⟩

/-- A payload is said to be unreadable if and only if it is too long or the written form of no
block, and a loose transaction if and only if its payload is the written form of no transaction.
This holds in every ledger and whatever happens to the token, as long as it is alive at the start;
and such a call changes nothing. The lengths are machine words. -/
theorem unreadable_iff_no_written_form (l : Ledger) (settings : Settings) (token : Token)
    (triggers : Triggers) (halive : token.isCancelled = false)
    (hlimit : settings.maxBlockSize < 2 ^ 64) :
    (∀ bytes : Bytes,
      let answer := l.call ⟨settings, .payload bytes, token, triggers⟩
      (answer.1.verdict.Unreadable ↔
        settings.maxBlockSize < bytes.length ∨ ∀ b : Block, bytes ≠ b.encode) ∧
      (answer.1.verdict.Unreadable → answer.2 = l)) ∧
    ∀ bytes : Bytes, bytes.length < 2 ^ 64 →
      let answer := l.call ⟨settings, .transaction bytes, token, triggers⟩
      (answer.1.verdict.Unreadable ↔ ∀ tx : Transaction, bytes ≠ tx.encode) ∧
      (answer.1.verdict.Unreadable → answer.2 = l) := by
  refine ⟨fun bytes => unreadable_iff_of_examine ?_ ?_,
    fun bytes hshort => unreadable_iff_of_examine ?_ ?_⟩
  · intro h
    refine examinePayload_unreadable halive (h.imp_right fun hnone b hb => ?_)
    exact hnone b (Block.decode_eq_ok_iff.1 hb).2
  · intro h
    rw [not_or, Nat.not_lt] at h
    obtain ⟨hsize, hsome⟩ := h
    obtain ⟨b, rfl⟩ := not_forall_not.1 hsome
    have hfits : b.Fits := Block.fits_of_length (hsize.trans_lt hlimit)
    exact judge_payload_legible hsize (Block.decode_eq_ok_iff.2 ⟨hfits, rfl⟩)
  · intro h
    refine examineTransaction_unreadable halive fun tx htx => ?_
    exact h tx (Transaction.decode_eq_ok_iff.1 htx).2
  · intro h
    obtain ⟨tx, rfl⟩ := not_forall_not.1 h
    have hfits : tx.Fits := Transaction.fits_of_length hshort
    exact judge_transaction_legible (Transaction.decode_eq_ok_iff.2 ⟨hfits, rfl⟩)

/-- The header alone is no block, also where its predecessor is unknown and the token is cancelled
while it is looked for. -/
theorem unreadable_header_alone :
    let header : Header := ⟨1, .one, .zero, 0, 0, 0⟩
    let interrupted : Triggers := ⟨some 1, none, none⟩
    let answer := empty.call ⟨.standard, .payload header.encode, .never, interrupted⟩
    answer.1.verdict.Unreadable := by
  intro header interrupted answer
  have hiff := (unreadable_iff_no_written_form .empty .standard .never interrupted rfl
    (by decide)).1 header.encode
  refine hiff.1.2 (.inr fun b heq => ?_)
  have hlength := congrArg List.length heq
  have hcount := CompactSize.length_encode_pos b.transactions.length
  rw [Block.encode, List.length_append, List.length_append, header.length_encode,
    b.header.length_encode] at hlength
  omega

end Ledger

end Chain

end ChainRules
