import ChainRules.Proofs.Chain.Observation

/-!
# Examination and judgement

The examination of a request observes the ledger and leaves it as it is. The judgement of a ledger on a
request is what the examination finds while no one cancels its token.
-/

namespace ChainRules.Chain

/-- The scripts of one spend, run under a token that no one cancels. -/
def Spend.verify (spend : Spend) : Except Fault Unit :=
  let unlock := (spend.tx.inputs[spend.inputIndex]?.map Input.script).getD []
  let check := Signature.inputChecker spend.tx spend.inputIndex
  match Script.spend check .never unlock spend.output.script with
  | .ok answer _ =>
    if answer then .ok () else .error (.invalid (.scriptFalse spend.txIndex spend.inputIndex))
  | .error cause _ =>
    if cause = .cancelled then .error .cancelled
    else .error (.invalid (.scriptAborted spend.txIndex spend.inputIndex cause))

/-- The scripts of all spends but those of coinbases. -/
def verifyAll (spends : List Spend) : Except Fault Unit :=
  (spends.filter (!·.tx.isCoinbase)).forM Spend.verify

/-- The transactions that are stored under some of the ids, in order. -/
def Store.transactions (s : Store) (ids : List Hash256) : List Identified :=
  (ids.zip (ids.map s.get?)).filterMap fun (id, entry) =>
    match entry with
    | some (.transaction tx) => some ⟨id, tx⟩
    | _ => none

namespace Ledger

/-- The height of a block with the given header. -/
def heightOf (l : Ledger) (header : Header) : Except Fault Nat :=
  if header.isGenesis then .ok 0
  else
    match l.store.get? header.previous with
    | some (.block _) =>
      match l.heights.get? header.previous with
      | some height => .ok (height + 1)
      | none => .error (.invalid (.previousWithoutHeight header.previous))
    | _ => .error (.invalid (.unknownPrevious header.previous))

/-- Pairs every input of a list of transactions with the output that it spends. -/
def resolve (l : Ledger) (txs : List Identified) : Except Fault (List Spend) := do
  let ids ← (wantedIds txs).mapError .invalid
  (resolveAll (l.store.transactions ids) [] txs).mapError .invalid

/-- The judgement on a block whose height is known. -/
def judgeAt (l : Ledger) (settings : Settings) (b : Block) (height : Nat) :
    Except Fault Candidate := do
  (checkHeader settings l.heights b).mapError .invalid
  checkContents b
  let spends ← l.resolve (b.transactions.map .ofTransaction)
  verifyAll spends
  return .block b height

/-- The judgement on a request. -/
def judge (l : Ledger) (settings : Settings) : Request → Except Fault Candidate
  | .payload bytes =>
    if settings.maxBlockSize < bytes.length then
      .error (.malformed (.oversizedBlock bytes.length settings.maxBlockSize))
    else do
      let header ← leadingHeader bytes
      let b ← readBlock bytes
      let height ← l.heightOf header
      l.judgeAt settings b height
  | .block b => do
    let height ← l.heightOf b.header
    l.judgeAt settings b height
  | .transaction bytes =>
    match Transaction.decode bytes with
    | .error cause => .error (.malformed cause)
    | .ok tx => do
      tx.check.mapError .invalid
      if tx.isCoinbase then .error (.invalid .looseCoinbase)
      else do
        let spends ← l.resolve [.ofTransaction tx]
        verifyAll spends
        return .transaction tx

end Ledger

/-! ## What the steps observe -/

theorem lookup_observes (id : Hash256) :
    Observes (Run.lookup id) fun l => .ok (l.store.get? id) := by
  have hread : Observes (do
      Run.poll
      return (← get).store.get? id) fun l => .ok (l.store.get? id) :=
    Observes.poll.after (.get_bind fun _ => .pure _)
  have hafter : Observes (modify fun s => s.strike s.triggers.afterLookup s.lookups : Run PUnit)
      fun _ => .ok .unit :=
    .modify fun s => .strike s _ fun hs => hs.afterLookup
  have hcount : Observes (modify fun s => { s with lookups := s.lookups + 1 } : Run PUnit)
      fun _ => .ok .unit :=
    .modify fun _ => .of_eq rfl rfl rfl rfl rfl
  have hbefore : Observes (modify fun s => s.strike s.triggers.beforeLookup s.lookups : Run PUnit)
      fun _ => .ok .unit :=
    .modify fun s => .strike s _ fun hs => hs.beforeLookup
  exact hcount.after (hbefore.after (hread.attempt_around hafter))

theorem heightOf_observes (header : Header) : Observes (heightOf header) (·.heightOf header) := by
  unfold heightOf Ledger.heightOf
  refine .ite (fun _ => .pure 0) fun _ => ?_
  show Observes _ fun l => .ok (l.store.get? header.previous) >>= fun found =>
    match found with
    | some (.block _) =>
      match l.heights.get? header.previous with
      | some height => .ok (height + 1)
      | none => .error (.invalid (.previousWithoutHeight header.previous))
    | _ => .error (.invalid (.unknownPrevious header.previous))
  apply (lookup_observes header.previous).bind
  intro found
  cases found with
  | none => exact .throw _
  | some e =>
    cases e with
    | transaction tx => exact .throw _
    | block b =>
      refine .get_bind fun s => ?_
      dsimp only [Session.ledger]
      cases s.heights.get? header.previous with
      | some height => exact .pure _
      | none => exact .throw _

theorem fetch_observes (ids : List Hash256) :
    Observes (fetch ids) fun l => .ok (l.store.transactions ids) := by
  have hall : ∀ s : Store, (ids.mapM fun id => (.ok (s.get? id) : Except Fault (Option Entry))) =
      .ok (ids.map s.get?) := by
    intro s
    exact List.mapM_pure
  have hanswers := Observes.attempt_all lookup_observes ids
  simp only [hall] at hanswers
  have hfetch := hanswers.bind fun entries => .pure ((ids.zip entries).filterMap fun (id, entry) =>
    match entry with
    | some (.transaction tx) => some (⟨id, tx⟩ : Identified)
    | _ => none)
  simp only [bind_assoc] at hfetch
  exact hfetch

theorem resolve_observes (txs : List Identified) : Observes (resolve txs) (·.resolve txs) :=
  (Observes.check _).bind fun ids => (fetch_observes ids).bind fun _ => .check _

theorem verifySpend_observes (spend : Spend) :
    Observes (verifySpend spend) fun _ => spend.verify := by
  intro s
  unfold verifySpend Spend.verify Script.spend
  dsimp only
  rcases Script.Exec.spend_heeds (Signature.inputChecker spend.tx spend.inputIndex)
    ((spend.tx.inputs[spend.inputIndex]?.map Input.script).getD []) spend.output.script
    (.empty s.token) with ⟨htoken, m, hstop, hcancelled⟩ | ⟨token, htoken, hsame⟩
  · have hages : s.token.Ages m.token := ⟨fun h => absurd h htoken, fun _ => hcancelled⟩
    refine ⟨{ s with token := m.token }, .withToken hages, .inr ⟨?_, ?_, hcancelled⟩⟩
    · rw [hstop]
      rfl
    · exact fun h => htoken h.token
  · refine ⟨{ s with token := token }, .withToken htoken, .inl ?_⟩
    rw [hsame]
    change _ = outcome _
      (match Script.Exec.spend _ _ _ ((Script.Machine.empty s.token).withToken .never) with
        | .ok answer _ => _
        | .error cause _ => _)
    cases Script.Exec.spend (Signature.inputChecker spend.tx spend.inputIndex)
      ((spend.tx.inputs[spend.inputIndex]?.map Input.script).getD []) spend.output.script
      ((Script.Machine.empty s.token).withToken .never) with
    | ok answer m => cases answer <;> rfl
    | error cause m =>
      dsimp only [Script.Exec.retoken]
      by_cases hcause : cause = .cancelled
      · simp only [hcause, if_true]
        rfl
      · simp only [hcause, if_false]
        rfl

theorem verifySpends_observes (settings : Settings) (spends : List Spend) :
    Observes (verifySpends settings spends) fun _ => verifyAll spends := by
  have hall : ∀ inputs : List Spend,
      Observes (inputs.forM verifySpend) fun _ => inputs.forM Spend.verify :=
    fun _ => .forM verifySpend_observes
  unfold verifySpends verifyAll
  dsimp only
  cases spends.filter (!·.tx.isCoinbase) with
  | nil => exact .pure _
  | cons spend rest =>
    apply Observes.poll.after
    -- side by side, the outcome of the scripts waits for one more poll
    split
    · exact (hall _).attempt_around .poll
    · exact hall _

theorem examineAt_observes (settings : Settings) (b : Block) (height : Nat) :
    Observes (examineAt settings b height) (·.judgeAt settings b height) := by
  have hplaced : Observes (modify fun s =>
      { s with progress := { s.progress with blockId := some b.id, height := some height } }
        : Run PUnit) fun _ => .ok .unit :=
    .modify fun _ => .of_eq rfl rfl rfl rfl rfl
  have hheader : Observes (get >>= fun s => Run.check (checkHeader settings s.heights b))
      fun l => (checkHeader settings l.heights b).mapError .invalid :=
    .get_bind fun _ => .check _
  unfold examineAt
  refine hplaced.after (hheader.bind fun _ => (Observes.reach _).after ?_)
  refine (Observes.ofExcept _).bind fun _ => (Observes.reach _).after ?_
  refine (resolve_observes _).bind fun spends => (Observes.reach _).after ?_
  refine (verifySpends_observes settings spends).bind fun _ => (Observes.reach _).after ?_
  exact Observes.poll.after (.pure _)

/-- An examination finds what the ledger's judgement is, unless its token stops it. -/
theorem examine_observes (settings : Settings) (r : Request) :
    Observes (r.examine settings) (·.judge settings r) := by
  cases r with
  | payload bytes =>
    refine Observes.poll.after (.refuse ?_)
    apply (Observes.ofExcept _).bind
    intro header
    exact (heightOf_observes header).attempt_ofExcept fun height b =>
      (Observes.reach _).after (examineAt_observes settings b height)
  | block b =>
    exact Observes.poll.after ((heightOf_observes b.header).bind fun height =>
      (Observes.reach _).after (examineAt_observes settings b height))
  | transaction bytes =>
    apply Observes.poll.after
    simp only [Ledger.judge]
    cases Transaction.decode bytes with
    | error cause => exact .throw _
    | ok tx =>
      refine (Observes.check _).bind fun _ => .refuse ?_
      apply (resolve_observes _).bind
      intro spends
      exact (verifySpends_observes settings spends).bind fun _ => Observes.poll.after (.pure _)

end ChainRules.Chain
