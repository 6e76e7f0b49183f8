import ChainRules.Proofs.Chain.Atomicity
import ChainRules.Proofs.Chain.Progress
import ChainRules.Proofs.Codec.Payload

/-!
# What a report says

A report on a payload names the last stage that its block has come to. However the validation ended,
be it by cancellation or while the block was stored, the checks up to that stage have all passed.
And a report that is neither of acceptance nor of cancellation tells which check has failed: the one
before the next stage.
-/

namespace ChainRules.Chain

/-- How many stages a block has come through. -/
def Stage.rank : Stage → Nat
  | .rejected => 0
  | .parsed => 1
  | .powChecked => 2
  | .merkleChecked => 3
  | .inputsResolved => 4
  | .scriptsVerified => 5
  | .accepted => 6

/-- The stage that a block comes to after the given one. -/
def Stage.next? : Stage → Option Stage
  | .rejected => some .parsed
  | .parsed => some .powChecked
  | .powChecked => some .merkleChecked
  | .merkleChecked => some .inputsResolved
  | .inputsResolved => some .scriptsVerified
  | .scriptsVerified => some .accepted
  | .accepted => none

theorem Stage.eq_or_le_of_next? {stage next other : Stage} (h : stage.next? = some next)
    (hother : other.rank ≤ next.rank) : other = next ∨ other.rank ≤ stage.rank := by
  revert hother
  cases stage <;> cases h <;> cases other <;> decide

/-- The progress of a block that has come to a stage. -/
def Progress.ofBlock (stage : Stage) (b : Block) (height : Nat) : Progress :=
  ⟨some stage, some b.id, some height⟩

namespace Ledger

/-- A payload of admissible length is the written form of a block, which has a place above what is
recorded. -/
structure Arrives (l : Ledger) (settings : Settings) (payload : Bytes) (b : Block) (height : Nat) :
    Prop where
  size : payload.length ≤ settings.maxBlockSize
  written : payload = b.encode
  placed : l.Placed b.header height

/-- Neither the store nor the height index contains anything that is in conflict with the block. -/
structure HasRoom (l : Ledger) (b : Block) (height : Nat) : Prop where
  stored : ∀ e ∈ b.entries, ∀ old, l.store.get? e.id = some old → old = e
  distinct : DistinctIds b.entries
  recorded : ∀ n, l.heights.get? b.id = some n → n = height

/-- What is checked of a block before it comes to a stage. -/
def Grants (l : Ledger) (settings : Settings) (payload : Bytes) (b : Block) (height : Nat) :
    Stage → Prop
  | .rejected => True
  | .parsed => l.Arrives settings payload b height
  | .powChecked => l.Claimable settings b ∧ b.header.hasWork = .ok true
  | .merkleChecked => b.checkStructure = .ok () ∧
      Merkle.rootOf (b.transactions.map Transaction.id) = .ok b.header.merkleRoot
  | .inputsResolved => (spentOutpoints b.transactions).Nodup ∧
      ∀ pre tx post, b.transactions = pre ++ tx :: post →
        Finds (l.source? pre) tx fun _ _ _ => True
  | .scriptsVerified => ∀ pre tx post, b.transactions = pre ++ tx :: post →
      Paired (l.source? pre) tx
  | .accepted => l.HasRoom b height

/-- A block has come to a stage and has passed every check before it. -/
structure Reaches (l : Ledger) (settings : Settings) (payload : Bytes) (b : Block) (height : Nat)
    (stage : Stage) : Prop where
  begun : stage ≠ .rejected
  passed : ∀ other : Stage, other.rank ≤ stage.rank → l.Grants settings payload b height other

variable {l : Ledger} {settings : Settings} {payload : Bytes} {b : Block} {height : Nat}
  {stage stage' : Stage}

theorem Reaches.of_arrives (h : l.Arrives settings payload b height) :
    l.Reaches settings payload b height .parsed := by
  refine ⟨by decide, fun other hother => ?_⟩
  cases other with
  | rejected => trivial
  | parsed => exact h
  | _ => exact absurd hother (by decide)

theorem Reaches.next (h : l.Reaches settings payload b height stage)
    (hnext : stage.next? = some stage') (hgranted : l.Grants settings payload b height stage') :
    l.Reaches settings payload b height stage' := by
  refine ⟨?_, fun other hother => ?_⟩
  · rintro rfl
    cases stage <;> cases hnext
  · rcases Stage.eq_or_le_of_next? hnext hother with rfl | hbefore
    · exact hgranted
    · exact h.passed other hbefore

/-! ## The check before each stage -/

theorem powChecked_iff :
    (checkHeader settings l.heights b).mapError Fault.invalid = .ok () ↔
      l.Grants settings payload b height .powChecked := by
  rw [mapError_eq_ok_iff, checkHeader_eq_ok_iff, Grants]

theorem merkleChecked_iff :
    checkContents b = .ok () ↔ l.Grants settings payload b height .merkleChecked := by
  rw [checkContents_eq_ok_iff, Grants]

/-- The sums of the coinbases, which are asked for in passing, are known to be in range once the
structure was checked. -/
theorem inputsResolved_iff (h : l.Reaches settings payload b height .merkleChecked) :
    (∃ spends, l.resolve (b.transactions.map .ofTransaction) = .ok spends) ↔
      l.Grants settings payload b height .inputsResolved := by
  have hstructure : b.checkStructure = .ok () := (h.passed .merkleChecked le_rfl).1
  have hresolved := l.resolve_ok_iff b.transactions fun _ => True
  simp only [implies_true, and_true] at hresolved
  rw [hresolved, Grants]
  refine and_congr_right' (forall₄_congr fun pre tx post heq => and_iff_right fun _ => ?_)
  exact Block.totalOutput?_of_checkStructure hstructure heq

theorem scriptsVerified_iff (h : l.Reaches settings payload b height .inputsResolved)
    {spends : List Spend} (hspends : l.resolve (b.transactions.map .ofTransaction) = .ok spends) :
    verifyAll spends = .ok () ↔ l.Grants settings payload b height .scriptsVerified := by
  have hnodup : (spentOutpoints b.transactions).Nodup := (h.passed .inputsResolved le_rfl).1
  have hstructure : b.checkStructure = .ok () := (h.passed .merkleChecked (by decide)).1
  have hverified := l.resolve_verify_iff b.transactions
  simp only [hspends, Except.ok.injEq, exists_eq_left'] at hverified
  rw [hverified, and_iff_right hnodup, Grants]
  refine forall₄_congr fun pre tx post heq => and_iff_right fun _ => ?_
  exact Block.totalOutput?_of_checkStructure hstructure heq

/-- A block is kept if and only if there is room for it. -/
theorem keep_block_eq_ok_iff :
    (l.keep (.block b height)).1 = .ok () ↔ l.HasRoom b height := by
  have hroom : l.HasRoom b height ↔ (l.store.putAll b.entries).1 = .ok () ∧
      ∃ heights, l.heights.record b.id height = .ok heights := by
    rw [Store.putAll_eq_ok_iff, Heights.exists_record_iff]
    exact ⟨fun h => ⟨⟨h.stored, h.distinct⟩, h.recorded⟩, fun h => ⟨h.1.1, h.1.2, h.2⟩⟩
  rw [hroom]
  unfold keep Candidate.entries
  cases l.store.putAll b.entries with
  | mk result store =>
    cases result with
    | error fault => simp
    | ok u =>
      dsimp only
      cases l.heights.record b.id height <;> simp

/-! ## From one stage to the next -/

/-- What an examination has come to and the progress that is noted then agree. -/
inductive Accounts (l : Ledger) (settings : Settings) (payload : Bytes) :
    Option (Except Fault Candidate) → Progress → Prop where
  /-- It is stopped before a block has arrived. -/
  | unread : l.Accounts settings payload none .start
  /-- No block arrives. -/
  | turnedAway {fault : Fault} (h : ∀ b height, ¬l.Arrives settings payload b height) :
      l.Accounts settings payload (some (.error fault)) .start
  /-- It is stopped on the way. -/
  | stopped {b : Block} {height : Nat} {stage stage' : Stage}
      (h : l.Reaches settings payload b height stage) (hnext : stage.next? = some stage') :
      l.Accounts settings payload none (.ofBlock stage b height)
  /-- The check before the next stage fails. -/
  | refused {b : Block} {height : Nat} {stage stage' : Stage} {fault : Fault}
      (h : l.Reaches settings payload b height stage) (hnext : stage.next? = some stage')
      (hfails : ¬l.Grants settings payload b height stage') :
      l.Accounts settings payload (some (.error fault)) (.ofBlock stage b height)
  /-- All checks have passed that come before the first write. -/
  | examined {b : Block} {height : Nat} (h : l.Reaches settings payload b height .scriptsVerified) :
      l.Accounts settings payload (some (.ok (.block b height)))
        (.ofBlock .scriptsVerified b height)

/-- The stage after a check is noted once the check has passed. -/
theorem Reaches.concludes {α : Type} {x : Run α} {f : Ledger → Except Fault α}
    {g : α → Run Candidate} (h : l.Reaches settings payload b height stage)
    (hnext : stage.next? = some stage') (hx : Observes x f) (hsteady : Steady x)
    (hgrants : (∃ a, f l = .ok a) ↔ l.Grants settings payload b height stage')
    (hrest : ∀ a, f l = .ok a → l.Reaches settings payload b height stage' →
      Concludes l (.ofBlock stage' b height) (g a) (l.Accounts settings payload)) :
    Concludes l (.ofBlock stage b height) (x >>= fun a => Run.reach stage' >>= fun _ => g a)
      (l.Accounts settings payload) := by
  refine .step hx hsteady (.stopped h hnext) ?_ ?_
  · intro fault hfault
    refine .refused h hnext fun hgranted => ?_
    obtain ⟨a, ha⟩ := hgrants.2 hgranted
    rw [hfault] at ha
    cases ha
  · intro a ha
    exact .reach (hrest a ha (h.next hnext (hgrants.1 ⟨a, ha⟩)))

theorem Arrives.concludes (h : l.Arrives settings payload b height) :
    Concludes l ⟨some .parsed, none, none⟩ (examineAt settings b height)
      (l.Accounts settings payload) := by
  have hparsed := Reaches.of_arrives h
  have hnoted : ∀ s : Session, s.progress = ⟨some .parsed, none, none⟩ →
      { s.progress with blockId := some b.id, height := some height } =
        Progress.ofBlock .parsed b height := by
    intro s hs
    rw [hs]
    rfl
  unfold examineAt
  refine .note (fun s => .of_eq rfl rfl rfl rfl rfl) hnoted ?_
  have hheader : Observes (get >>= fun s => Run.check (checkHeader settings s.heights b))
      fun l => (checkHeader settings l.heights b).mapError .invalid :=
    .get_bind fun _ => .check _
  refine hparsed.concludes rfl hheader (.bind .get fun _ => .check _)
    (Unique.exists_iff.trans powChecked_iff) fun _ _ hpow => ?_
  refine hpow.concludes rfl (.ofExcept _) (.ofExcept _)
    (Unique.exists_iff.trans merkleChecked_iff) fun _ _ hmerkle => ?_
  refine hmerkle.concludes rfl (resolve_observes _) (resolve_steady _)
    (inputsResolved_iff hmerkle) fun spends hspends hresolved => ?_
  refine hresolved.concludes rfl (verifySpends_observes settings spends)
    (verifySpends_steady settings spends)
    (Unique.exists_iff.trans (scriptsVerified_iff hresolved hspends)) fun _ _ hverified => ?_
  exact .step .poll .poll (.stopped hverified rfl) nofun fun _ _ => .pure (.examined hverified)

/-- However the examination of a payload ends, its progress agrees with what it has come to. -/
theorem examine_concludes (l : Ledger) (settings : Settings) (payload : Bytes)
    (hlimit : settings.maxBlockSize < 2 ^ 64) :
    Concludes l .start ((Request.payload payload).examine settings)
      (l.Accounts settings payload) := by
  refine .step .poll .poll .unread nofun fun _ _ => ?_
  by_cases hsize : settings.maxBlockSize < payload.length
  · rw [if_pos hsize]
    refine .step (.throw _) (.throw _) .unread (fun _ _ => .turnedAway ?_) nofun
    intro b height harrives
    exact absurd harrives.size (Nat.not_le.2 hsize)
  · rw [if_neg hsize]
    have hread : ∀ b height, l.Arrives settings payload b height →
        leadingHeader payload = .ok b.header ∧ readBlock payload = .ok b := by
      rintro b height ⟨-, rfl, -⟩
      have hfits : b.Fits := Block.fits_of_length ((Nat.not_lt.1 hsize).trans_lt hlimit)
      exact ⟨leadingHeader_encode b, readBlock_eq_ok_iff.2 ⟨hfits, rfl⟩⟩
    refine .step (.ofExcept _) (.ofExcept _) .unread ?_ ?_
    · intro fault hheader
      refine .turnedAway fun b height harrives => ?_
      rw [(hread b height harrives).1] at hheader
      cases hheader
    · intro header hheader
      refine .attempt_ofExcept (heightOf_observes header) (heightOf_steady header) .unread ?_ ?_ ?_
      · intro fault hblock
        refine .turnedAway fun b height harrives => ?_
        rw [(hread b height harrives).2] at hblock
        cases hblock
      · intro fault hheight
        refine .turnedAway fun b height harrives => ?_
        rw [(hread b height harrives).1] at hheader
        cases hheader
        rw [heightOf_eq_ok_iff.2 harrives.placed] at hheight
        cases hheight
      · intro height b hheight hblock
        obtain ⟨-, rfl⟩ := readBlock_eq_ok_iff.1 hblock
        rw [leadingHeader_encode] at hheader
        cases hheader
        have harrives : l.Arrives settings b.encode b height :=
          ⟨Nat.not_lt.1 hsize, rfl, heightOf_eq_ok_iff.1 hheight⟩
        exact .reach harrives.concludes

/-- Storing a block leaves the progress as it is until the block is stored and its height recorded;
the last stage is noted then. -/
theorem persist_progress (b : Block) (height : Nat) (s : Session) :
    match (Candidate.block b height).persist s with
    | .ok _ t => t.progress = { s.progress with stage := some .accepted }
    | .error _ t => t.progress = s.progress := by
  have hstored : Steady (commit b.entries >>= fun _ => Run.record b.id height) :=
    (commit_steady _).bind fun _ => record_steady _ _
  have hpersist : (Candidate.block b height).persist =
      (commit b.entries >>= fun _ => Run.record b.id height) >>= fun _ => Run.reach .accepted := by
    rw [bind_assoc]
    rfl
  have hprogress := hstored s
  rw [hpersist]
  cases hrun : (commit b.entries >>= fun _ => Run.record b.id height) s with
  | ok _ t =>
    rw [hrun] at hprogress
    rw [Run.bind_ok hrun, ← hprogress]
    rfl
  | error fault t =>
    rw [hrun] at hprogress
    rw [Run.bind_error hrun]
    exact hprogress

/-- A block that has come through its examination is accepted if there is room for it and is left at
its stage otherwise. -/
theorem Reaches.persist (h : l.Reaches settings payload b height .scriptsVerified) {s : Session}
    (hopen : s.readOnly = false) (hledger : s.ledger = l)
    (hs : s.progress = .ofBlock .scriptsVerified b height) :
    ∃ t, ((Candidate.block b height).persist s = outcome t (.ok ()) ∧
        t.progress = .ofBlock .accepted b height ∧ l.Reaches settings payload b height .accepted) ∨
      ∃ fault, (Candidate.block b height).persist s = outcome t (.error fault) ∧
        t.progress = .ofBlock .scriptsVerified b height ∧
        ¬l.Grants settings payload b height .accepted := by
  obtain ⟨t, -, hpersist⟩ := persist_run (.block b height) hopen
  have hprogress := persist_progress b height s
  rw [hledger] at hpersist
  rw [hpersist, hs] at hprogress
  refine ⟨t, ?_⟩
  cases hkept : (l.keep (.block b height)).1 with
  | ok u =>
    rw [hkept] at hpersist hprogress
    exact .inl ⟨hpersist, hprogress, h.next rfl (keep_block_eq_ok_iff.1 hkept)⟩
  | error fault =>
    rw [hkept] at hpersist hprogress
    refine .inr ⟨fault, hpersist, hprogress, fun hroom => ?_⟩
    rw [keep_block_eq_ok_iff.2 hroom] at hkept
    cases hkept

end Ledger

/-! ## Reports -/

/-- Nothing that a report says of a block goes beyond what was found. -/
structure Report.Truthful (r : Report) (l : Ledger) (settings : Settings) (payload : Bytes) :
    Prop where
  okay_iff : r.verdict = .okay ↔ r.stage = .accepted
  blockId_iff : r.stage = .rejected ↔ r.blockId = none
  height_iff : r.stage = .rejected ↔ r.height = none
  reached : r.stage ≠ .rejected → ∃ b height, r.blockId = some b.id ∧ r.height = some height ∧
    l.Reaches settings payload b height r.stage

/-- It is the check before the next stage that has failed: no block has arrived, or one has come to
the stage of the report and fails the check that follows. -/
def Report.Exact (r : Report) (l : Ledger) (settings : Settings) (payload : Bytes) : Prop :=
  (r.stage = .rejected ∧ ∀ b height, ¬l.Arrives settings payload b height) ∨
    ∃ b height stage', r.blockId = some b.id ∧ r.height = some height ∧
      l.Reaches settings payload b height r.stage ∧ r.stage.next? = some stage' ∧
      ¬l.Grants settings payload b height stage'

namespace Report

variable {l : Ledger} {settings : Settings} {payload : Bytes} {fault : Fault} {b : Block}
  {height : Nat} {stage stage' : Stage}

theorem verdict_of_error {p : Progress} : (of (.error fault) p).verdict ≠ .okay := by
  intro h
  cases (verdictOf_eq_okay_iff (.error fault)).1 h

/-- Nothing is said of a block where none has arrived. -/
theorem truthful_start : (of (.error fault) .start).Truthful l settings payload where
  okay_iff := iff_of_false verdict_of_error nofun
  blockId_iff := iff_of_true rfl rfl
  height_iff := iff_of_true rfl rfl
  reached h := absurd rfl h

/-- A block that is on its way is not accepted. -/
theorem truthful_of_next? (h : l.Reaches settings payload b height stage)
    (hnext : stage.next? = some stage') :
    (of (.error fault) (.ofBlock stage b height)).Truthful l settings payload where
  okay_iff := by
    refine iff_of_false verdict_of_error ?_
    rintro rfl
    cases hnext
  blockId_iff := iff_of_false h.begun nofun
  height_iff := iff_of_false h.begun nofun
  reached _ := ⟨b, height, rfl, rfl, h⟩

theorem truthful_accepted (h : l.Reaches settings payload b height .accepted) :
    (of (.ok ()) (.ofBlock .accepted b height)).Truthful l settings payload where
  okay_iff := iff_of_true rfl rfl
  blockId_iff := iff_of_false nofun nofun
  height_iff := iff_of_false nofun nofun
  reached _ := ⟨b, height, rfl, rfl, h⟩

end Report

namespace Ledger

/-- Whatever the ledger, the settings, the payload and the moment of cancellation, the report says
nothing that is not so; and unless the block was accepted, or the call cancelled by someone, it is
exactly the check before the next stage that has failed. The limit on lengths is a machine word. -/
theorem report_truthful (l : Ledger) (settings : Settings) (hlimit : settings.maxBlockSize < 2 ^ 64)
    (payload : Bytes) (token : Token) (triggers : Triggers) :
    let c : Call := ⟨settings, .payload payload, token, triggers⟩
    (l.call c).1.Truthful l settings payload ∧
      ((l.call c).1.verdict ≠ .okay →
        (¬c.Undisturbed ∧ (l.call c).1.verdict = .cancelled) ∨
          (l.call c).1.Exact l settings payload) := by
  intro c
  have hsplit := congrFun (c.request.run_eq settings) (l.session c)
  have hfailed : ∀ {fault t}, c.request.examine settings (l.session c) = .error fault t →
      c.request.run settings (l.session c) = outcome t (.error fault) :=
    fun h => hsplit.trans (Run.bind_error h)
  obtain ⟨t, hkeeps, ⟨result, hresult, haccounts⟩ | ⟨hstop, hdisturbed, haccounts⟩⟩ :=
    examine_concludes l settings payload hlimit (l.session c) rfl rfl
  · generalize hp : t.progress = p at haccounts
    cases haccounts with
    | turnedAway h =>
      rw [call_of_run (hfailed hresult), hp]
      exact ⟨Report.truthful_start, fun _ => .inr (.inl ⟨rfl, h⟩)⟩
    | refused h hnext hfails =>
      rw [call_of_run (hfailed hresult), hp]
      refine ⟨Report.truthful_of_next? h hnext, fun _ => .inr (.inr ?_)⟩
      exact ⟨_, _, _, rfl, rfl, h, hnext, hfails⟩
    | examined h =>
      -- no poll stops the validation any more, so only a conflict in what is stored can
      have hexamined := hsplit.trans (Run.bind_ok hresult)
      obtain ⟨u, ⟨hpersist, hu, haccepted⟩ | ⟨fault, hpersist, hu, hfails⟩⟩ :=
        h.persist hkeeps.readOnly hkeeps.ledger hp
      · rw [call_of_run (hexamined.trans hpersist), hu]
        exact ⟨Report.truthful_accepted haccepted, fun hne => absurd rfl hne⟩
      · rw [call_of_run (hexamined.trans hpersist), hu]
        refine ⟨Report.truthful_of_next? h rfl, fun _ => .inr (.inr ?_)⟩
        exact ⟨_, _, _, rfl, rfl, h, rfl, hfails⟩
  · have hcancelled : ¬c.Undisturbed := fun hc => hdisturbed.not_undisturbed (hc.session l)
    generalize hp : t.progress = p at haccounts
    rw [call_of_run (hfailed hstop), hp]
    cases haccounts with
    | unread => exact ⟨Report.truthful_start, fun _ => .inl ⟨hcancelled, rfl⟩⟩
    | stopped h hnext =>
      exact ⟨Report.truthful_of_next? h hnext, fun _ => .inl ⟨hcancelled, rfl⟩⟩

/-- With another nonce the id of the sample block is above its target: the block is read and comes
no further. -/
theorem report_truthful_unlucky :
    let block : Block := { sampleBlock with header := { sampleBlock.header with nonce := 0 } }
    let answer := (empty.call ⟨.standard, .payload block.encode, .never, .never⟩).1
    answer.verdict ≠ .okay ∧ ∃ b height, answer.blockId = some b.id ∧
      empty.Reaches .standard block.encode b height .parsed ∧
      ¬empty.Grants .standard block.encode b height .powChecked := by
  intro block answer
  have hstage : answer.stage = .parsed := by decide +kernel
  obtain ⟨htruthful, hexact⟩ :=
    report_truthful empty .standard (by decide) block.encode .never .never
  have hverdict : answer.verdict ≠ .okay := by
    intro hokay
    rw [htruthful.okay_iff.1 hokay] at hstage
    cases hstage
  rcases hexact hverdict with ⟨hcancelled, -⟩ | ⟨hrejected, -⟩ | hfailed
  · exact absurd ⟨rfl, rfl⟩ hcancelled
  · rw [hrejected] at hstage
    cases hstage
  · obtain ⟨b, height, next, hid, -, hreaches, hnext, hfails⟩ := hfailed
    rw [hstage] at hreaches hnext
    cases hnext
    exact ⟨hverdict, b, height, hid, hreaches, hfails⟩

end Ledger

end ChainRules.Chain
