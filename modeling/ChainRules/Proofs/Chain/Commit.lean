import ChainRules.Proofs.Chain.Examination

/-!
# Storing candidates

Entries are stored one by one, and what was stored before a refused entry stays; the height of a
block is recorded last. With this, a call is described without its session: it is cancelled and
changes nothing, or it is refused by the judgement and changes nothing, or the ledger keeps what it
can of the candidate.
-/

namespace ChainRules.Chain

/-- Stores entries in order up to the first that is refused. -/
def Store.putAll (s : Store) : List Entry → Except Fault Unit × Store
  | [] => (.ok (), s)
  | e :: rest =>
    match s.put e with
    | .ok t => t.putAll rest
    | .error fault => (.error fault, s)

/-- Stores a candidate and, for a block, records its height. -/
def Ledger.keep (l : Ledger) (candidate : Candidate) : Except Fault Unit × Ledger :=
  let (result, store) := l.store.putAll candidate.entries
  match result, candidate with
  | .error fault, _ => (.error fault, { l with store })
  | .ok (), .transaction _ => (.ok (), { l with store })
  | .ok (), .block b height =>
    match l.heights.record b.id height with
    | .ok heights => (.ok (), ⟨store, heights⟩)
    | .error fault => (.error fault, { l with store })

/-- Keeping a candidate fails with what could be stored of it, or everything is stored and the height
of a block is recorded. -/
theorem Ledger.keep_cases (l : Ledger) (candidate : Candidate) :
    let stored := l.store.putAll candidate.entries
    (∃ fault, l.keep candidate = (.error fault, { l with store := stored.2 })) ∨
      (stored.1 = .ok () ∧ ∃ heights, l.keep candidate = (.ok (), ⟨stored.2, heights⟩) ∧
        match candidate with
        | .transaction _ => heights = l.heights
        | .block b height => l.heights.record b.id height = .ok heights) := by
  unfold keep
  cases l.store.putAll candidate.entries with
  | mk result store =>
    cases result with
    | error fault => exact .inl ⟨fault, rfl⟩
    | ok u =>
      cases candidate with
      | transaction tx => exact .inr ⟨rfl, l.heights, rfl, rfl⟩
      | block b height =>
        dsimp only
        cases l.heights.record b.id height with
        | error fault => exact .inl ⟨fault, rfl⟩
        | ok heights => exact .inr ⟨rfl, heights, rfl, rfl⟩

/-- What a request does to a ledger if no one cancels it. -/
def Ledger.serve (l : Ledger) (settings : Settings) (r : Request) : Except Fault Unit × Ledger :=
  match l.judge settings r with
  | .error fault => (.error fault, l)
  | .ok candidate => l.keep candidate

/-- The verdict on a validation that ended as given. -/
def verdictOf : Except Fault Unit → Verdict
  | .ok () => .okay
  | .error fault => fault.verdict

theorem verdictOf_eq_okay_iff (result : Except Fault Unit) :
    verdictOf result = .okay ↔ result = .ok () := by
  cases result with
  | ok u => exact ⟨fun _ => rfl, fun _ => rfl⟩
  | error fault =>
    refine ⟨fun h => ?_, fun h => by cases h⟩
    cases fault with
    | script cause => cases cause <;> cases h
    | _ => cases h

/-- The report on a validation that ended as given, with the progress that it had made. -/
def Report.of (result : Except Fault Unit) (p : Progress) : Report where
  verdict := verdictOf result
  stage := match result with
    | .ok () => .accepted
    | .error _ => p.stage.getD .rejected
  blockId := p.blockId
  height := p.height

/-! ## Sessions that store -/

theorem Session.strike_frame (s : Session) (trigger : Option Nat) (count : Nat) :
    (s.strike trigger count).ledger = s.ledger ∧
      (s.strike trigger count).readOnly = s.readOnly ∧
      (s.strike trigger count).progress = s.progress := by
  unfold Session.strike
  split <;> exact ⟨rfl, rfl, rfl⟩

theorem write_run (e : Entry) {s : Session} (h : s.readOnly = false) :
    match s.store.put e with
    | .ok store =>
      ∃ t, Run.write e s = .ok () t ∧ t.ledger = ⟨store, s.heights⟩ ∧ t.readOnly = false
    | .error fault => Run.write e s = .error fault s := by
  have hwrite : Run.write e s = (Run.ofExcept (s.store.put e) >>= fun store => do
      modify fun s => { s with store, writes := s.writes + 1 }
      modify fun s => s.strike s.triggers.afterWrite s.writes) s := by
    apply (Run.bind_ok (x := get) (a := s) (t := s) rfl).trans
    dsimp only
    rw [h]
    rfl
  rw [hwrite]
  cases s.store.put e with
  | error fault => rfl
  | ok store =>
    let t := { s with store := store, writes := s.writes + 1 }
    obtain ⟨hledger, hreadOnly, -⟩ := t.strike_frame t.triggers.afterWrite t.writes
    exact ⟨_, rfl, hledger, hreadOnly.trans h⟩

theorem record_run (id : Hash256) (height : Nat) (s : Session) :
    Run.record id height s = match s.heights.record id height with
      | .ok heights => .ok () { s with heights }
      | .error fault => .error fault s := by
  show (Run.ofExcept (s.heights.record id height) >>= fun heights =>
    modify fun s => { s with heights }) s = _
  cases s.heights.record id height <;> rfl

theorem commit_run (entries : List Entry) {s : Session} (h : s.readOnly = false) :
    ∃ t, t.ledger = ⟨(s.store.putAll entries).2, s.heights⟩ ∧
      commit entries s = outcome t (s.store.putAll entries).1 := by
  induction entries generalizing s with
  | nil => exact ⟨s, rfl, rfl⟩
  | cons e rest ih =>
    have hwrite := write_run e h
    show ∃ t, _ ∧ (Run.write e >>= fun _ => commit rest) s = _
    unfold Store.putAll
    cases hput : s.store.put e with
    | error fault =>
      rw [hput] at hwrite
      exact ⟨s, rfl, Run.bind_error hwrite⟩
    | ok store =>
      rw [hput] at hwrite
      obtain ⟨t, hwrite, hledger, hreadOnly⟩ := hwrite
      obtain ⟨u, hu, hrest⟩ := ih hreadOnly
      have hstore : t.store = store := congrArg Ledger.store hledger
      have hheights : t.heights = s.heights := congrArg Ledger.heights hledger
      rw [hstore] at hu hrest
      rw [hheights] at hu
      exact ⟨u, hu, by rw [Run.bind_ok hwrite, hrest]⟩

theorem persist_run (candidate : Candidate) {s : Session} (h : s.readOnly = false) :
    ∃ t, t.ledger = (s.ledger.keep candidate).2 ∧
      candidate.persist s = outcome t (s.ledger.keep candidate).1 := by
  obtain ⟨t, ht, hcommit⟩ := commit_run candidate.entries h
  have hheights : t.heights = s.heights := congrArg Ledger.heights ht
  unfold Ledger.keep
  dsimp only [Session.ledger] at ht ⊢
  cases hput : s.store.putAll candidate.entries with
  | mk result store =>
    rw [hput] at ht hcommit
    cases result with
    | error fault =>
      refine ⟨t, ht, ?_⟩
      cases candidate with
      | transaction tx => exact hcommit
      | block b height => exact Run.bind_error hcommit
    | ok u =>
      cases candidate with
      | transaction tx => exact ⟨t, ht, hcommit⟩
      | block b height =>
        have hrun : (Candidate.block b height).persist s =
            (Run.record b.id height >>= fun _ => Run.reach .accepted) t :=
          Run.bind_ok hcommit
        have hrecord := record_run b.id height t
        rw [hheights] at hrecord
        rw [hrun]
        dsimp only
        cases hrec : s.heights.record b.id height with
        | error fault =>
          rw [hrec] at hrecord
          exact ⟨t, ht, Run.bind_error hrecord⟩
        | ok heights =>
          rw [hrec] at hrecord
          refine ⟨_, ?_, Run.bind_ok hrecord⟩
          exact congrArg (Ledger.mk · heights) (congrArg Ledger.store ht)

/-- The caller is told how the validation ended, and is left with the ledger of its last session. -/
theorem Ledger.call_of_run {l : Ledger} {c : Call} {result : Except Fault Unit} {t : Session}
    (hrun : c.request.run c.settings (l.session c) = outcome t result) :
    l.call c = (.of result t.progress, t.ledger) := by
  unfold Ledger.call report
  rw [show ({ l.session c with progress := .start } : Session) = l.session c from rfl, hrun]
  cases result <;> rfl

/-- The examination of a call is stopped by its token and leaves no trace, or the call does what its
request does to the ledger. -/
theorem Ledger.call_examined (l : Ledger) (c : Call) :
    (∃ t, c.request.examine c.settings (l.session c) = .error .cancelled t ∧
        (l.session c).Disturbed t ∧ (l.call c).1.verdict = .cancelled ∧ (l.call c).2 = l) ∨
      ((l.call c).1.verdict = verdictOf (l.serve c.settings c.request).1 ∧
        (l.call c).2 = (l.serve c.settings c.request).2) := by
  obtain ⟨t, hkeeps, hjudged | ⟨hstop, hdisturbed⟩⟩ :=
    examine_observes c.settings c.request (l.session c)
  · refine .inr ?_
    have hl : t.ledger = l := hkeeps.ledger
    change _ = outcome t (l.judge c.settings c.request) at hjudged
    unfold Ledger.serve
    cases hjudge : l.judge c.settings c.request with
    | error fault =>
      rw [hjudge] at hjudged
      have hrun : c.request.run c.settings (l.session c) = outcome t (.error fault) := by
        rw [Request.run_eq, Run.bind_error hjudged]
        rfl
      rw [call_of_run hrun]
      exact ⟨rfl, hl⟩
    | ok candidate =>
      rw [hjudge] at hjudged
      obtain ⟨u, hu, hpersist⟩ := persist_run candidate (s := t) hkeeps.readOnly
      rw [hl] at hu hpersist
      have hrun : c.request.run c.settings (l.session c) = outcome u (l.keep candidate).1 := by
        rw [Request.run_eq, Run.bind_ok hjudged, hpersist]
      rw [call_of_run hrun]
      exact ⟨rfl, hu⟩
  · have hrun : c.request.run c.settings (l.session c) = outcome t (.error .cancelled) := by
      rw [Request.run_eq, Run.bind_error hstop]
      rfl
    refine .inl ⟨t, hstop, hdisturbed, ?_⟩
    rw [call_of_run hrun]
    exact ⟨rfl, hkeeps.ledger⟩

/-- A call is stopped by its token without a trace, or does what its request does to the ledger. -/
theorem Ledger.call_cases (l : Ledger) (c : Call) :
    (¬c.Undisturbed ∧ (l.call c).1.verdict = .cancelled ∧ (l.call c).2 = l) ∨
      ((l.call c).1.verdict = verdictOf (l.serve c.settings c.request).1 ∧
        (l.call c).2 = (l.serve c.settings c.request).2) := by
  obtain ⟨t, -, hdisturbed, hcancelled⟩ | hserved := l.call_examined c
  · exact .inl ⟨fun hc => hdisturbed.not_undisturbed (hc.session l), hcancelled⟩
  · exact .inr hserved

/-- A call that no one cancels does what its request does to the ledger. -/
theorem Ledger.call_undisturbed (l : Ledger) {c : Call} (hc : c.Undisturbed) :
    (l.call c).1.verdict = verdictOf (l.serve c.settings c.request).1 ∧
      (l.call c).2 = (l.serve c.settings c.request).2 := by
  rcases l.call_cases c with ⟨hdisturbed, -⟩ | hserved
  · exact absurd hc hdisturbed
  · exact hserved

/-- A call that ends well was judged in favour of, and all of its candidate was kept. -/
theorem Ledger.kept_of_okay {l : Ledger} {c : Call} (h : (l.call c).1.verdict = .okay) :
    ∃ candidate, l.judge c.settings c.request = .ok candidate ∧
      (l.keep candidate).1 = .ok () ∧ (l.call c).2 = (l.keep candidate).2 := by
  rcases l.call_cases c with ⟨-, hcancelled, -⟩ | ⟨hserved, hledger⟩
  · rw [hcancelled] at h
    cases h
  · rw [hserved, verdictOf_eq_okay_iff] at h
    rw [hledger]
    unfold Ledger.serve at h ⊢
    cases hjudged : l.judge c.settings c.request with
    | error fault =>
      rw [hjudged] at h
      cases h
    | ok candidate =>
      rw [hjudged] at h
      exact ⟨candidate, rfl, h, rfl⟩

end ChainRules.Chain
