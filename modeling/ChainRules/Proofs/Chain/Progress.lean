import ChainRules.Proofs.Chain.Commit

/-!
# How far a validation has come

Most steps of a validation leave the note of its progress alone; only a stage that is reached is
written into it. So what holds of the progress wherever a validation may end is found by walking
through it: a step that observes the ledger may refuse or be stopped, with the note as it stands,
and otherwise what the ledger has answered is known to what follows.
-/

namespace ChainRules.Chain

variable {α β : Type}

/-- The session in which a step ends. -/
def ending : EStateM.Result Fault Session α → Session
  | .ok _ t => t
  | .error _ t => t

theorem ending_outcome (t : Session) (result : Except Fault α) : ending (outcome t result) = t := by
  cases result <;> rfl

/-- The step leaves the progress as it is, however it ends. -/
def Steady (x : Run α) : Prop :=
  ∀ s, (ending (x s)).progress = s.progress

namespace Steady

theorem pure (a : α) : Steady (pure a) := fun _ => rfl

theorem get : Steady (get : Run Session) := fun _ => rfl

theorem throw (fault : Fault) : Steady (throw fault : Run α) := fun _ => rfl

theorem ofExcept (e : Except Fault α) : Steady (Run.ofExcept e) := by
  intro s
  rw [Run.ofExcept_eq, ending_outcome]

theorem check (e : Except Violation α) : Steady (Run.check e) := by
  rw [Run.check_eq]
  exact ofExcept _

theorem modify {g : Session → Session} (h : ∀ s, (g s).progress = s.progress) :
    Steady (modify g : Run PUnit) := h

theorem poll : Steady Run.poll := by
  intro s
  unfold Run.poll
  cases s.token.isCancelled <;> rfl

theorem bind {x : Run α} {g : α → Run β} (hx : Steady x) (hg : ∀ a, Steady (g a)) :
    Steady (x >>= g) := by
  intro s
  have hfirst := hx s
  cases hrun : x s with
  | ok a t =>
    rw [hrun] at hfirst
    rw [Run.bind_ok hrun, hg a t]
    exact hfirst
  | error fault t =>
    rw [hrun] at hfirst
    rw [Run.bind_error hrun]
    exact hfirst

theorem ite {c : Prop} [Decidable c] {x y : Run α} (hx : Steady x) (hy : Steady y) :
    Steady (if c then x else y) := by
  split
  · exact hx
  · exact hy

theorem attempt {x : Run α} (hx : Steady x) : Steady (Run.attempt x) := by
  intro s
  have hfirst := hx s
  cases hrun : x s with
  | ok a t =>
    rw [hrun] at hfirst
    rw [Run.attempt_ok hrun]
    exact hfirst
  | error fault t =>
    rw [hrun] at hfirst
    rw [Run.attempt_error hrun]
    exact hfirst

theorem forM {xs : List α} {g : α → Run PUnit} (hg : ∀ a, Steady (g a)) : Steady (xs.forM g) := by
  induction xs with
  | nil => exact pure _
  | cons a xs ih => exact (hg a).bind fun _ => ih

theorem mapM {xs : List α} {g : α → Run β} (hg : ∀ a, Steady (g a)) : Steady (xs.mapM g) := by
  induction xs with
  | nil => exact pure _
  | cons a xs ih =>
    rw [List.mapM_cons]
    exact (hg a).bind fun b => ih.bind fun bs => pure _

end Steady

/-! ## The steps of a validation -/

theorem lookup_steady (id : Hash256) : Steady (Run.lookup id) := by
  have hread : Steady (do
      Run.poll
      return (← get).store.get? id : Run (Option Entry)) :=
    Steady.poll.bind fun _ => Steady.get.bind fun _ => .pure _
  refine .bind (.modify fun _ => rfl) fun _ => .bind (.modify fun s => (s.strike_frame _ _).2.2) ?_
  intro _
  exact hread.attempt.bind fun found =>
    .bind (.modify fun s => (s.strike_frame _ _).2.2) fun _ => .ofExcept found

theorem heightOf_steady (header : Header) : Steady (heightOf header) := by
  refine .ite (.pure 0) ((lookup_steady _).bind fun found => ?_)
  split
  · refine Steady.get.bind fun s => ?_
    split
    · exact .pure _
    · exact .throw _
  · exact .throw _

theorem resolve_steady (txs : List Identified) : Steady (resolve txs) := by
  have hfetch : ∀ ids, Steady (fetch ids) := by
    intro ids
    refine (Steady.mapM fun id => (lookup_steady id).attempt).bind fun answers => ?_
    exact (Steady.ofExcept _).bind fun entries => .pure _
  exact (Steady.check _).bind fun ids => (hfetch ids).bind fun fetched => .check _

theorem verifySpend_steady (spend : Spend) : Steady (verifySpend spend) := by
  intro s
  unfold verifySpend
  dsimp only
  split
  · split <;> rfl
  · split <;> rfl

theorem verifySpends_steady (settings : Settings) (spends : List Spend) :
    Steady (verifySpends settings spends) := by
  have hall : ∀ inputs : List Spend, Steady (inputs.forM verifySpend) :=
    fun _ => .forM verifySpend_steady
  unfold verifySpends
  refine .ite (.pure _) (Steady.poll.bind fun _ => .ite ?_ (hall _))
  exact (hall _).attempt.bind fun result => Steady.poll.bind fun _ => .ofExcept result

theorem commit_steady (entries : List Entry) : Steady (commit entries) := by
  refine .forM fun e => Steady.get.bind fun s => ?_
  have hput : Steady (Run.ofExcept (s.store.put e) >>= fun store => do
      modify fun s => { s with store, writes := s.writes + 1 }
      modify fun s => s.strike s.triggers.afterWrite s.writes : Run PUnit) :=
    (Steady.ofExcept _).bind fun store =>
      .bind (.modify fun _ => rfl) fun _ => .modify fun s => (s.strike_frame _ _).2.2
  split
  · exact (Steady.throw _).bind fun _ => hput
  · exact hput

theorem record_steady (id : Hash256) (height : Nat) : Steady (Run.record id height) :=
  Steady.get.bind fun _ => (Steady.ofExcept _).bind fun _ => .modify fun _ => rfl

/-! ## Walking through a validation -/

/-- However the step ends that starts over the ledger with the given progress, `Q` holds of what it
comes to and of the progress then. What it comes to is `none` where the token has stopped it. -/
def Concludes (l : Ledger) (p : Progress) (x : Run α)
    (Q : Option (Except Fault α) → Progress → Prop) : Prop :=
  ∀ s, s.ledger = l → s.progress = p → ∃ t, s.Keeps t ∧
    ((∃ result, x s = outcome t result ∧ Q (some result) t.progress) ∨
      (x s = .error .cancelled t ∧ s.Disturbed t ∧ Q none t.progress))

namespace Concludes

variable {l : Ledger} {p : Progress} {Q : Option (Except Fault β) → Progress → Prop}

theorem pure {b : β} (h : Q (some (.ok b)) p) : Concludes l p (pure b) Q := by
  rintro s - rfl
  exact ⟨s, .refl s, .inl ⟨.ok b, rfl, h⟩⟩

/-- A step that only writes into the note of the progress. -/
theorem note {p' : Progress} {g : Session → Session} {y : PUnit → Run β}
    (hkeeps : ∀ s : Session, s.Keeps (g s)) (hg : ∀ s, s.progress = p → (g s).progress = p')
    (h : Concludes l p' (y .unit) Q) : Concludes l p (modify g >>= y) Q := by
  rintro s rfl hp
  obtain ⟨t, hst, hend⟩ := h (g s) (hkeeps s).ledger (hg s hp)
  refine ⟨t, (hkeeps s).trans hst, hend.imp id fun ⟨hstop, hdisturbed, hQ⟩ => ⟨hstop, ?_, hQ⟩⟩
  exact hdisturbed.keeps (hkeeps s) (.refl t)

theorem reach {stage : Stage} {y : Unit → Run β}
    (h : Concludes l { p with stage := some stage } (y ()) Q) :
    Concludes l p (Run.reach stage >>= y) Q := by
  refine note (fun _ => .of_eq rfl rfl rfl rfl rfl) (fun s hs => ?_) h
  rw [hs]

/-- A step that observes the ledger and notes nothing: it may be stopped or refuse, or what follows
may rely on what it has observed. -/
theorem step {x : Run α} {f : Ledger → Except Fault α} {g : α → Run β} (hx : Observes x f)
    (hsteady : Steady x) (hstop : Q none p) (hfail : ∀ fault, f l = .error fault →
      Q (some (.error fault)) p) (hnext : ∀ a, f l = .ok a → Concludes l p (g a) Q) :
    Concludes l p (x >>= g) Q := by
  rintro s rfl hp
  obtain ⟨t, hst, hresult | ⟨hstopped, hdisturbed⟩⟩ := hx s
  · have hprogress : t.progress = p := by
      have hsame := hsteady s
      rw [hresult, ending_outcome, hp] at hsame
      exact hsame
    cases hf : f s.ledger with
    | error fault =>
      rw [hf] at hresult
      refine ⟨t, hst, .inl ⟨.error fault, Run.bind_error hresult, ?_⟩⟩
      rw [hprogress]
      exact hfail fault hf
    | ok a =>
      rw [hf] at hresult
      obtain ⟨u, htu, hend⟩ := hnext a hf t hst.ledger hprogress
      refine ⟨u, hst.trans htu, ?_⟩
      rw [Run.bind_ok hresult]
      refine hend.imp id fun ⟨hstop, hdisturbed, hQ⟩ => ⟨hstop, ?_, hQ⟩
      exact hdisturbed.keeps hst (.refl u)
  · have hprogress : t.progress = p := by
      have hsame := hsteady s
      rw [hstopped, hp] at hsame
      exact hsame
    refine ⟨t, hst, .inr ⟨Run.bind_error hstopped, hdisturbed, ?_⟩⟩
    rw [hprogress]
    exact hstop

/-- A failure that gives way to that of something else, which does not look at the session. -/
theorem attempt_ofExcept {γ : Type} {x : Run α} {f : Ledger → Except Fault α} {e : Except Fault γ}
    {g : α → γ → Run β} (hx : Observes x f) (hsteady : Steady x) (hstop : Q none p)
    (hother : ∀ fault, e = .error fault → Q (some (.error fault)) p)
    (hfail : ∀ fault, f l = .error fault → Q (some (.error fault)) p)
    (hnext : ∀ a c, f l = .ok a → e = .ok c → Concludes l p (g a c) Q) :
    Concludes l p (do
      let result ← Run.attempt x
      let c ← Run.ofExcept e
      let a ← Run.ofExcept result
      g a c) Q := by
  cases e with
  | error fault =>
    rintro s - hp
    obtain ⟨t, result, hst, hattempt, -⟩ := hx.attempt s
    have hprogress : t.progress = p := by
      have hsame := hsteady.attempt s
      rw [hattempt, hp] at hsame
      exact hsame
    refine ⟨t, hst, .inl ⟨.error fault, Run.bind_ok hattempt, ?_⟩⟩
    rw [hprogress]
    exact hother fault rfl
  | ok c =>
    rw [Run.attempt_around_ok]
    exact step hx hsteady hstop hfail fun a ha => hnext a c ha rfl

end Concludes

end ChainRules.Chain
