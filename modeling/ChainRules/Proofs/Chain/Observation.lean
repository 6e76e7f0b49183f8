import Mathlib
import ChainRules.Chain.Call
import ChainRules.Proofs.Script.Cancellation

/-!
# Observing the ledger

Up to its first write a validation only looks at the ledger. Such a step comes to the result that
the ledger determines, unless the token stops it, and either way the ledger stays as it is. Steps of
this kind are put together from their parts, so that what a validation looks at is known without
following its session.
-/

namespace ChainRules.Chain

/-- Whether no one cancels the token of the session before a write. -/
structure Session.Undisturbed (s : Session) : Prop where
  token : s.token = .never
  beforeLookup : s.triggers.beforeLookup = none
  afterLookup : s.triggers.afterLookup = none

theorem Call.Undisturbed.session {c : Call} (hc : c.Undisturbed) (l : Ledger) :
    (l.session c).Undisturbed where
  token := hc.token
  beforeLookup := congrArg Triggers.beforeLookup hc.triggers
  afterLookup := congrArg Triggers.afterLookup hc.triggers

/-- The ledger is the same in both sessions, the second is not disturbed unless the first is, and
the token is not alive again in the second. -/
structure Session.Keeps (s t : Session) : Prop where
  store : t.store = s.store
  heights : t.heights = s.heights
  readOnly : t.readOnly = s.readOnly
  undisturbed : s.Undisturbed → t.Undisturbed
  cancelled : s.token.isCancelled = true → t.token.isCancelled = true

namespace Session.Keeps

variable {s t u : Session}

theorem refl (s : Session) : s.Keeps s := ⟨rfl, rfl, rfl, id, id⟩

theorem trans (h : s.Keeps t) (h' : t.Keeps u) : s.Keeps u where
  store := h'.store.trans h.store
  heights := h'.heights.trans h.heights
  readOnly := h'.readOnly.trans h.readOnly
  undisturbed := h'.undisturbed ∘ h.undisturbed
  cancelled := h'.cancelled ∘ h.cancelled

theorem ledger (h : s.Keeps t) : t.ledger = s.ledger := by
  rw [Session.ledger, h.store, h.heights, Session.ledger]

/-- Bookkeeping that leaves the token alone. -/
theorem of_eq (hstore : t.store = s.store) (hheights : t.heights = s.heights)
    (hreadOnly : t.readOnly = s.readOnly) (htoken : t.token = s.token)
    (htriggers : t.triggers = s.triggers) : s.Keeps t where
  store := hstore
  heights := hheights
  readOnly := hreadOnly
  undisturbed h :=
    ⟨htoken.trans h.token, htriggers ▸ h.beforeLookup, htriggers ▸ h.afterLookup⟩
  cancelled h := htoken ▸ h

/-- What has become of the session's token takes its place. -/
theorem withToken {token : Token} (h : s.token.Ages token) : s.Keeps { s with token := token } :=
  ⟨rfl, rfl, rfl, fun hs => ⟨h.never hs.token, hs.beforeLookup, hs.afterLookup⟩, h.cancelled⟩

/-- Triggers that never strike do not cancel. -/
theorem strike (s : Session) {trigger : Option Nat} (count : Nat)
    (h : s.Undisturbed → trigger = none) : s.Keeps (s.strike trigger count) := by
  unfold Session.strike
  split
  · rename_i hstrikes
    refine ⟨rfl, rfl, rfl, fun hs => ?_, fun _ => s.token.isCancelled_cancel⟩
    rw [h hs] at hstrikes
    cases hstrikes
  · exact refl s

end Session.Keeps

/-- The end of a step in a session. -/
def outcome {α : Type} (s : Session) : Except Fault α → EStateM.Result Fault Session α
  | .ok x => .ok x s
  | .error fault => .error fault s

/-- The token of a session that started as `s` is cancelled when it stands as `t`. -/
structure Session.Disturbed (s t : Session) : Prop where
  not_undisturbed : ¬s.Undisturbed
  cancelled : t.token.isCancelled = true

/-- A disturbance does not pass, and is due to what was there from the start. -/
theorem Session.Disturbed.keeps {s t u v : Session} (h : t.Disturbed u) (hst : s.Keeps t)
    (huv : u.Keeps v) : s.Disturbed v :=
  ⟨h.not_undisturbed ∘ hst.undisturbed, huv.cancelled h.cancelled⟩

/-- The step comes to the result that the ledger determines, or is stopped by its token; it changes
nothing in the ledger. -/
def Observes {α : Type} (x : Run α) (f : Ledger → Except Fault α) : Prop :=
  ∀ s, ∃ t, s.Keeps t ∧
    (x s = outcome t (f s.ledger) ∨ (x s = .error .cancelled t ∧ s.Disturbed t))

namespace Run

theorem bind_ok {α β : Type} {x : Run α} {g : α → Run β} {s t : Session} {a : α}
    (h : x s = .ok a t) : (x >>= g) s = g a t := by
  simp only [bind, EStateM.bind, h]

theorem bind_error {α β : Type} {x : Run α} {g : α → Run β} {s t : Session} {fault : Fault}
    (h : x s = .error fault t) : (x >>= g) s = .error fault t := by
  simp only [bind, EStateM.bind, h]

theorem attempt_ok {α : Type} {x : Run α} {s t : Session} {a : α} (h : x s = .ok a t) :
    attempt x s = .ok (.ok a) t := by
  simp only [attempt, h]

theorem attempt_error {α : Type} {x : Run α} {s t : Session} {fault : Fault}
    (h : x s = .error fault t) : attempt x s = .ok (.error fault) t := by
  simp only [attempt, h]

/-- A failure that is kept while something else succeeds without looking at the session. -/
theorem attempt_around_ok {α β γ : Type} (x : Run α) (b : β) (g : α → β → Run γ) :
    (do
      let result ← attempt x
      let b ← ofExcept (.ok b)
      let a ← ofExcept result
      g a b) = x >>= fun a => g a b := by
  funext s
  cases hs : x s with
  | ok a t => rw [bind_ok (attempt_ok hs), bind_ok hs]; rfl
  | error fault t => rw [bind_ok (attempt_error hs), bind_error hs]; rfl

theorem ofExcept_eq {α : Type} (e : Except Fault α) (s : Session) : ofExcept e s = outcome s e := by
  cases e <;> rfl

theorem check_eq {α : Type} (e : Except Violation α) :
    check e = ofExcept (e.mapError Fault.invalid) := by
  cases e <;> rfl

end Run

namespace Observes

variable {α β : Type}

theorem pure (a : α) : Observes (pure a) fun _ => .ok a :=
  fun s => ⟨s, .refl s, .inl rfl⟩

theorem ofExcept (e : Except Fault α) : Observes (Run.ofExcept e) fun _ => e :=
  fun s => ⟨s, .refl s, .inl (Run.ofExcept_eq e s)⟩

theorem throw (fault : Fault) : Observes (throw fault : Run α) fun _ => .error fault :=
  fun s => ⟨s, .refl s, .inl rfl⟩

theorem check (e : Except Violation α) :
    Observes (Run.check e) fun _ => e.mapError Fault.invalid := by
  rw [Run.check_eq]
  exact ofExcept _

theorem modify {g : Session → Session} (h : ∀ s : Session, s.Keeps (g s)) :
    Observes (modify g : Run PUnit) fun _ => .ok .unit :=
  fun s => ⟨g s, h s, .inl rfl⟩

theorem reach (stage : Stage) : Observes (Run.reach stage) fun _ => .ok () :=
  modify fun _ => .of_eq rfl rfl rfl rfl rfl

theorem bind {x : Run α} {f : Ledger → Except Fault α} {g : α → Run β}
    {h : Ledger → α → Except Fault β} (hx : Observes x f)
    (hg : ∀ a, Observes (g a) fun l => h l a) : Observes (x >>= g) fun l => f l >>= h l := by
  intro s
  show ∃ t, s.Keeps t ∧ (_ = outcome t (f s.ledger >>= h s.ledger) ∨ _)
  obtain ⟨t, hst, hresult | ⟨hstop, hdisturbed⟩⟩ := hx s
  · cases hf : f s.ledger with
    | error fault =>
      rw [hf] at hresult
      exact ⟨t, hst, .inl (Run.bind_error hresult)⟩
    | ok a =>
      rw [hf] at hresult
      obtain ⟨u, htu, hnext⟩ := hg a t
      rw [hst.ledger] at hnext
      refine ⟨u, hst.trans htu, ?_⟩
      rw [Run.bind_ok hresult]
      exact hnext.imp_right fun ⟨hstop, hdisturbed⟩ => ⟨hstop, hdisturbed.keeps hst (.refl u)⟩
  · exact ⟨t, hst, .inr ⟨Run.bind_error hstop, hdisturbed⟩⟩

/-- A step that only keeps the books, before what follows it. -/
theorem after {y : Run PUnit} {g : PUnit → Run β} {f : Ledger → Except Fault β}
    (hy : Observes y fun _ => .ok .unit) (hg : Observes (g .unit) f) : Observes (y >>= g) f :=
  hy.bind (h := fun l _ => f l) fun _ => hg

/-- Looking at the session is looking at its ledger, where nothing else of it is used. -/
theorem get_bind {g : Session → Run β} {h : Ledger → Except Fault β}
    (hg : ∀ s, Observes (g s) fun _ => h s.ledger) : Observes (get >>= g) h := by
  intro s
  exact hg s s

theorem ite {c : Prop} [Decidable c] {x y : Run α} {f g : Ledger → Except Fault α}
    (hx : c → Observes x f) (hy : ¬c → Observes y g) :
    Observes (if c then x else y) fun l => if c then f l else g l := by
  by_cases hc : c
  · simp only [hc, if_true]
    exact hx hc
  · simp only [hc, if_false]
    exact hy hc

/-- A refusal before what follows it. -/
theorem refuse {c : Prop} [Decidable c] {fault : Fault} {g : Unit → Run β}
    {h : Ledger → Except Fault β} (hg : Observes (g ()) h) :
    Observes (if c then (MonadExcept.throw fault : Run Unit) >>= g else g ())
      fun l => if c then .error fault else h l :=
  ite (fun _ s => ⟨s, .refl s, .inl rfl⟩) fun _ => hg

theorem forM {xs : List α} {g : α → Run PUnit} {h : Ledger → α → Except Fault PUnit}
    (hg : ∀ a, Observes (g a) fun l => h l a) : Observes (xs.forM g) fun l => xs.forM (h l) := by
  induction xs with
  | nil => exact pure _
  | cons a xs ih => exact (hg a).bind fun _ => ih

theorem poll : Observes Run.poll fun _ => .ok () := by
  intro s
  have hkeeps : s.Keeps { s with token := s.token.polled } :=
    .withToken s.token.ages_polled
  refine ⟨_, hkeeps, ?_⟩
  by_cases hcancelled : s.token.isCancelled = true
  · refine .inr ⟨by simp [Run.poll, hcancelled], fun hs => ?_, hkeeps.cancelled hcancelled⟩
    rw [hs.token] at hcancelled
    cases hcancelled
  · exact .inl (by simp [Run.poll, hcancelled, outcome])

/-- A failure that becomes an answer: that of the ledger, unless the token stopped the step. -/
theorem attempt {x : Run α} {f : Ledger → Except Fault α} (hx : Observes x f) (s : Session) :
    ∃ t e, s.Keeps t ∧ Run.attempt x s = .ok e t ∧
      (e = f s.ledger ∨ (e = .error .cancelled ∧ s.Disturbed t)) := by
  obtain ⟨t, hst, hresult | ⟨hstop, hdisturbed⟩⟩ := hx s
  · refine ⟨t, f s.ledger, hst, ?_, .inl rfl⟩
    cases hf : f s.ledger with
    | ok a => exact Run.attempt_ok (by rw [hresult, hf]; rfl)
    | error fault => exact Run.attempt_error (by rw [hresult, hf]; rfl)
  · exact ⟨t, _, hst, Run.attempt_error hstop, .inr ⟨rfl, hdisturbed⟩⟩

/-- A failure that is kept until something else is done. -/
theorem attempt_around {x : Run α} {f : Ledger → Except Fault α} {y : Run PUnit}
    (hx : Observes x f) (hy : Observes y fun _ => .ok .unit) :
    Observes (do
      let result ← Run.attempt x
      y
      Run.ofExcept result) f := by
  intro s
  obtain ⟨t, e, hst, hattempt, he⟩ := hx.attempt s
  obtain ⟨u, htu, hgoes | ⟨hstop, hdisturbed⟩⟩ := hy t
  · refine ⟨u, hst.trans htu, ?_⟩
    rw [Run.bind_ok hattempt, Run.bind_ok hgoes, Run.ofExcept_eq]
    rcases he with rfl | ⟨rfl, hdisturbed⟩
    · exact .inl rfl
    · exact .inr ⟨rfl, hdisturbed.keeps (.refl s) htu⟩
  · refine ⟨u, hst.trans htu, .inr ⟨?_, hdisturbed.keeps hst (.refl u)⟩⟩
    rw [Run.bind_ok hattempt, Run.bind_error hstop]

/-- A failure that gives way to that of something else, which does not look at the session. -/
theorem attempt_ofExcept {γ : Type} {x : Run α} {f : Ledger → Except Fault α} {e : Except Fault β}
    {g : α → β → Run γ} {h : Ledger → α → β → Except Fault γ} (hx : Observes x f)
    (hg : ∀ a b, Observes (g a b) fun l => h l a b) :
    Observes (do
      let result ← Run.attempt x
      let b ← Run.ofExcept e
      let a ← Run.ofExcept result
      g a b) fun l => (do
        let b ← e
        let a ← f l
        h l a b) := by
  cases e with
  | error fault =>
    intro s
    obtain ⟨t, result, hst, hattempt, -⟩ := hx.attempt s
    refine ⟨t, hst, .inl ?_⟩
    rw [Run.bind_ok hattempt]
    rfl
  | ok b =>
    rw [Run.attempt_around_ok]
    exact hx.bind fun a => hg a b

/-- Failures that are kept until all steps of a list were tried; the first of them counts. -/
theorem attempt_all {x : α → Run β} {f : Ledger → α → Except Fault β}
    (hx : ∀ a, Observes (x a) fun l => f l a) (xs : List α) :
    Observes (do
      let answers ← xs.mapM fun a => Run.attempt (x a)
      Run.ofExcept (answers.mapM fun answer => answer)) fun l => xs.mapM (f l) := by
  have htried : ∀ s, ∃ t answers, s.Keeps t ∧
      (xs.mapM fun a => Run.attempt (x a)) s = .ok answers t ∧
      ((answers.mapM fun answer => answer) = xs.mapM (f s.ledger) ∨
        ((answers.mapM fun answer => answer) = .error .cancelled ∧ s.Disturbed t)) := by
    induction xs with
    | nil => exact fun s => ⟨s, [], .refl s, rfl, .inl rfl⟩
    | cons a xs ih =>
      intro s
      obtain ⟨t, answer, hst, hattempt, hanswer⟩ := (hx a).attempt s
      obtain ⟨u, answers, htu, htried, hanswers⟩ := ih t
      rw [hst.ledger] at hanswers
      refine ⟨u, answer :: answers, hst.trans htu, ?_, ?_⟩
      · rw [List.mapM_cons, Run.bind_ok hattempt, Run.bind_ok htried]
        rfl
      · simp only [List.mapM_cons]
        rcases hanswer with rfl | ⟨rfl, hdisturbed⟩
        · -- behind a failure of its own, later cancellation does not show
          cases f s.ledger a with
          | error fault => exact .inl rfl
          | ok b =>
            rcases hanswers with hsame | ⟨hcancelled, hdisturbed⟩
            · exact .inl (by rw [hsame])
            · exact .inr ⟨by rw [hcancelled]; rfl, hdisturbed.keeps hst (.refl u)⟩
        · exact .inr ⟨rfl, hdisturbed.keeps (.refl s) htu⟩
  intro s
  obtain ⟨t, answers, hst, htried, hanswers⟩ := htried s
  refine ⟨t, hst, ?_⟩
  rw [Run.bind_ok htried, Run.ofExcept_eq]
  refine hanswers.imp (fun hsame => by rw [hsame]) fun ⟨hcancelled, hdisturbed⟩ => ⟨?_, hdisturbed⟩
  rw [hcancelled]
  rfl

end Observes

end ChainRules.Chain
