import Mathlib
import ChainRules.Proofs.Script.Composition

/-!
# Cancelled scripts

Instructions neither read nor change the token of a machine; only the poll before each operation
does. A run under a token that someone cancels is therefore either stopped by it, or it is the run
under a token that no one cancels.
-/

namespace ChainRules

/-- What may become of a token: one that no one cancels stays so, and so does a cancelled one. -/
structure Token.Ages (t u : Token) : Prop where
  never : t = .never → u = .never
  cancelled : t.isCancelled = true → u.isCancelled = true

theorem Token.Ages.refl (t : Token) : t.Ages t := ⟨id, id⟩

theorem Token.Ages.trans {t u v : Token} (h : t.Ages u) (h' : u.Ages v) : t.Ages v :=
  ⟨h'.never ∘ h.never, h'.cancelled ∘ h.cancelled⟩

theorem Token.ages_polled (t : Token) : t.Ages t.polled := by
  refine ⟨fun hnever => ?_, isCancelled_polled⟩
  rw [hnever]
  rfl

namespace Script

@[simp] theorem Machine.withToken_withToken (t u : Token) (m : Machine) :
    (m.withToken t).withToken u = m.withToken u := rfl

theorem Machine.withToken_self (m : Machine) : m.withToken m.token = m := rfl

namespace Exec

variable {α β : Type}

/-- The result with another token in its machine. -/
def retoken (t : Token) : EStateM.Result Abort Machine α → EStateM.Result Abort Machine α
  | .ok x m => .ok x (m.withToken t)
  | .error cause m => .error cause (m.withToken t)

/-- The computation neither reads nor changes the token. -/
def Blind (x : Exec α) : Prop :=
  ∀ m t, x (m.withToken t) = retoken t (x m)

namespace Blind

theorem pure (a : α) : Blind (pure a : Exec α) := fun _ _ => rfl

theorem throw (cause : Abort) : Blind (throw cause : Exec α) := fun _ _ => rfl

theorem modify {f : Machine → Machine} (h : ∀ m t, f (m.withToken t) = (f m).withToken t) :
    Blind (modify f : Exec PUnit) := by
  intro m t
  exact congrArg (EStateM.Result.ok PUnit.unit) (h m t)

theorem bind {x : Exec α} {f : α → Exec β} (hx : Blind x) (hf : ∀ a, Blind (f a)) :
    Blind (x >>= f) := by
  intro m t
  show EStateM.bind x f (m.withToken t) = retoken t (EStateM.bind x f m)
  simp only [EStateM.bind, hx m t]
  cases x m with
  | ok a m' => exact hf a m' t
  | error cause m' => rfl

/-- A part of the machine other than the token may be read. -/
theorem get_bind {f : Machine → Exec β} (hread : ∀ m t, f (m.withToken t) = f m)
    (hf : ∀ m, Blind (f m)) : Blind (get >>= f) := by
  intro m t
  show f (m.withToken t) (m.withToken t) = retoken t (f m m)
  rw [hread, hf m m t]

end Blind

theorem blind_compositional : Compositional fun _ x => Blind x where
  pure := Blind.pure
  throw := Blind.throw
  bind := Blind.bind
  look := Blind.get_bind
  restack _ _ := .modify fun _ _ => rfl
  tally _ := .modify fun _ _ => rfl
  asked _ := .modify fun _ _ => rfl

/-- No instruction reads or changes the token. -/
theorem perform_blind (check : Checker) (op : Opcode) (rest : List Operation) (executing : Bool)
    (i : Instruction) : Blind (perform check op rest executing i) :=
  blind_compositional.perform _ _ _ _ _ (fun _ _ => .modify fun _ _ => rfl)
    fun _ => .modify fun _ _ => rfl

/-! ## Polls -/

/-- The computation reads the token only to be stopped by it. -/
def Heeds (x : Exec α) : Prop :=
  ∀ m, (m.token ≠ .never ∧ ∃ m', x m = .error .cancelled m' ∧ m'.token.isCancelled = true) ∨
    ∃ t, m.token.Ages t ∧ x m = retoken t (x (m.withToken .never))

theorem Blind.heeds {x : Exec α} (h : Blind x) : Heeds x := by
  intro m
  refine .inr ⟨m.token, .refl m.token, ?_⟩
  rw [← h, Machine.withToken_withToken, Machine.withToken_self]

theorem poll_heeds : Heeds poll := by
  intro m
  by_cases hcancelled : m.token.isCancelled = true
  · refine .inl ⟨?_, m.withToken m.token.polled, ?_, Token.isCancelled_polled hcancelled⟩
    · intro hnever
      rw [hnever] at hcancelled
      cases hcancelled
    · show (if m.token.isCancelled = true then (throw .cancelled : Exec Unit) else pure ())
        (m.withToken m.token.polled) = _
      rw [if_pos hcancelled]
      rfl
  · refine .inr ⟨m.token.polled, m.token.ages_polled, ?_⟩
    show (if m.token.isCancelled = true then (throw .cancelled : Exec Unit) else pure ())
      (m.withToken m.token.polled) = _
    rw [if_neg hcancelled]
    rfl

/-- A token that no one cancels is not cancelled by the computation either. -/
theorem Heeds.never_of_ok {x : Exec α} (hx : Heeds x) {m m' : Machine} {a : α}
    (hm : m.token = .never) (hrun : x m = .ok a m') : m'.token = .never := by
  have hself : m.withToken .never = m := by rw [← hm, Machine.withToken_self]
  rcases hx m with ⟨hnever, -⟩ | ⟨t, ht, hsame⟩
  · exact absurd hm hnever
  · rw [hself, hrun, ht.never hm] at hsame
    injection hsame with _ hmachine
    rw [hmachine]
    rfl

theorem Heeds.bind {x : Exec α} {f : α → Exec β} (hx : Heeds x) (hf : ∀ a, Heeds (f a)) :
    Heeds (x >>= f) := by
  intro m
  show (_ ∧ ∃ m', EStateM.bind x f m = _ ∧ _) ∨ ∃ t, _ ∧ EStateM.bind x f m =
    retoken t (EStateM.bind x f (m.withToken .never))
  simp only [EStateM.bind]
  rcases hx m with ⟨hnever, m', hstop, hcancelled⟩ | ⟨t, ht, hsame⟩
  · refine .inl ⟨hnever, m', ?_, hcancelled⟩
    rw [hstop]
  · rw [hsame]
    cases hrun : x (m.withToken .never) with
    | error cause m₁ => exact .inr ⟨t, ht, rfl⟩
    | ok a m₁ =>
      -- without cancellation the token stays as it is, so `m₁` is as the run of `f` wants it
      have hm₁ : m₁.withToken .never = m₁ := by
        rw [← hx.never_of_ok rfl hrun, Machine.withToken_self]
      simp only [retoken]
      rcases hf a (m₁.withToken t) with ⟨hnever, hstopped⟩ | ⟨t', ht', hsame'⟩
      · exact .inl ⟨fun hm => hnever (ht.never hm), hstopped⟩
      · rw [Machine.withToken_withToken, hm₁] at hsame'
        exact .inr ⟨t', ht.trans ht', hsame'⟩

theorem execute_heeds (check : Checker) (o : Operation) (rest : List Operation) :
    Heeds (execute check o rest) := by
  rw [execute_eq]
  refine poll_heeds.bind fun _ => Blind.heeds (.get_bind (fun _ _ => rfl) fun m => ?_)
  apply (blind_compositional.precheck o).bind
  intro _
  apply Blind.bind
  · exact blind_compositional.effect _ _ _ _ fun _ _ _ => perform_blind _ _ _ _ _
  · exact fun _ => blind_compositional.checkStacks

theorem run_heeds (check : Checker) (ops : List Operation) : Heeds (run check ops) := by
  induction ops with
  | nil => exact (Blind.pure _).heeds
  | cons o rest ih => exact (execute_heeds check o rest).bind fun _ => ih

theorem operations_heeds (check : Checker) (ops : List Operation) :
    Heeds (operations check ops) := by
  have hclosed : Blind (do if !(← get).branches.isEmpty then throw .unbalancedConditional) :=
    .get_bind (fun _ _ => rfl) fun _ => blind_compositional.insist
  unfold operations
  exact (Blind.modify fun _ _ => rfl).heeds.bind fun _ =>
    (run_heeds check ops).bind fun _ => hclosed.heeds

theorem script_heeds (check : Checker) (bytes : Bytes) : Heeds (script check bytes) := by
  unfold script
  dsimp only
  cases parse bytes with
  | ok ops =>
    have hops := operations_heeds check ops
    split
    · exact (Blind.throw _).heeds.bind fun _ => hops
    · exact hops
  | error cause =>
    have hthrow : Heeds (throw cause : Exec Unit) := (Blind.throw cause).heeds
    split
    · exact (Blind.throw _).heeds.bind fun _ => hthrow
    · exact hthrow

/-- A spend is judged as under a token that no one cancels, unless the token stops it. -/
theorem spend_heeds (check : Checker) (unlock lock : Bytes) : Heeds (spend check unlock lock) := by
  unfold spend
  exact (script_heeds check unlock).bind fun _ => (script_heeds check lock).bind fun _ =>
    (Blind.get_bind (fun _ _ => rfl) fun _ => .pure _).heeds

end Exec

end Script

end ChainRules
