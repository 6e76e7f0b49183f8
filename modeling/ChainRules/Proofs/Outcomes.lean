import Mathlib

/-!
# Outcomes and places

Steps that may fail succeed one after the other if each of them does, and fail as the first of them that
fails. What holds of every place in a list is said of its elements one by one, or by their indices.
-/

namespace ChainRules

section Outcomes

variable {ε ε' α β : Type}

/-- The cause of a failure. -/
def cause? : Except ε α → Option ε
  | .ok _ => none
  | .error cause => some cause

theorem cause?_eq_none_iff {x : Except ε α} : cause? x = none ↔ ∃ a, x = .ok a := by
  cases x <;> simp [cause?]

theorem cause?_map (f : α → β) (x : Except ε α) : cause? (f <$> x) = cause? x := by
  cases x <;> rfl

theorem mapError_eq_ok_iff {g : ε → ε'} {x : Except ε α} {a : α} :
    x.mapError g = .ok a ↔ x = .ok a := by
  cases x <;> simp [Except.mapError]

theorem bind_eq_ok_iff {x : Except ε α} {f : α → Except ε β} {b : β} :
    (x >>= f) = .ok b ↔ ∃ a, x = .ok a ∧ f a = .ok b := by
  cases x <;> simp [bind, Except.bind]

theorem bind_eq_error_iff {x : Except ε α} {f : α → Except ε β} {e : ε} :
    (x >>= f) = .error e ↔ x = .error e ∨ ∃ a, x = .ok a ∧ f a = .error e := by
  cases x <;> simp [bind, Except.bind]

/-- A step without an answer is followed by another one. -/
theorem then_eq_ok_iff {x : Except ε Unit} {y : Except ε β} {b : β} :
    (x >>= fun _ => y) = .ok b ↔ x = .ok () ∧ y = .ok b :=
  bind_eq_ok_iff.trans Unique.exists_iff

/-- What is refused under a condition goes on where the condition fails. -/
theorem refuse_eq_ok_iff {c : Prop} [Decidable c] {cause : ε} {next : Unit → Except ε α} {a : α} :
    (if c then (throw cause : Except ε Unit) >>= next else next ()) = .ok a ↔
      ¬c ∧ next () = .ok a := by
  by_cases hc : c <;> simp [hc, bind, Except.bind, throw, throwThe, MonadExceptOf.throw]

theorem refuse_eq_error_iff {c : Prop} [Decidable c] {cause e : ε} {next : Unit → Except ε α} :
    (if c then (throw cause : Except ε Unit) >>= next else next ()) = .error e ↔
      (c ∧ e = cause) ∨ (¬c ∧ next () = .error e) := by
  by_cases hc : c <;>
    simp [hc, bind, Except.bind, throw, throwThe, MonadExceptOf.throw, eq_comm]

/-- Steps that all succeed make a list of what they come to. -/
theorem mapM_eq_ok_iff {f : α → Except ε β} {xs : List α} {ys : List β} :
    xs.mapM f = .ok ys ↔ List.Forall₂ (fun x y => f x = .ok y) xs ys := by
  induction xs generalizing ys with
  | nil => simp [pure, Except.pure, eq_comm]
  | cons x xs ih =>
    rw [List.mapM_cons, bind_eq_ok_iff, List.forall₂_cons_left_iff]
    simp only [bind_eq_ok_iff, ih, pure, Except.pure, Except.ok.injEq]
    constructor
    · rintro ⟨y, hy, rest, hrest, rfl⟩
      exact ⟨y, rest, hy, hrest, rfl⟩
    · rintro ⟨y, rest, hy, hrest, rfl⟩
      exact ⟨y, hy, rest, hrest, rfl⟩

theorem forM_eq_ok_iff {f : α → Except ε Unit} {xs : List α} :
    xs.forM f = .ok () ↔ ∀ a ∈ xs, f a = .ok () := by
  induction xs with
  | nil => simp [pure, Except.pure]
  | cons a xs ih =>
    rw [List.forall_mem_cons, ← ih]
    exact then_eq_ok_iff

end Outcomes

section Places

variable {α β : Type}

/-- What holds of every place in a list holds of the first and, behind it, of every place in the
rest. -/
theorem forall_split_cons_iff {P : List α → α → Prop} {a : α} {rest : List α} :
    (∀ pre x post, a :: rest = pre ++ x :: post → P pre x) ↔
      P [] a ∧ ∀ pre x post, rest = pre ++ x :: post → P (a :: pre) x := by
  refine ⟨?_, ?_⟩
  · intro h
    refine ⟨h [] a rest rfl, fun pre x post heq => ?_⟩
    exact h (a :: pre) x post (by rw [heq, List.cons_append])
  · rintro ⟨hfirst, hrest⟩ pre x post heq
    cases pre with
    | nil =>
      obtain ⟨rfl, -⟩ := List.cons.inj heq
      exact hfirst
    | cons a' pre =>
      obtain ⟨rfl, hrest'⟩ := List.cons.inj heq
      exact hrest pre x post hrest'

/-- A place in a list is known by its index. -/
theorem forall_split_iff {P : List α → α → Prop} {xs : List α} :
    (∀ pre x post, xs = pre ++ x :: post → P pre x) ↔
      ∀ i x, xs[i]? = some x → P (xs.take i) x := by
  constructor
  · intro h i x hx
    obtain ⟨hi, rfl⟩ := List.getElem?_eq_some_iff.1 hx
    exact h _ _ (xs.drop (i + 1)) (by rw [← List.drop_eq_getElem_cons hi, List.take_append_drop])
  · rintro h pre x post rfl
    have hpre := h pre.length x (by simp)
    rwa [List.take_left'] at hpre
    rfl

theorem mem_mapIdx_iff {f : Nat → α → β} {xs : List α} {b : β} :
    b ∈ xs.mapIdx f ↔ ∃ i a, xs[i]? = some a ∧ b = f i a := by
  rw [List.mem_mapIdx]
  constructor
  · rintro ⟨i, hi, rfl⟩
    exact ⟨i, xs[i], List.getElem?_eq_getElem hi, rfl⟩
  · rintro ⟨i, a, ha, rfl⟩
    obtain ⟨hi, rfl⟩ := List.getElem?_eq_some_iff.1 ha
    exact ⟨i, hi, rfl⟩

theorem pairwise_mapIdx {R : β → β → Prop} {f : Nat → α → β} {xs : List α}
    (h : ∀ i j a b, i < j → R (f i a) (f j b)) : (xs.mapIdx f).Pairwise R := by
  rw [List.pairwise_iff_getElem]
  intro i j hi hj hij
  rw [List.getElem_mapIdx, List.getElem_mapIdx]
  exact h i j _ _ hij

/-- Steps that can each be taken well are all taken well together. -/
theorem exists_forall₂_iff {R : α → β → Prop} {Q : β → Prop} {xs : List α} :
    (∃ ys, List.Forall₂ R xs ys ∧ ∀ y ∈ ys, Q y) ↔ ∀ x ∈ xs, ∃ y, R x y ∧ Q y := by
  induction xs with
  | nil => simp
  | cons x xs ih =>
    rw [List.forall_mem_cons, ← ih]
    constructor
    · rintro ⟨_, hrelated, hall⟩
      obtain ⟨y, ys, hy, hys, rfl⟩ := List.forall₂_cons_left_iff.1 hrelated
      obtain ⟨hfirst, hrest⟩ := List.forall_mem_cons.1 hall
      exact ⟨⟨y, hy, hfirst⟩, ys, hys, hrest⟩
    · rintro ⟨⟨y, hy, hfirst⟩, ys, hys, hrest⟩
      exact ⟨y :: ys, .cons hy hys, List.forall_mem_cons.2 ⟨hfirst, hrest⟩⟩

end Places

end ChainRules
