import ChainRules.Proofs.Chain.Commit

/-!
# What stores and height indices contain

Entries and heights are only ever added. The laws here say what is found after an entry was stored
or a height was recorded, and when that is refused.
-/

namespace ChainRules.Chain

/-- Entries of which no two have the same id. -/
def DistinctIds (es : List Entry) : Prop :=
  ∀ a ∈ es, ∀ b ∈ es, a.id = b.id → a = b

instance (es : List Entry) : Decidable (DistinctIds es) :=
  inferInstanceAs (Decidable (∀ a ∈ es, ∀ b ∈ es, a.id = b.id → a = b))

theorem DistinctIds.mono {es fs : List Entry} (h : DistinctIds es) (hsub : fs ⊆ es) :
    DistinctIds fs :=
  fun a ha b hb => h a (hsub ha) b (hsub hb)

theorem distinctIds_cons_iff {e : Entry} {es : List Entry} :
    DistinctIds (e :: es) ↔ (∀ e' ∈ es, e.id = e'.id → e = e') ∧ DistinctIds es := by
  refine ⟨?_, ?_⟩
  · intro h
    refine ⟨fun e' he' => h e List.mem_cons_self e' (List.mem_cons_of_mem _ he'), ?_⟩
    exact h.mono (List.subset_cons_self e es)
  · rintro ⟨hfirst, hrest⟩ a ha b hb hid
    rcases List.mem_cons.1 ha with rfl | ha' <;> rcases List.mem_cons.1 hb with rfl | hb'
    · rfl
    · exact hfirst b hb' hid
    · exact (hfirst a ha' hid.symm).symm
    · exact hrest a ha' b hb' hid

namespace Store

/-- The entries without the ids under which they are stored. -/
def items (s : Store) : List Entry :=
  s.entries.map Prod.snd

/-- Every entry is stored under its own id, and there is one entry under each id. -/
structure Keyed (s : Store) : Prop where
  own : ∀ p ∈ s.entries, p.2.id = p.1
  unique : (s.entries.map Prod.fst).Nodup

/-- Everything that is found in the first store is found in the second. -/
def Extends (t s : Store) : Prop :=
  ∀ id e, s.get? id = some e → t.get? id = some e

variable {s t : Store} {e x : Entry} {id : Hash256}

theorem keyed_empty : empty.Keyed :=
  ⟨fun _ h => (List.not_mem_nil h).elim, List.nodup_nil⟩

theorem Keyed.id_eq (hs : s.Keyed) (h : s.get? id = some x) : x.id = id :=
  hs.own _ (mem_of_underKey h)

theorem Keyed.mem_items_iff (hs : s.Keyed) : e ∈ s.items ↔ s.get? e.id = some e := by
  refine ⟨?_, ?_⟩
  · intro he
    obtain ⟨p, hp, rfl⟩ := List.mem_map.1 he
    rw [hs.own p hp]
    exact underKey_of_mem hs.unique hp
  · intro hfound
    exact List.mem_map_of_mem (f := Prod.snd) (mem_of_underKey hfound)

theorem put_eq_ok_iff :
    s.put e = .ok t ↔
      (s.get? e.id = none ∧ t = ⟨s.entries ++ [(e.id, e)]⟩) ∨ (s.get? e.id = some e ∧ t = s) := by
  unfold put
  cases s.get? e.id with
  | none => simp [eq_comm]
  | some old =>
    by_cases hsame : old = e
    · simp [hsame, eq_comm]
    · simp [hsame]

/-- What is found after an entry was stored: the entry under its id, and what was there before. -/
theorem get?_of_put (h : s.put e = .ok t) (id : Hash256) :
    t.get? id = if id = e.id then some e else s.get? id := by
  by_cases hid : id = e.id
  · rw [if_pos hid, hid, get?_put_self h]
  · rw [if_neg hid, get?_put_ne h (Ne.symm hid)]

/-- What is found was found before, or it is the entry that was stored. -/
theorem get?_put_iff (h : s.put e = .ok t) :
    t.get? id = some x ↔ s.get? id = some x ∨ (x = e ∧ id = e.id) := by
  rw [get?_of_put h]
  by_cases hid : id = e.id
  · subst hid
    rw [if_pos rfl, Option.some.injEq]
    rcases put_eq_ok_iff.1 h with ⟨hnone, -⟩ | ⟨hsome, -⟩
    · simp [hnone, eq_comm]
    · simp [hsome, eq_comm]
  · simp [hid]

theorem extends_put (h : s.put e = .ok t) : t.Extends s :=
  fun _ _ hs => (get?_put_iff h).2 (.inl hs)

theorem Extends.refl (s : Store) : s.Extends s := fun _ _ h => h

theorem Extends.trans {u : Store} (h : u.Extends t) (h' : t.Extends s) : u.Extends s :=
  fun id e hs => h id e (h' id e hs)

theorem Keyed.put (hs : s.Keyed) (h : s.put e = .ok t) : t.Keyed := by
  rcases put_eq_ok_iff.1 h with ⟨hnone, rfl⟩ | ⟨-, rfl⟩
  · refine ⟨?_, ?_⟩
    · intro p hp
      rcases List.mem_append.1 hp with hold | hnew
      · exact hs.own p hold
      · rw [List.mem_singleton.1 hnew]
    · exact nodup_keys_concat hs.unique hnone
  · exact hs

/-- Storing is refused only where another entry has the same id. -/
theorem put_of_distinctIds {es : List Entry} (hs : s.Keyed) (h : DistinctIds (s.items ++ e :: es)) :
    ∃ t, s.put e = .ok t ∧ DistinctIds (t.items ++ es) := by
  cases hget : s.get? e.id with
  | none =>
    refine ⟨_, put_eq_ok_iff.2 (.inl ⟨hget, rfl⟩), h.mono fun a ha => ?_⟩
    simpa [items] using ha
  | some old =>
    have hmem : old ∈ s.items := List.mem_map_of_mem (f := Prod.snd) (mem_of_underKey hget)
    have hmem' : e ∈ s.items ++ e :: es := List.mem_append_right _ List.mem_cons_self
    have hsame : old = e := h old (List.mem_append_left _ hmem) e hmem' (hs.id_eq hget)
    refine ⟨s, put_eq_ok_iff.2 (.inr ⟨by rw [hget, hsame], rfl⟩), h.mono fun a ha => ?_⟩
    exact List.mem_append.2 ((List.mem_append.1 ha).imp_right (List.mem_cons_of_mem _))

theorem putAll_of_distinctIds {es : List Entry} (hs : s.Keyed) (h : DistinctIds (s.items ++ es)) :
    (s.putAll es).1 = .ok () := by
  induction es generalizing s with
  | nil => rfl
  | cons e es ih =>
    obtain ⟨t, hput, ht⟩ := put_of_distinctIds hs h
    rw [putAll, hput]
    exact ih (hs.put hput) ht

theorem putAll_append (es fs : List Entry) :
    s.putAll (es ++ fs) = match s.putAll es with
      | (.ok (), t) => t.putAll fs
      | (.error fault, t) => (.error fault, t) := by
  induction es generalizing s with
  | nil => rfl
  | cons e es ih =>
    rw [List.cons_append, putAll, putAll]
    cases s.put e with
    | error fault => rfl
    | ok t => exact ih

theorem extends_putAll (es : List Entry) : (s.putAll es).2.Extends s := by
  induction es generalizing s with
  | nil => exact .refl s
  | cons e es ih =>
    rw [putAll]
    cases hput : s.put e with
    | error fault => exact .refl s
    | ok t => exact ih.trans (extends_put hput)

/-- An entry can be stored unless another one is kept under its id. -/
theorem exists_put_iff : (∃ t, s.put e = .ok t) ↔ ∀ old, s.get? e.id = some old → old = e := by
  simp only [put_eq_ok_iff, exists_or, exists_and_left, exists_eq, and_true]
  cases s.get? e.id <;> simp

/-- Entries can all be stored if and only if none is in conflict with what is stored or with another
one of them. -/
theorem putAll_eq_ok_iff {es : List Entry} :
    (s.putAll es).1 = .ok () ↔
      (∀ e ∈ es, ∀ old, s.get? e.id = some old → old = e) ∧ DistinctIds es := by
  induction es generalizing s with
  | nil => simp [putAll, DistinctIds]
  | cons e es ih =>
    rw [putAll, List.forall_mem_cons, ← exists_put_iff]
    cases hput : s.put e with
    | error fault => simp
    | ok t =>
      have hfound : ∀ e', (∀ old, t.get? e'.id = some old → old = e') ↔
          (∀ old, s.get? e'.id = some old → old = e') ∧ (e.id = e'.id → e = e') := by
        intro e'
        simp only [get?_put_iff hput, or_imp, forall_and]
        refine and_congr_right' ⟨fun h hid => h e ⟨rfl, hid.symm⟩, ?_⟩
        rintro h old ⟨rfl, hid⟩
        exact h hid.symm
      simp only [ih, hfound, distinctIds_cons_iff, forall_and, Except.ok.injEq, exists_eq',
        true_and, and_assoc]

/-- What is found after entries were all stored: what was found before, and the entries. -/
theorem get?_putAll_iff {es : List Entry} (h : (s.putAll es).1 = .ok ()) :
    (s.putAll es).2.get? id = some x ↔ s.get? id = some x ∨ (x ∈ es ∧ id = x.id) := by
  induction es generalizing s with
  | nil => simp [putAll]
  | cons e es ih =>
    rw [putAll] at h ⊢
    cases hput : s.put e with
    | error fault =>
      rw [hput] at h
      cases h
    | ok t =>
      rw [hput] at h
      dsimp only at h ⊢
      rw [ih h, get?_put_iff hput, List.mem_cons, or_and_right, or_assoc]
      refine or_congr_right (or_congr_left (and_congr_right ?_))
      rintro rfl
      exact Iff.rfl

/-- Entries that were all stored are found. -/
theorem get?_putAll {es : List Entry} (h : (s.putAll es).1 = .ok ()) (he : e ∈ es) :
    (s.putAll es).2.get? e.id = some e :=
  (get?_putAll_iff h).2 (.inr ⟨he, rfl⟩)

end Store

namespace Heights

variable {h k : Heights} {id other : Hash256} {height n : Nat}

theorem record_eq_ok_iff :
    h.record id height = .ok k ↔
      (h.get? id = none ∧ k = ⟨h.entries ++ [(id, height)], some (raised h.tip id height)⟩) ∨
        (h.get? id = some height ∧ k = h) := by
  unfold record
  cases h.get? id with
  | none => simp [eq_comm]
  | some recorded =>
    by_cases hsame : recorded = height
    · simp [hsame, eq_comm]
    · simp [hsame]

/-- A height can be recorded unless another one is recorded for the block. -/
theorem exists_record_iff :
    (∃ k, h.record id height = .ok k) ↔ ∀ n, h.get? id = some n → n = height := by
  simp only [record_eq_ok_iff, exists_or, exists_and_left, exists_eq, and_true]
  cases h.get? id <;> simp

/-- What is found after a height was recorded: what was found before, and the height. -/
theorem get?_record_iff (hr : h.record id height = .ok k) :
    k.get? other = some n ↔ h.get? other = some n ∨ (n = height ∧ other = id) := by
  by_cases hid : id = other
  · subst hid
    rw [get?_record_self hr, Option.some.injEq]
    rcases record_eq_ok_iff.1 hr with ⟨hnone, -⟩ | ⟨hsome, -⟩
    · simp [hnone, eq_comm]
    · simp [hsome, eq_comm]
  · rw [get?_record_ne hr hid]
    simp [Ne.symm hid]

theorem nodup_keys_record (hkeys : (h.entries.map Prod.fst).Nodup)
    (hr : h.record id height = .ok k) : (k.entries.map Prod.fst).Nodup := by
  rcases record_eq_ok_iff.1 hr with ⟨hnone, rfl⟩ | ⟨-, rfl⟩
  · exact nodup_keys_concat hkeys hnone
  · exact hkeys

/-- The tip is the first block that was recorded at the greatest height. -/
structure Topped (h : Heights) : Prop where
  none_iff : h.tip = none ↔ h.entries = []
  first : ∀ top, h.tip = some top → ∃ before after, h.entries = before ++ top :: after ∧
    (∀ p ∈ before, p.2 < top.2) ∧ ∀ p ∈ after, p.2 ≤ top.2

theorem topped_empty : Topped empty :=
  ⟨⟨fun _ => rfl, fun _ => rfl⟩, fun _ htop => by cases htop⟩

theorem Topped.record (ht : h.Topped) (hr : h.record id height = .ok k) : k.Topped := by
  rcases record_eq_ok_iff.1 hr with ⟨-, rfl⟩ | ⟨-, rfl⟩
  · refine ⟨by simp, fun top htop => ?_⟩
    cases htop
    unfold raised
    cases hold : h.tip with
    | none =>
      have hentries := ht.none_iff.1 hold
      exact ⟨[], [], by rw [hentries, List.nil_append], by simp, by simp⟩
    | some top =>
      obtain ⟨before, after, hentries, hbefore, hafter⟩ := ht.first top hold
      dsimp only
      split
      · rename_i habove
        refine ⟨h.entries, [], rfl, fun p hp => ?_, by simp⟩
        rw [hentries] at hp
        rcases List.mem_append.1 hp with hp | hp
        · exact (hbefore p hp).trans habove
        · rcases List.mem_cons.1 hp with rfl | hp
          · exact habove
          · exact (hafter p hp).trans_lt habove
      · rename_i hbelow
        refine ⟨before, after ++ [(id, height)], by rw [hentries]; simp, hbefore, fun p hp => ?_⟩
        rcases List.mem_append.1 hp with hp | hp
        · exact hafter p hp
        · rw [List.mem_singleton.1 hp]
          exact Nat.le_of_not_lt hbelow
  · exact ht

variable {top : Hash256 × Nat}

theorem raised_of_higher {tip : Option (Hash256 × Nat)}
    (hhigher : ∀ top, tip = some top → top.2 < height) : raised tip id height = (id, height) := by
  cases tip with
  | none => rfl
  | some top => exact if_pos (hhigher top rfl)

theorem raised_of_le (hle : height ≤ top.2) : raised (some top) id height = top :=
  if_neg (Nat.not_lt.2 hle)

/-- Recording a height does not lower the tip. -/
theorem le_tip_record (hr : h.record id height = .ok k) (htop : h.tip = some top) :
    ∃ top', k.tip = some top' ∧ top.2 ≤ top'.2 := by
  rcases record_eq_ok_iff.1 hr with ⟨-, rfl⟩ | ⟨-, rfl⟩
  · refine ⟨_, rfl, ?_⟩
    rw [htop]
    by_cases hhigher : top.2 < height
    · rw [raised_of_higher fun top' heq => by rwa [← Option.some.inj heq]]
      exact hhigher.le
    · rw [raised_of_le (Nat.le_of_not_lt hhigher)]
  · exact ⟨top, htop, le_rfl⟩

/-- The tip that a height leads to, whether or not it was recorded before, if what is recorded
already is not above the tip. -/
theorem tip_record (hr : h.record id height = .ok k)
    (hrecorded : h.get? id = some height → ∃ top, h.tip = some top ∧ height ≤ top.2) :
    k.tip = some (raised h.tip id height) := by
  rcases record_eq_ok_iff.1 hr with ⟨-, rfl⟩ | ⟨hfound, rfl⟩
  · rfl
  · obtain ⟨top, htop, hle⟩ := hrecorded hfound
    rw [htop, raised_of_le hle]

end Heights

end ChainRules.Chain
