/-!
# Entries under keys

A list of entries under keys is searched from the front, so that the first entry for a key is what is
found under it, whatever stands behind.
-/

namespace ChainRules

section Keys

variable {κ α : Type} [DecidableEq κ] {entries : List (κ × α)} {key : κ} {x : α}

/-- What is kept under a key in a list that is searched from the front. -/
def underKey (entries : List (κ × α)) (key : κ) : Option α :=
  entries.lookup key

theorem underKey_append (entries more : List (κ × α)) (key : κ) :
    underKey (entries ++ more) key = (underKey entries key).or (underKey more key) :=
  List.lookup_append

theorem underKey_cons (entries : List (κ × α)) (key : κ) (p : κ × α) :
    underKey (p :: entries) key = if p.1 = key then some p.2 else underKey entries key := by
  obtain ⟨first, value⟩ := p
  unfold underKey
  rw [List.lookup_cons]
  by_cases hkey : first = key
  · rw [beq_iff_eq.2 hkey.symm, if_pos hkey]
  · rw [beq_eq_false_iff_ne.2 (Ne.symm hkey), if_neg hkey]

/-- What is found in a longer list: what was found before, or else the new entry. -/
theorem underKey_concat (entries : List (κ × α)) (key : κ) (p : κ × α) :
    underKey (entries ++ [p]) key =
      (underKey entries key).or (if p.1 = key then some p.2 else none) := by
  rw [underKey_append, underKey_cons]
  rfl

/-- Where the entries are made of other things, it is the first of these with the key that counts. -/
theorem underKey_map {β : Type} (keyOf : β → κ) (valueOf : β → α) (bs : List β) (key : κ) :
    underKey (bs.map fun b => (keyOf b, valueOf b)) key =
      (bs.find? (keyOf · = key)).map valueOf := by
  induction bs with
  | nil => rfl
  | cons b bs ih =>
    rw [List.map_cons, underKey_cons, ih]
    by_cases hkey : keyOf b = key
    · simp [hkey]
    · simp [hkey]

/-- The first entry for a key is what is found under it. -/
theorem underKey_of_first {p : κ × α} (later : List (κ × α)) (hnew : underKey entries p.1 = none) :
    underKey (entries ++ p :: later) p.1 = some p.2 := by
  rw [underKey_append, hnew, Option.none_or, underKey_cons, if_pos rfl]

theorem mem_of_underKey (h : underKey entries key = some x) : (key, x) ∈ entries := by
  obtain ⟨before, after, rfl, -⟩ := List.lookup_eq_some_iff.1 h
  exact List.mem_append_right _ List.mem_cons_self

theorem underKey_eq_none_iff : underKey entries key = none ↔ key ∉ entries.map Prod.fst := by
  induction entries with
  | nil => simp [underKey]
  | cons p entries ih =>
    rw [underKey_cons, List.map_cons, List.mem_cons, not_or, ← ih]
    by_cases hkey : p.1 = key
    · simp [hkey]
    · simp [hkey, Ne.symm hkey]

/-- Where no key occurs twice, every entry is found. -/
theorem underKey_of_mem (hkeys : (entries.map Prod.fst).Nodup) (h : (key, x) ∈ entries) :
    underKey entries key = some x := by
  obtain ⟨before, after, rfl⟩ := List.append_of_mem h
  rw [List.map_append, List.map_cons, List.nodup_append] at hkeys
  have hnew : key ∉ before.map Prod.fst :=
    fun hmem => hkeys.2.2 key hmem key List.mem_cons_self rfl
  exact underKey_of_first after (underKey_eq_none_iff.2 hnew)

/-- A key that is new may be added. -/
theorem nodup_keys_concat (hkeys : (entries.map Prod.fst).Nodup)
    (hnew : underKey entries key = none) : ((entries ++ [(key, x)]).map Prod.fst).Nodup := by
  rw [List.map_append, List.nodup_append]
  refine ⟨hkeys, by simp, fun key' hold key'' hkey'' heq => ?_⟩
  rw [heq, List.mem_singleton.1 hkey''] at hold
  exact underKey_eq_none_iff.1 hnew hold

end Keys

end ChainRules
