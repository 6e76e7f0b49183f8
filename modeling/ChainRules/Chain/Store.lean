import ChainRules.Fault
import ChainRules.Keys

/-!
# The chain store

A store keeps blocks and transactions under their ids. An entry is never replaced: storing it again
changes nothing, and another entry under the same id is refused.
-/

namespace ChainRules.Chain

/-- Entries under their ids, in the order in which they were stored. -/
structure Store where
  entries : List (Hash256 × Entry)
  deriving DecidableEq

namespace Store

/-- A store without entries. -/
def empty : Store := ⟨[]⟩

/-- How many entries there are. -/
def size (s : Store) : Nat :=
  s.entries.length

/-- The entry under an id. -/
def get? (s : Store) (id : Hash256) : Option Entry :=
  underKey s.entries id

/-- Whether there is an entry under an id. -/
def contains (s : Store) (id : Hash256) : Bool :=
  (s.get? id).isSome

/-- Stores an entry. -/
def put (s : Store) (e : Entry) : Except Fault Store :=
  match s.get? e.id with
  | none => .ok ⟨s.entries ++ [(e.id, e)]⟩
  | some old => if old = e then .ok s else .error (.conflict (.entry e.kind e.id))

/-- An entry that was stored is found. -/
theorem get?_put_self {s t : Store} {e : Entry} (h : s.put e = .ok t) : t.get? e.id = some e := by
  unfold put at h
  split at h
  · rename_i hnone
    cases h
    exact underKey_of_first [] hnone
  · rename_i old hold
    split at h
    · rename_i heq
      cases h
      rw [hold, heq]
    · cases h

/-- Storing an entry changes nothing under other ids. -/
theorem get?_put_ne {s t : Store} {e : Entry} {id : Hash256} (h : s.put e = .ok t)
    (hne : e.id ≠ id) : t.get? id = s.get? id := by
  unfold put at h
  split at h
  · cases h
    rw [get?, underKey_concat, if_neg hne, Option.or_none, get?]
  · split at h
    · cases h; rfl
    · cases h

end Store

end ChainRules.Chain
