import ChainRules.Fault
import ChainRules.Keys

/-!
# The height index

Accepted blocks have a height, which is recorded once and never changes. The tip is the first block
that was recorded at the greatest height. Heights are words of 64 bits, kept here as numbers: that they
are below `2 ^ 64` is for whoever records them to see to.
-/

namespace ChainRules.Chain

/-- The recorded heights, in the order of recording, and the tip. -/
structure Heights where
  entries : List (Hash256 × Nat)
  tip : Option (Hash256 × Nat)
  deriving DecidableEq

namespace Heights

/-- An index without heights. -/
def empty : Heights := ⟨[], none⟩

/-- How many heights are recorded. -/
def size (h : Heights) : Nat :=
  h.entries.length

/-- The height of a block. -/
def get? (h : Heights) (id : Hash256) : Option Nat :=
  underKey h.entries id

/-- The tip after a block at a height that is new to the index. -/
def raised (tip : Option (Hash256 × Nat)) (id : Hash256) (height : Nat) : Hash256 × Nat :=
  match tip with
  | none => (id, height)
  | some top => if top.2 < height then (id, height) else top

/-- Records the height of a block. -/
def record (h : Heights) (id : Hash256) (height : Nat) : Except Fault Heights :=
  match h.get? id with
  | none => .ok ⟨h.entries ++ [(id, height)], some (raised h.tip id height)⟩
  | some recorded =>
    if recorded = height then .ok h else .error (.conflict (.height id recorded))

/-- A height that was recorded is found. -/
theorem get?_record_self {h k : Heights} {id : Hash256} {height : Nat}
    (hr : h.record id height = .ok k) : k.get? id = some height := by
  unfold record at hr
  split at hr
  · rename_i hnone
    cases hr
    exact underKey_of_first [] hnone
  · rename_i recorded hrec
    split at hr
    · rename_i heq
      cases hr
      rw [hrec, heq]
    · cases hr

/-- Recording a height changes no other block's. -/
theorem get?_record_ne {h k : Heights} {id other : Hash256} {height : Nat}
    (hr : h.record id height = .ok k) (hne : id ≠ other) : k.get? other = h.get? other := by
  unfold record at hr
  split at hr
  · cases hr
    rw [get?, underKey_concat, if_neg hne, Option.or_none, get?]
  · split at hr
    · cases hr; rfl
    · cases hr

end Heights

end ChainRules.Chain
