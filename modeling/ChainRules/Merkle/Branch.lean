import ChainRules.Merkle.Tree

/-!
# Merkle branches

The branch of a leaf holds the sibling of each node on the way from the leaf to the root. Hashing the
leaf with its siblings, on the side that the bits of its index say, gives the root again.
-/

namespace ChainRules.Merkle

/-- The neighbour of the node at `place` in a level: the one beside it, or itself at an odd end. -/
def sibling (level : List Node) (place : Nat) : Hash256 :=
  let beside := if place % 2 = 0 then min (place + 1) (level.length - 1) else place - 1
  (level[beside]?.map Node.digest).getD .zero

/-- The siblings on the way up from `place` in the first level; the last level is the root. -/
def siblings (place : Nat) : List (List Node) → List Hash256
  | [] => []
  | [_] => []
  | level :: next :: above => sibling level place :: siblings (place / 2) (next :: above)

/-- The branch of the leaf at `index`. -/
def Tree.branch (t : Tree) (index : Nat) : Except Fault (List Hash256) :=
  if t.leafCount ≤ index then .error (.invalidArgument (.leafIndex index t.leafCount))
  else .ok (siblings index (t.leaves :: t.above))

/-- The digest reached from the node at `place` by hashing it with its siblings in turn. -/
def climb (digest : Hash256) (place : Nat) : List Hash256 → Hash256
  | [] => digest
  | s :: above =>
    climb (if place % 2 = 0 then parent digest s else parent s digest) (place / 2) above

/-- Whether a branch leads from a leaf at `index` to a root. -/
def verifyBranch (leaf : Hash256) (branch : List Hash256) (index : Nat) (root : Hash256) : Bool :=
  climb leaf index branch = root

end ChainRules.Merkle
