import ChainRules.Digest.Sha256
import ChainRules.Fault

/-!
# Merkle trees

A tree is built in levels: the leaves, then the parents of each two neighbours, up to a single root. An
odd node at the end of a level is its own neighbour. Nodes are numbered level by level from the first
leaf on, so children come before their parent and the root comes last.
-/

namespace ChainRules.Merkle

/-- The byte string that is hashed for a parent: the digests of its children. -/
def pairBytes (left right : Hash256) : Bytes :=
  left.bytes ++ right.bytes

/-- The digest of a parent. -/
def parent (left right : Hash256) : Hash256 :=
  Digest.hash256 (pairBytes left right)

/-- A node, with the numbers of its children if it has some. -/
structure Node where
  digest : Hash256
  children : Option (Nat × Nat)
  deriving DecidableEq

/-- Whether the node has no children. -/
def Node.isLeaf (n : Node) : Bool :=
  n.children.isNone

/-- The parents of a level whose nodes are numbered from `first`. -/
def parents (first : Nat) : List Hash256 → List Node
  | [] => []
  | [a] => [⟨parent a a, some (first, first)⟩]
  | a :: b :: rest => ⟨parent a b, some (first, first + 1)⟩ :: parents (first + 2) rest

/-- The levels above a level whose nodes are numbered from `first`. There are fewer of them than nodes
in the level, which is the fuel that a tree starts with. -/
def levelsAbove : (fuel first : Nat) → List Hash256 → List (List Node)
  | 0, _, _ => []
  | fuel + 1, first, level =>
    if level.length ≤ 1 then []
    else
      let above := parents first level
      above :: levelsAbove fuel (first + level.length) (above.map Node.digest)

/-- A tree: at least one leaf, and the levels above the leaves. -/
structure Tree where
  leaves : List Node
  above : List (List Node)
  nonempty : leaves ≠ []
  deriving DecidableEq

namespace Tree

/-- The tree over a list of digests, which must not be empty. -/
def build : List Hash256 → Except Fault Tree
  | [] => .error (.invalidArgument .noLeaves)
  | leaf :: rest => .ok
    { leaves := (leaf :: rest).map fun digest => ⟨digest, none⟩
      above := levelsAbove (rest.length + 1) 0 (leaf :: rest)
      nonempty := by simp }

/-- A tree is built over any digests but none. -/
theorem exists_build {ids : List Hash256} (h : ids ≠ []) : ∃ t, build ids = .ok t := by
  cases ids with
  | nil => exact absurd rfl h
  | cons leaf rest => exact ⟨_, rfl⟩

/-- All nodes, in the order of their numbers. -/
def nodes (t : Tree) : List Node :=
  t.leaves ++ t.above.flatten

theorem nodes_ne_nil (t : Tree) : t.nodes ≠ [] := by
  simp [nodes, t.nonempty]

/-- The digest of the last node. -/
def root (t : Tree) : Hash256 :=
  (t.nodes.getLast t.nodes_ne_nil).digest

/-- How many leaves there are. -/
def leafCount (t : Tree) : Nat :=
  t.leaves.length

/-- How many levels there are above the leaves. -/
def depth (t : Tree) : Nat :=
  t.above.length

end Tree

/-- The root of the tree over a list of digests. -/
def rootOf (leaves : List Hash256) : Except Fault Hash256 :=
  Tree.root <$> Tree.build leaves

end ChainRules.Merkle
