import ChainRules.Proofs.Merkle.Levels

/-!
# The numbering of a Merkle tree

The root of a tree is what hashing a list level by level comes to. The nodes of the tree are
numbered through its levels: every node above the leaves has its children at smaller numbers, and
every node but the last is a child of exactly one other. Levels are looked at from below, with nodes
counted from the first of the level, so that all levels are alike.
-/

namespace ChainRules.Merkle

theorem length_up (level : List Hash256) : (up level).length = (level.length + 1) / 2 := by
  rw [← parents_digest 0, List.length_map, length_parents]

/-- The root over a list of digests, which must not be empty: a single digest is its own root, and
more of them have the root of the level above. -/
def recursiveRoot : List Hash256 → Hash256
  | [] => .zero
  | [r] => r
  | a :: b :: rest => recursiveRoot (up (a :: b :: rest))
termination_by level => level.length
decreasing_by
  rw [length_up]
  simp only [List.length_cons]
  omega

theorem recursiveRoot_of_long {level : List Hash256} (h : 1 < level.length) :
    recursiveRoot level = recursiveRoot (up level) := by
  match level with
  | [] => simp at h
  | [r] => simp at h
  | a :: b :: rest => rw [recursiveRoot]

theorem Climb.eq_recursiveRoot {level : List Hash256} {depth : Nat} {strings : List Bytes}
    {r : Hash256} (h : Climb level depth strings r) : r = recursiveRoot level := by
  induction h with
  | root r => rw [recursiveRoot]
  | rise hlong _ ih => rw [ih, recursiveRoot_of_long hlong]

/-- As many levels are climbed as the number of digests has to be halved to come to one. -/
theorem Climb.isLeast {level : List Hash256} {depth : Nat} {strings : List Bytes} {r : Hash256}
    (h : Climb level depth strings r) : IsLeast { d | level.length ≤ 2 ^ d } depth := by
  induction h with
  | root r => exact ⟨show 1 ≤ 2 ^ 0 by decide, fun d _ => Nat.zero_le d⟩
  | @rise level depth strings r hlong _ ih =>
    have henough : (up level).length ≤ 2 ^ depth := ih.1
    rw [length_up] at henough
    constructor
    · show level.length ≤ 2 ^ (depth + 1)
      rw [Nat.pow_succ]
      omega
    · intro d hd
      have hd' : level.length ≤ 2 ^ d := hd
      cases d with
      | zero =>
        rw [Nat.pow_zero] at hd'
        omega
      | succ d =>
        rw [Nat.pow_succ] at hd'
        have hup : (up level).length ≤ 2 ^ d := by
          rw [length_up]
          omega
        exact Nat.succ_le_succ (ih.2 hup)

/-! ## Stacked levels -/

/-- The levels `above` stand on a level whose nodes are numbered from `first`, up to a single
node. -/
inductive Stacked : Nat → List Hash256 → List (List Node) → Prop
  | top (first : Nat) (r : Hash256) : Stacked first [r] []
  | rise {first : Nat} {level : List Hash256} {above : List (List Node)} : 1 < level.length →
    Stacked (first + level.length) (up level) above →
    Stacked first level (parents first level :: above)

theorem stacked_levelsAbove {fuel first : Nat} {level : List Hash256} (hlevel : level ≠ [])
    (hfuel : level.length ≤ fuel) : Stacked first level (levelsAbove fuel first level) := by
  have hpos := List.length_pos_iff.2 hlevel
  induction fuel generalizing first level with
  | zero => omega
  | succ fuel ih =>
    rw [levelsAbove]
    by_cases hone : level.length ≤ 1
    · rw [if_pos hone]
      obtain ⟨r, rfl⟩ := List.length_eq_one_iff.1 (Nat.le_antisymm hone hpos)
      exact .top first r
    · rw [if_neg hone]
      dsimp only
      rw [parents_digest]
      have hlength := length_up level
      have hup : up level ≠ [] := List.length_pos_iff.1 (by omega)
      exact .rise (by omega) (ih hup (by omega) (by omega))

theorem ceilDiv_two_pow_succ (n k : Nat) : n ⌈/⌉ 2 ^ (k + 1) = ((n + 1) / 2) ⌈/⌉ 2 ^ k := by
  apply eq_of_forall_ge_iff
  intro c
  rw [ceilDiv_le_iff_le_mul (by positivity), ceilDiv_le_iff_le_mul (by positivity), Nat.pow_succ,
    Nat.mul_right_comm]
  omega

/-- Every level has half as many nodes as the one below it, rounded up. -/
theorem Stacked.length {first : Nat} {level : List Hash256} {above : List (List Node)}
    (h : Stacked first level above) : level.length + above.flatten.length =
      ∑ k ∈ Finset.range (above.length + 1), level.length ⌈/⌉ 2 ^ k := by
  induction h with
  | top first r => simp
  | @rise first level above _ _ ih =>
    rw [length_up] at ih
    rw [List.length_cons, Finset.sum_range_succ', List.flatten_cons, List.length_append,
      length_parents, ih]
    simp only [ceilDiv_two_pow_succ, Nat.pow_zero, ceilDiv_one]
    exact Nat.add_comm _ _

/-! ## Children -/

/-- The node with the number `i` is a child of the node that stands at `j` among `nodes`. -/
def ChildOf (nodes : List Node) (i j : Nat) : Prop :=
  ∃ node l r, nodes[j]? = some node ∧ node.children = some (l, r) ∧ (i = l ∨ i = r)

theorem childOf_append_of_lt {nodes later : List Node} {i j : Nat} (hj : j < nodes.length) :
    ChildOf (nodes ++ later) i j ↔ ChildOf nodes i j := by
  unfold ChildOf
  rw [List.getElem?_append_left hj]

theorem childOf_append_of_le {earlier nodes : List Node} {i j : Nat} (hj : earlier.length ≤ j) :
    ChildOf (earlier ++ nodes) i j ↔ ChildOf nodes i (j - earlier.length) := by
  unfold ChildOf
  rw [List.getElem?_append_right hj]

/-- Nodes in front that are no parents of `i` only move its parent. -/
theorem existsUnique_childOf_append {earlier nodes : List Node} {i : Nat}
    (hnone : ∀ j, ¬ChildOf earlier i j) (h : ∃! j, ChildOf nodes i j) :
    ∃! j, ChildOf (earlier ++ nodes) i j := by
  obtain ⟨j, hj, honly⟩ := h
  refine ⟨earlier.length + j, ?_, ?_⟩
  · show ChildOf (earlier ++ nodes) i _
    rw [childOf_append_of_le (Nat.le_add_right _ _), Nat.add_sub_cancel_left]
    exact hj
  · intro j' (hj' : ChildOf (earlier ++ nodes) i j')
    by_cases hlow : j' < earlier.length
    · exact absurd ((childOf_append_of_lt hlow).1 hj') (hnone j')
    · have hupper := honly _ ((childOf_append_of_le (Nat.not_lt.1 hlow)).1 hj')
      omega

/-- A parent has two neighbours for its children, or an odd end alone. -/
theorem parents_getElem? {first p : Nat} {level : List Hash256} {node : Node}
    (h : (parents first level)[p]? = some node) :
    ∃ left right, level[2 * p]? = some left ∧
      level[min (2 * p + 1) (level.length - 1)]? = some right ∧
      node = ⟨parent left right,
        some (first + 2 * p, first + min (2 * p + 1) (level.length - 1))⟩ := by
  induction level using pairs.induct generalizing first p with
  | case1 => simp [parents] at h
  | case2 a =>
    cases p with
    | zero =>
      cases h
      exact ⟨a, a, rfl, rfl, rfl⟩
    | succ p => simp [parents] at h
  | case3 a b rest ih =>
    cases p with
    | zero =>
      cases h
      exact ⟨a, b, rfl, by simp, by simp⟩
    | succ p =>
      have hbehind : (parents (first + 2) rest)[p]? = some node := h
      obtain ⟨left, right, hleft, hright, rfl⟩ := ih hbehind
      have hrest : 2 * p < rest.length := (List.getElem?_eq_some_iff.1 hleft).1
      have hsecond : min (2 * (p + 1) + 1) ((a :: b :: rest).length - 1) =
          min (2 * p + 1) (rest.length - 1) + 2 := by
        rw [List.length_cons, List.length_cons]
        omega
      refine ⟨left, right, hleft, ?_, ?_⟩
      · rw [hsecond]
        exact hright
      · rw [hsecond]
        congr 3 <;> omega

/-- Each node of a level is a child of one of the parents, which stands at half its place. -/
theorem childOf_parents_iff {first i p : Nat} {level : List Hash256} :
    ChildOf (parents first level) (first + i) p ↔ i < level.length ∧ p = i / 2 := by
  constructor
  · rintro ⟨node, l, r, hp, hchildren, hi⟩
    obtain ⟨left, right, hleft, -, rfl⟩ := parents_getElem? hp
    cases hchildren
    have hlow := (List.getElem?_eq_some_iff.1 hleft).1
    omega
  · rintro ⟨hi, rfl⟩
    have hp : i / 2 < (parents first level).length := by
      rw [length_parents]
      omega
    have hnode := List.getElem?_eq_getElem hp
    obtain ⟨left, right, -, -, heq⟩ := parents_getElem? hnode
    refine ⟨_, _, _, hnode, congrArg Node.children heq, ?_⟩
    omega

section Stacked

variable {first : Nat} {level : List Hash256} {above : List (List Node)}

/-- The children of a node above a level are found before it, and the node is hashed from them. -/
theorem Stacked.hashed (h : Stacked first level above) {j : Nat} {node : Node}
    (hj : above.flatten[j]? = some node) :
    ∃ l r left right, node.children = some (first + l, first + r) ∧
      l < level.length + j ∧ r < level.length + j ∧
      (level ++ above.flatten.map Node.digest)[l]? = some left ∧
      (level ++ above.flatten.map Node.digest)[r]? = some right ∧
      node.digest = parent left right := by
  induction h generalizing j with
  | top first r => simp at hj
  | @rise first level above hlong _ ih =>
    rw [List.flatten_cons] at hj ⊢
    -- the next level has its children in this one, and all above it are moved by this level alone
    by_cases hlow : j < (parents first level).length
    · rw [List.getElem?_append_left hlow] at hj
      obtain ⟨left, right, hleft, hright, rfl⟩ := parents_getElem? hj
      have hl := (List.getElem?_eq_some_iff.1 hleft).1
      have hr := (List.getElem?_eq_some_iff.1 hright).1
      refine ⟨_, _, left, right, rfl, by omega, by omega, ?_, ?_, rfl⟩
      · rw [List.getElem?_append_left hl, hleft]
      · rw [List.getElem?_append_left hr, hright]
    · rw [List.getElem?_append_right (Nat.not_lt.1 hlow)] at hj
      obtain ⟨l, r, left, right, hchildren, hl, hr, hleft, hright, hdigest⟩ := ih hj
      rw [length_up, ← length_parents first] at hl hr
      rw [Nat.add_assoc, Nat.add_assoc] at hchildren
      refine ⟨_, _, left, right, hchildren, by omega, by omega, ?_, ?_, hdigest⟩
      · rw [List.map_append, parents_digest, List.getElem?_append_right (by omega),
          Nat.add_sub_cancel_left, hleft]
      · rw [List.map_append, parents_digest, List.getElem?_append_right (by omega),
          Nat.add_sub_cancel_left, hright]

theorem Stacked.le_of_childOf (h : Stacked first level above) {i j : Nat}
    (hchild : ChildOf above.flatten i j) : first ≤ i := by
  obtain ⟨node, l, r, hj, hchildren, hi⟩ := hchild
  obtain ⟨l', r', -, -, hchildren', -⟩ := h.hashed hj
  rw [hchildren] at hchildren'
  cases hchildren'
  omega

/-- Every node but the last is a child of exactly one node above it. -/
theorem Stacked.existsUnique_childOf (h : Stacked first level above) {i : Nat}
    (hi : i + 1 < level.length + above.flatten.length) :
    ∃! j, ChildOf above.flatten (first + i) j := by
  induction h generalizing i with
  | top first r =>
    simp only [List.length_singleton, List.flatten_nil, List.length_nil] at hi
    omega
  | @rise first level above hlong habove ih =>
    rw [List.flatten_cons, List.length_append] at hi
    rw [List.flatten_cons]
    -- a node of this level has its parent in the next, as what is above that has later children
    by_cases hlow : i < level.length
    · have hplace : i / 2 < (parents first level).length := by
        rw [length_parents]
        omega
      refine ⟨i / 2, (childOf_append_of_lt hplace).2 (childOf_parents_iff.2 ⟨hlow, rfl⟩), ?_⟩
      intro j hj
      by_cases hparent : j < (parents first level).length
      · exact (childOf_parents_iff.1 ((childOf_append_of_lt hparent).1 hj)).2
      · have hfar := habove.le_of_childOf ((childOf_append_of_le (Nat.not_lt.1 hparent)).1 hj)
        omega
    · have hplace : first + level.length + (i - level.length) = first + i := by omega
      have hrest : i - level.length + 1 < (up level).length + above.flatten.length := by
        rw [length_up, ← length_parents first]
        omega
      apply existsUnique_childOf_append
      · intro j hj
        exact hlow (childOf_parents_iff.1 hj).1
      · rw [← hplace]
        exact ih hrest

end Stacked

/-! ## The tree over some digests -/

namespace Tree

/-- The nodes of a tree are the recursive tree over `ids`. -/
structure Spans (ids : List Hash256) (t : Tree) : Prop where
  root : t.root = recursiveRoot ids
  depth : IsLeast { d | ids.length ≤ 2 ^ d } t.depth
  leaves : t.nodes.take ids.length = ids.map fun digest => ⟨digest, none⟩
  count : t.nodes.length = ∑ k ∈ Finset.range (t.depth + 1), ids.length ⌈/⌉ 2 ^ k
  hashed : ∀ j node, ids.length ≤ j → t.nodes[j]? = some node → ∃ l r left right,
    node.children = some (l, r) ∧ l < j ∧ r < j ∧ t.nodes[l]? = some left ∧
      t.nodes[r]? = some right ∧ node.digest = parent left.digest right.digest
  parent : ∀ i, i + 1 < t.nodes.length → ∃! j, ChildOf t.nodes i j

theorem stacked_of_build {ids : List Hash256} {t : Tree} (h : build ids = .ok t) :
    Stacked 0 ids t.above ∧ t.leaves = ids.map fun digest => ⟨digest, none⟩ := by
  cases ids with
  | nil => cases h
  | cons leaf rest =>
    cases h
    exact ⟨stacked_levelsAbove (List.cons_ne_nil _ _) le_rfl, rfl⟩

theorem spans_of_build {ids : List Hash256} {t : Tree} (h : build ids = .ok t) : Spans ids t := by
  obtain ⟨hstacked, hleaves⟩ := stacked_of_build h
  have hlength : t.leaves.length = ids.length := by rw [hleaves, List.length_map]
  have hdigests : t.nodes.map Node.digest = ids ++ t.above.flatten.map Node.digest := by
    rw [nodes, List.map_append, hleaves, List.map_map]
    congr 1
    exact List.map_id ids
  have hclimb := Tree.climb h
  refine ⟨hclimb.eq_recursiveRoot, hclimb.isLeast, ?_, ?_, ?_, ?_⟩
  · rw [nodes, ← hlength, List.take_left, hleaves]
  · rw [nodes, List.length_append, hlength]
    exact hstacked.length
  · intro j node hj hnode
    rw [nodes, List.getElem?_append_right (hlength.trans_le hj), hlength] at hnode
    obtain ⟨l, r, left, right, hchildren, hl, hr, hleft, hright, hdigest⟩ := hstacked.hashed hnode
    rw [Nat.zero_add, Nat.zero_add] at hchildren
    rw [← hdigests, List.getElem?_map] at hleft hright
    obtain ⟨nodeLeft, hnodeLeft, rfl⟩ := Option.map_eq_some_iff.1 hleft
    obtain ⟨nodeRight, hnodeRight, rfl⟩ := Option.map_eq_some_iff.1 hright
    exact ⟨l, r, nodeLeft, nodeRight, hchildren, by omega, by omega, hnodeLeft, hnodeRight, hdigest⟩
  · intro i hi
    rw [nodes, List.length_append, hlength] at hi
    have habove := hstacked.existsUnique_childOf hi
    rw [Nat.zero_add] at habove
    refine existsUnique_childOf_append ?_ habove
    rintro j ⟨node, l, r, hnode, hchildren, -⟩
    rw [hleaves, List.getElem?_map] at hnode
    obtain ⟨digest, -, rfl⟩ := Option.map_eq_some_iff.1 hnode
    cases hchildren

/-- Over any digests but none a tree is built, and it is the recursive tree. -/
theorem build_recursive {ids : List Hash256} (h : ids ≠ []) :
    ∃ t, build ids = .ok t ∧ rootOf ids = .ok (recursiveRoot ids) ∧ Spans ids t := by
  obtain ⟨t, ht⟩ := exists_build h
  have hspans := spans_of_build ht
  refine ⟨t, ht, ?_, hspans⟩
  rw [rootOf, ht, ← hspans.root]
  rfl

/-- Five digests make a tree with four levels of five, three, two nodes and one. -/
theorem build_recursive_five :
    ∃ t, build (List.replicate 5 .zero) = .ok t ∧ t.depth = 3 ∧ t.nodes.length = 5 + 3 + 2 + 1 := by
  have hsome : List.replicate 5 Hash256.zero ≠ [] := by decide
  obtain ⟨t, ht, -, hspans⟩ := build_recursive hsome
  have hleast : IsLeast { d | (List.replicate 5 Hash256.zero).length ≤ 2 ^ d } 3 := by
    refine ⟨show 5 ≤ 2 ^ 3 by decide, fun d hd => ?_⟩
    have hd' : 5 ≤ 2 ^ d := hd
    by_contra hlow
    interval_cases d <;> omega
  have hdepth := hspans.depth.unique hleast
  refine ⟨t, ht, hdepth, ?_⟩
  rw [hspans.count, hdepth]
  rfl

end Tree

end ChainRules.Merkle
