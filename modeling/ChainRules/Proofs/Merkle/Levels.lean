import Mathlib
import ChainRules.Merkle.Tree

/-!
# Levels of a Merkle tree

A level is hashed in pairs, an odd end with itself. The pairs determine a level in which no digest
stands twice; without that condition they do not, as an odd end and the same end written twice make
the same pairs.
-/

namespace ChainRules.Merkle

/-- The pairs in which a level is hashed. -/
def pairs : List Hash256 → List (Hash256 × Hash256)
  | [] => []
  | [a] => [(a, a)]
  | a :: b :: rest => (a, b) :: pairs rest

/-- The byte strings that are hashed for a level. -/
def pairStrings (level : List Hash256) : List Bytes :=
  (pairs level).map fun p => pairBytes p.1 p.2

/-- The digests of the level above. -/
def up (level : List Hash256) : List Hash256 :=
  (pairStrings level).map Digest.hash256

/-- From a level of a tree, some number of levels is climbed to the root; `strings` is what is
hashed on the way. -/
inductive Climb : List Hash256 → Nat → List Bytes → Hash256 → Prop
  | root (r : Hash256) : Climb [r] 0 [] r
  | rise {level : List Hash256} {depth : Nat} {strings : List Bytes} {r : Hash256} :
    1 < level.length → Climb (up level) depth strings r →
    Climb level (depth + 1) (pairStrings level ++ strings) r

/-! ## Pairs determine a level -/

theorem pairBytes_inj {a b a' b' : Hash256} (h : pairBytes a b = pairBytes a' b') :
    a = a' ∧ b = b' := by
  obtain ⟨hleft, hright⟩ := List.append_inj h (a.size.trans a'.size.symm)
  exact ⟨Hash256.ext hleft, Hash256.ext hright⟩

theorem pairStrings_inj {level level' : List Hash256}
    (h : pairStrings level = pairStrings level') : pairs level = pairs level' := by
  refine List.map_injective_iff.2 ?_ h
  intro p p' heq
  obtain ⟨hleft, hright⟩ := pairBytes_inj heq
  exact Prod.ext hleft hright

theorem fst_pairs_sublist (level : List Hash256) : ((pairs level).map Prod.fst).Sublist level := by
  induction level using pairs.induct with
  | case1 => simp [pairs]
  | case2 a => simp [pairs]
  | case3 a b rest ih => exact (ih.cons b).cons_cons a

theorem pairStrings_nodup {level : List Hash256} (h : level.Nodup) :
    (pairStrings level).Nodup := by
  have hfst : ((pairs level).map Prod.fst).Nodup := h.sublist (fst_pairs_sublist level)
  refine hfst.of_map.map ?_
  intro p p' heq
  obtain ⟨hleft, hright⟩ := pairBytes_inj heq
  exact Prod.ext hleft hright

/-- In a level without repetition only an odd end is paired with itself. -/
theorem pairs_inj {level level' : List Hash256} (hlevel : level.Nodup) (hlevel' : level'.Nodup)
    (h : pairs level = pairs level') : level = level' := by
  induction level using pairs.induct generalizing level' with
  | case1 =>
    match level' with
    | [] => rfl
    | [a'] => cases h
    | a' :: b' :: rest' => cases h
  | case2 a =>
    match level' with
    | [] => cases h
    | [a'] =>
      simp only [pairs, List.cons.injEq, Prod.mk.injEq, and_self, and_true] at h
      rw [h]
    | a' :: b' :: rest' =>
      simp only [pairs, List.cons.injEq, Prod.mk.injEq] at h
      obtain ⟨⟨rfl, rfl⟩, -⟩ := h
      simp at hlevel'
  | case3 a b rest ih =>
    match level' with
    | [] => cases h
    | [a'] =>
      simp only [pairs, List.cons.injEq, Prod.mk.injEq] at h
      obtain ⟨⟨rfl, rfl⟩, -⟩ := h
      simp at hlevel
    | a' :: b' :: rest' =>
      simp only [pairs, List.cons.injEq, Prod.mk.injEq] at h
      obtain ⟨⟨rfl, rfl⟩, hrest⟩ := h
      have htail := hlevel.of_cons.of_cons
      rw [ih htail hlevel'.of_cons.of_cons hrest]

/-! ## A root determines the level that it is climbed from -/

theorem map_inj_on {α β : Type} {f : α → β} {xs ys : List α}
    (hf : Set.InjOn f { a | a ∈ xs ∨ a ∈ ys }) (h : xs.map f = ys.map f) : xs = ys := by
  induction xs generalizing ys with
  | nil => simpa using h
  | cons x xs ih =>
    cases ys with
    | nil => simp at h
    | cons y ys =>
      simp only [List.map_cons, List.cons.injEq] at h
      have hhead : x = y := hf (.inl List.mem_cons_self) (.inr List.mem_cons_self) h.1
      have htail : xs = ys := by
        refine ih (hf.mono ?_) h.2
        intro a ha
        exact ha.imp (List.mem_cons_of_mem x) (List.mem_cons_of_mem y)
      rw [hhead, htail]

/-- Two levels without repetition from which equally many levels are climbed to one root are equal,
if no two of the byte strings that are hashed on the way collide. -/
theorem Climb.unique {level level' : List Hash256} {depth : Nat} {strings strings' : List Bytes}
    {r : Hash256} (h : Climb level depth strings r) (h' : Climb level' depth strings' r)
    (hlevel : level.Nodup) (hlevel' : level'.Nodup)
    (hhash : Set.InjOn Digest.hash256 { bs | bs ∈ strings ∨ bs ∈ strings' }) : level = level' := by
  induction h generalizing level' strings' with
  | root r =>
    cases h' with
    | root => rfl
  | rise hlong habove ih =>
    rename_i level depth strings r
    cases h' with
    | rise hlong' habove' =>
      rename_i strings'
      have hstrings : Set.InjOn Digest.hash256
          { bs | bs ∈ pairStrings level ∨ bs ∈ pairStrings level' } := by
        refine hhash.mono ?_
        intro bs hbs
        exact hbs.imp (List.mem_append_left _) (List.mem_append_left _)
      have hup : (up level).Nodup :=
        (pairStrings_nodup hlevel).map_on fun bs hbs bs' hbs' heq =>
          hstrings (.inl hbs) (.inl hbs') heq
      have hup' : (up level').Nodup :=
        (pairStrings_nodup hlevel').map_on fun bs hbs bs' hbs' heq =>
          hstrings (.inr hbs) (.inr hbs') heq
      have hsame : up level = up level' := by
        refine ih habove' hup hup' (hhash.mono ?_)
        intro bs hbs
        exact hbs.imp (List.mem_append_right _) (List.mem_append_right _)
      exact pairs_inj hlevel hlevel' (pairStrings_inj (map_inj_on hstrings hsame))

/-! ## The levels of a built tree -/

namespace Tree

/-- The byte string that is hashed for a node with children, found through their numbers. -/
def hashedFor? (nodes : List Node) (n : Node) : Option Bytes := do
  let (left, right) ← n.children
  return pairBytes (← nodes[left]?).digest (← nodes[right]?).digest

/-- The byte strings that are hashed for a tree, in the order of its nodes. -/
def hashed (t : Tree) : List Bytes :=
  t.nodes.filterMap (hashedFor? t.nodes)

end Tree

theorem parents_digest (first : Nat) (level : List Hash256) :
    (parents first level).map Node.digest = up level := by
  induction level using pairs.induct generalizing first with
  | case1 => rfl
  | case2 a => rfl
  | case3 a b rest ih => simp [parents, ih, up, pairStrings, pairs, parent]

/-- The children of the nodes above a level are found by their numbers. -/
theorem hashed_parents {nodes : List Node} {first : Nat} {level : List Hash256}
    (h : ∀ k d, level[k]? = some d → (nodes[first + k]?).map Node.digest = some d) :
    (parents first level).filterMap (Tree.hashedFor? nodes) = pairStrings level := by
  induction level using pairs.induct generalizing first with
  | case1 => rfl
  | case2 a =>
    obtain ⟨n, hn, rfl⟩ := Option.map_eq_some_iff.1 (h 0 a rfl)
    have hn' : nodes[first]? = some n := hn
    simp [parents, Tree.hashedFor?, hn', pairStrings, pairs]
  | case3 a b rest ih =>
    obtain ⟨n, hn, rfl⟩ := Option.map_eq_some_iff.1 (h 0 a rfl)
    obtain ⟨n', hn', rfl⟩ := Option.map_eq_some_iff.1 (h 1 b rfl)
    have hn₀ : nodes[first]? = some n := hn
    have hrest : (parents (first + 2) rest).filterMap (Tree.hashedFor? nodes) =
        pairStrings rest := by
      refine ih fun k d hk => ?_
      rw [Nat.add_assoc, Nat.add_comm 2 k]
      exact h (k + 2) d hk
    simpa [parents, Tree.hashedFor?, hn₀, hn', pairStrings, pairs] using hrest

theorem length_parents (first : Nat) (level : List Hash256) :
    (parents first level).length = (level.length + 1) / 2 := by
  induction level using pairs.induct generalizing first with
  | case1 => rfl
  | case2 a => simp [parents]
  | case3 a b rest ih =>
    simp only [parents, List.length_cons, ih]
    omega

/-- The levels above a level climb to the digest of the last node. -/
theorem climb_levelsAbove {fuel : Nat} {before level nodes : List Node} {above : List (List Node)}
    (hlevel : level ≠ []) (hfuel : level.length ≤ fuel)
    (habove : levelsAbove fuel before.length (level.map Node.digest) = above)
    (hnodes : nodes = before ++ level ++ above.flatten) :
    ∃ r, nodes.getLast?.map Node.digest = some r ∧
      Climb (level.map Node.digest) above.length
        (above.flatten.filterMap (Tree.hashedFor? nodes)) r := by
  have hpos := List.length_pos_iff.2 hlevel
  induction fuel generalizing before level above with
  | zero => omega
  | succ fuel ih =>
    rw [levelsAbove, List.length_map] at habove
    by_cases hone : level.length ≤ 1
    · rw [if_pos hone] at habove
      subst habove
      obtain ⟨n, rfl⟩ := List.length_eq_one_iff.1 (Nat.le_antisymm hone hpos)
      refine ⟨n.digest, ?_, .root n.digest⟩
      simp [hnodes]
    · rw [if_neg hone] at habove
      subst habove
      let next := parents before.length (level.map Node.digest)
      have hnext : next.length = (level.length + 1) / 2 := by
        rw [length_parents, List.length_map]
      have hnonempty : next ≠ [] := List.length_pos_iff.1 (by omega)
      have habove : levelsAbove fuel (before ++ level).length (next.map Node.digest) =
          levelsAbove fuel (before.length + level.length) (next.map Node.digest) := by
        rw [List.length_append]
      have hsplit : nodes = before ++ level ++ next ++
          (levelsAbove fuel (before.length + level.length) (next.map Node.digest)).flatten := by
        rw [hnodes, List.flatten_cons, ← List.append_assoc]
      obtain ⟨r, hroot, hclimb⟩ := ih hnonempty (by omega) habove hsplit (by omega)
      refine ⟨r, hroot, ?_⟩
      have hfound : ∀ k d, (level.map Node.digest)[k]? = some d →
          (nodes[before.length + k]?).map Node.digest = some d := by
        intro k d hk
        rw [List.getElem?_map] at hk
        obtain ⟨n, hn, rfl⟩ := Option.map_eq_some_iff.1 hk
        have hlt : k < level.length := (List.getElem?_eq_some_iff.1 hn).1
        rw [hnodes, List.append_assoc, List.getElem?_append_right (by omega),
          Nat.add_sub_cancel_left, List.getElem?_append_left hlt, hn]
        rfl
      rw [List.length_cons, List.flatten_cons, List.filterMap_append, hashed_parents hfound]
      refine .rise (by rw [List.length_map]; omega) ?_
      rw [← parents_digest before.length]
      exact hclimb

/-- From the leaves of a tree its depth is climbed to its root, hashing what is hashed for it. -/
theorem Tree.climb {ids : List Hash256} {t : Tree} (h : Tree.build ids = .ok t) :
    Climb ids t.depth t.hashed t.root := by
  cases ids with
  | nil => cases h
  | cons leaf rest =>
    injection h with htree
    let leaves : List Node := (leaf :: rest).map fun digest => ⟨digest, none⟩
    have hids : leaves.map Node.digest = leaf :: rest := by
      simp only [leaves, List.map_map, Function.comp_def, List.map_id']
    have hleaves : leaves.filterMap (hashedFor? t.nodes) = [] := by
      simp [leaves, hashedFor?]
    have hnodes : t.nodes = [] ++ leaves ++ t.above.flatten := by
      rw [← htree]
      rfl
    have habove : levelsAbove (rest.length + 1) ([] : List Node).length
        (leaves.map Node.digest) = t.above := by
      rw [hids, ← htree]
      rfl
    obtain ⟨r, hroot, hclimb⟩ :=
      climb_levelsAbove (by simp [leaves]) (by simp [leaves]) habove hnodes
    have hlast : t.root = r := by
      rw [List.getLast?_eq_getLast_of_ne_nil t.nodes_ne_nil] at hroot
      simpa [root] using hroot
    rw [hids] at hclimb
    rw [hlast, hashed]
    nth_rewrite 2 [hnodes]
    rw [List.nil_append, List.filterMap_append, hleaves, List.nil_append]
    exact hclimb

end ChainRules.Merkle
