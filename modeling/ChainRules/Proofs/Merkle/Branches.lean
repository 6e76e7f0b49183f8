import ChainRules.Merkle.Branch
import ChainRules.Proofs.Merkle.Levels

/-!
# What a branch proves

The branch of a leaf climbs to the root, and so does no other leaf and no other branch of that length
from the same place: at each level the digest reached and its neighbour are the pair that the tree
hashes there. Only a collision among the hashed pairs could make an exception.
-/

namespace ChainRules.Merkle

/-- The pair that a digest at `place` makes with its neighbour. -/
def oriented (place : Nat) (digest beside : Hash256) : Hash256 × Hash256 :=
  if place % 2 = 0 then (digest, beside) else (beside, digest)

/-- The byte string that is hashed for the parent of a digest at `place`. -/
def orientedBytes (place : Nat) (digest beside : Hash256) : Bytes :=
  pairBytes (oriented place digest beside).1 (oriented place digest beside).2

/-- The byte strings that are hashed on the way from a digest at `place` along a branch. -/
def climbStrings (digest : Hash256) (place : Nat) : List Hash256 → List Bytes
  | [] => []
  | beside :: above =>
    let hashed := orientedBytes place digest beside
    hashed :: climbStrings (Digest.hash256 hashed) (place / 2) above

/-- The neighbour of the digest at `place` in a level. -/
def neighbour (level : List Hash256) (place : Nat) : Hash256 :=
  level.getD (if place % 2 = 0 then min (place + 1) (level.length - 1) else place - 1) .zero

/-- The neighbours on the way up from `place`, with every level made from the one below it. -/
def branchOver : (depth : Nat) → (level : List Hash256) → (place : Nat) → List Hash256
  | 0, _, _ => []
  | depth + 1, level, place => neighbour level place :: branchOver depth (up level) (place / 2)

theorem climb_cons (digest : Hash256) (place : Nat) (beside : Hash256) (above : List Hash256) :
    climb digest place (beside :: above) =
      climb (Digest.hash256 (orientedBytes place digest beside)) (place / 2) above := by
  unfold orientedBytes oriented
  rw [climb]
  by_cases hleft : place % 2 = 0
  · simp only [if_pos hleft, parent]
  · simp only [if_neg hleft, parent]

theorem orientedBytes_inj {place : Nat} {digest beside digest' beside' : Hash256}
    (h : orientedBytes place digest beside = orientedBytes place digest' beside') :
    digest = digest' ∧ beside = beside' := by
  have hpair := pairBytes_inj h
  unfold oriented at hpair
  by_cases hleft : place % 2 = 0
  · simpa only [if_pos hleft] using hpair
  · simpa only [if_neg hleft, and_comm] using hpair

/-! ## A digest and its neighbour are paired -/

theorem neighbour_cons_cons {rest : List Hash256} {place : Nat} (h : place < rest.length)
    (a b : Hash256) : neighbour (a :: b :: rest) (place + 2) = neighbour rest place := by
  unfold neighbour
  by_cases hleft : place % 2 = 0
  · have hindex : min (place + 2 + 1) ((a :: b :: rest).length - 1) =
        min (place + 1) (rest.length - 1) + 2 := by
      simp only [List.length_cons]
      omega
    rw [if_pos (by omega), if_pos hleft, hindex]
    rfl
  · have hindex : place + 2 - 1 = place - 1 + 2 := by omega
    rw [if_neg (by omega), if_neg hleft, hindex]
    rfl

/-- Every digest of a level stands with its neighbour in one of the pairs. -/
theorem pairs_getElem? {level : List Hash256} {place : Nat} {digest : Hash256}
    (h : level[place]? = some digest) :
    (pairs level)[place / 2]? = some (oriented place digest (neighbour level place)) := by
  induction level using pairs.induct generalizing place with
  | case1 => simp at h
  | case2 a =>
    cases place with
    | zero =>
      cases h
      rfl
    | succ place => simp at h
  | case3 a b rest ih =>
    cases place with
    | zero =>
      cases h
      simp [pairs, oriented, neighbour]
    | succ place =>
      cases place with
      | zero =>
        cases h
        simp [pairs, oriented, neighbour]
      | succ place =>
        have hrest : rest[place]? = some digest := h
        have hlt : place < rest.length := (List.getElem?_eq_some_iff.1 hrest).1
        have hhalf : (place + 2) / 2 = place / 2 + 1 := by omega
        have hside : oriented (place + 2) = oriented place := by
          funext digest beside
          simp [oriented]
        rw [hhalf, hside, neighbour_cons_cons hlt]
        exact ih hrest

theorem mem_pairStrings {level : List Hash256} {place : Nat} {digest : Hash256}
    (h : level[place]? = some digest) :
    orientedBytes place digest (neighbour level place) ∈ pairStrings level :=
  List.mem_map.2 ⟨_, List.mem_of_getElem? (pairs_getElem? h), rfl⟩

theorem up_getElem? {level : List Hash256} {place : Nat} {digest : Hash256}
    (h : level[place]? = some digest) :
    (up level)[place / 2]? =
      some (Digest.hash256 (orientedBytes place digest (neighbour level place))) := by
  simp [up, pairStrings, pairs_getElem? h, orientedBytes]

/-! ## Climbing to the root -/

theorem length_branchOver (depth : Nat) (level : List Hash256) (place : Nat) :
    (branchOver depth level place).length = depth := by
  induction depth generalizing level place with
  | zero => rfl
  | succ depth ih => rw [branchOver, List.length_cons, ih]

/-- From every digest of a level its neighbours lead to the root. -/
theorem Climb.climb_branchOver {level : List Hash256} {depth : Nat} {strings : List Bytes}
    {r digest : Hash256} {place : Nat} (h : Climb level depth strings r)
    (hdigest : level[place]? = some digest) :
    climb digest place (branchOver depth level place) = r := by
  induction h generalizing place digest with
  | root r =>
    cases place with
    | zero =>
      cases hdigest
      rfl
    | succ place => simp at hdigest
  | rise hlong habove ih =>
    rw [branchOver, climb_cons]
    exact ih (up_getElem? hdigest)

/-- What leads to the root from a place of a level are the digest at this place and its neighbours,
if no two of the byte strings that are hashed on the way collide. -/
theorem Climb.branch_unique {level branch : List Hash256} {depth : Nat} {strings : List Bytes}
    {r digest leaf : Hash256} {place : Nat} (h : Climb level depth strings r)
    (hdigest : level[place]? = some digest) (hlen : branch.length = depth)
    (hhash : Set.InjOn Digest.hash256 { bs | bs ∈ strings ∨ bs ∈ climbStrings leaf place branch })
    (hclimb : climb leaf place branch = r) :
    leaf = digest ∧ branch = branchOver depth level place := by
  induction h generalizing place digest leaf branch with
  | root r =>
    obtain rfl := List.length_eq_zero_iff.1 hlen
    cases place with
    | zero =>
      cases hdigest
      exact ⟨hclimb, rfl⟩
    | succ place => simp at hdigest
  | rise hlong habove ih =>
    rename_i level depth strings r
    cases branch with
    | nil => cases hlen
    | cons beside above =>
      rw [climb_cons] at hclimb
      have hbehind : Set.InjOn Digest.hash256 { bs | bs ∈ strings ∨ bs ∈ climbStrings
          (Digest.hash256 (orientedBytes place leaf beside)) (place / 2) above } := by
        refine hhash.mono ?_
        intro bs hbs
        exact hbs.imp (List.mem_append_right _) (List.mem_cons_of_mem _)
      obtain ⟨hparent, habove⟩ :=
        ih (up_getElem? hdigest) (Nat.succ.inj hlen) hbehind hclimb
      have hsame : orientedBytes place leaf beside =
          orientedBytes place digest (neighbour level place) :=
        hhash (.inr List.mem_cons_self)
          (.inl (List.mem_append_left _ (mem_pairStrings hdigest))) hparent
      obtain ⟨hleaf, hbeside⟩ := orientedBytes_inj hsame
      rw [hleaf, hbeside, habove, branchOver]
      exact ⟨rfl, rfl⟩

/-! ## The branches of a built tree -/

theorem sibling_eq (level : List Node) (place : Nat) :
    sibling level place = neighbour (level.map Node.digest) place := by
  simp [sibling, neighbour, List.getD_eq_getElem?_getD]

/-- The siblings that are found in the levels of a tree are the neighbours in levels made anew. -/
theorem siblings_levelsAbove (fuel first : Nat) (level : List Node) (place : Nat) :
    siblings place (level :: levelsAbove fuel first (level.map Node.digest)) =
      branchOver (levelsAbove fuel first (level.map Node.digest)).length
        (level.map Node.digest) place := by
  induction fuel generalizing first level place with
  | zero => rfl
  | succ fuel ih =>
    rw [levelsAbove]
    by_cases hone : (level.map Node.digest).length ≤ 1
    · rw [if_pos hone]
      rfl
    · rw [if_neg hone]
      dsimp only
      rw [siblings, List.length_cons, branchOver, sibling_eq, ih, parents_digest]

theorem Tree.branch_eq {ids : List Hash256} {t : Tree} (h : Tree.build ids = .ok t) {index : Nat}
    (hindex : index < ids.length) : t.branch index = .ok (branchOver t.depth ids index) := by
  cases ids with
  | nil => cases h
  | cons leaf rest =>
    injection h with htree
    have hids : t.leaves.map Node.digest = leaf :: rest := by
      rw [← htree]
      simp only [List.map_map, Function.comp_def, List.map_id']
    have hcount : t.leafCount = (leaf :: rest).length := by
      rw [← hids, List.length_map, leafCount]
    have habove : t.above = levelsAbove (rest.length + 1) 0 (t.leaves.map Node.digest) := by
      rw [hids, ← htree]
    rw [branch, if_neg (by omega), depth, ← hids, habove, siblings_levelsAbove]

/-- A branch proves that a leaf stands at an index, and nothing else does: there is a tree over every
list that is not empty, and for each of its indices a branch as long as the tree is deep leads from
the leaf there to the root. Another leaf or another branch of this length does not, if no two of the
byte strings that are hashed for the tree and along the branch collide. -/
theorem branch_proves_membership {ids : List Hash256} (hids : ids ≠ []) :
    ∃ t, Tree.build ids = .ok t ∧ ∀ index leaf, ids[index]? = some leaf →
      ∃ branch, t.branch index = .ok branch ∧ branch.length = t.depth ∧
        verifyBranch leaf branch index t.root = true ∧
        ∀ leaf' branch', branch'.length = t.depth →
          Set.InjOn Digest.hash256
            { bs | bs ∈ t.hashed ∨ bs ∈ climbStrings leaf' index branch' } →
          (verifyBranch leaf' branch' index t.root = true ↔ leaf' = leaf ∧ branch' = branch) := by
  obtain ⟨t, hbuild⟩ := Tree.exists_build hids
  have hclimb := Tree.climb hbuild
  refine ⟨t, hbuild, fun index leaf hleaf => ?_⟩
  have hindex : index < ids.length := (List.getElem?_eq_some_iff.1 hleaf).1
  have hown : verifyBranch leaf (branchOver t.depth ids index) index t.root = true :=
    decide_eq_true (hclimb.climb_branchOver hleaf)
  refine ⟨_, Tree.branch_eq hbuild hindex, length_branchOver _ _ _, hown, ?_⟩
  intro leaf' branch' hlen hhash
  refine ⟨fun hverified => ?_, ?_⟩
  · exact hclimb.branch_unique hleaf hlen hhash (of_decide_eq_true hverified)
  · rintro ⟨rfl, rfl⟩
    exact hown

/-- A tree with an odd end: the last of three leaves is its own neighbour, and another leaf does not
take its place. -/
theorem branch_proves_membership_odd_end :
    let ids : List Hash256 := [.zero, .one, .zero]
    ∃ t branch, Tree.build ids = .ok t ∧ t.branch 2 = .ok branch ∧ branch.length = 2 ∧
      verifyBranch .zero branch 2 t.root = true ∧ verifyBranch .one branch 2 t.root = false := by
  intro ids
  have hids : ids ≠ [] := by decide
  obtain ⟨t, hbuild, hall⟩ := branch_proves_membership hids
  obtain ⟨branch, hbranch, hlen, hown, honly⟩ := hall 2 .zero rfl
  have hdepth : t.depth = 2 := by
    cases hbuild
    rfl
  have hdistinct :
      ((t.hashed ++ climbStrings .one 2 branch).map Digest.hash256).Nodup := by
    cases hbuild
    cases hbranch
    decide +kernel
  have hiff := honly .one branch hlen fun bs hbs bs' hbs' heq =>
    List.inj_on_of_nodup_map hdistinct (List.mem_append.2 hbs) (List.mem_append.2 hbs') heq
  refine ⟨t, branch, hbuild, hbranch, hlen.trans hdepth, hown, ?_⟩
  rw [Bool.eq_false_iff, ne_eq, hiff]
  exact fun heq => absurd heq.1 (by decide)

end ChainRules.Merkle
