import ChainRules.Proofs.Chain.Contents

/-!
# Recording heights

The first call for a block decides its height: a later call for it is served if it names this height
again and refused if it names another one, and neither changes anything. The tip is the block with the
greatest of these heights, and the one that came first if several have it.
-/

namespace ChainRules.Chain

namespace Heights

/-- Serves a call to record the height of a block: the answer to it and the index after it. -/
def serve (h : Heights) (c : Hash256 × Nat) : Except Fault Unit × Heights :=
  match h.record c.1 c.2 with
  | .ok k => (.ok (), k)
  | .error fault => (.error fault, h)

/-- The index after calls that were served in order, starting without heights. -/
def after (calls : List (Hash256 × Nat)) : Heights :=
  calls.foldl (fun h c => (h.serve c).2) empty

theorem after_concat (calls : List (Hash256 × Nat)) (c : Hash256 × Nat) :
    after (calls ++ [c]) = ((after calls).serve c).2 := by
  simp [after]

variable {h : Heights} {c : Hash256 × Nat} {id : Hash256} {height : Nat}

theorem serve_of_new (hnew : h.get? c.1 = none) :
    h.serve c = (.ok (), ⟨h.entries ++ [c], some (raised h.tip c.1 c.2)⟩) := by
  rw [serve, record, hnew]

/-- A call for a block that has a height changes nothing, whether or not it names this height. -/
theorem serve_of_recorded (hrecorded : h.get? c.1 = some height) :
    h.serve c =
      (if c.2 = height then .ok () else .error (.conflict (.height c.1 height)), h) := by
  rw [serve, record, hrecorded]
  dsimp only
  by_cases hsame : c.2 = height
  · rw [if_pos hsame.symm, if_pos hsame]
  · rw [if_neg (Ne.symm hsame), if_neg hsame]

/-- What is found after a call: what was found before, or else the height that the call names. -/
theorem get?_serve (h : Heights) (c : Hash256 × Nat) (id : Hash256) :
    (h.serve c).2.get? id = (h.get? id).or (if c.1 = id then some c.2 else none) := by
  cases hfound : h.get? c.1 with
  | none =>
    rw [serve_of_new hfound]
    exact underKey_concat h.entries id c
  | some height =>
    rw [serve_of_recorded hfound]
    by_cases hid : c.1 = id
    · rw [← hid, hfound, Option.some_or]
    · rw [if_neg hid, Option.or_none]

/-- A block has the height that the first call for it named. -/
theorem get?_after (calls : List (Hash256 × Nat)) (id : Hash256) :
    (after calls).get? id = underKey calls id := by
  induction calls using List.reverseRecOn with
  | nil => rfl
  | append_singleton calls c ih => rw [after_concat, get?_serve, ih, underKey_concat]

/-! ## The tip -/

/-- A call is the first for its block, its height is greater than that of every block for which there
was a call before, and no block has a greater height. -/
def Leads (calls : List (Hash256 × Nat)) (top : Hash256 × Nat) : Prop :=
  ∃ before later, calls = before ++ top :: later ∧ underKey before top.1 = none ∧
    (∀ id height, underKey before id = some height → height < top.2) ∧
    ∀ id height, underKey calls id = some height → height ≤ top.2

namespace Leads

variable {calls : List (Hash256 × Nat)} {top top' : Hash256 × Nat}

theorem first (h : Leads calls top) : underKey calls top.1 = some top.2 := by
  obtain ⟨before, later, rfl, hnew, -, -⟩ := h
  exact underKey_of_first later hnew

theorem greatest (h : Leads calls top) (hfound : underKey calls id = some height) :
    height ≤ top.2 := by
  obtain ⟨-, -, -, -, -, hall⟩ := h
  exact hall id height hfound

/-- At most one call leads: of two with the same height one would stand in front of the other. -/
theorem unique (h : Leads calls top) (h' : Leads calls top') : top = top' := by
  have hle := h'.greatest h.first
  have hle' := h.greatest h'.first
  obtain ⟨before, later, hcalls, hnew, hbefore, -⟩ := h
  obtain ⟨before', later', hcalls', hnew', hbefore', -⟩ := h'
  obtain ⟨between, hlonger, hrest⟩ | ⟨between, hlonger, hrest⟩ :=
    List.append_eq_append_iff.1 (hcalls.symm.trans hcalls')
  · cases between with
    | nil => exact (List.cons.inj hrest).1
    | cons p between =>
      obtain ⟨rfl, -⟩ := List.cons.inj hrest
      have hlt := hbefore' top.1 top.2 (hlonger ▸ underKey_of_first between hnew)
      exact absurd hle' (Nat.not_le.2 hlt)
  · cases between with
    | nil => exact (List.cons.inj hrest).1.symm
    | cons p between =>
      obtain ⟨rfl, -⟩ := List.cons.inj hrest
      have hlt := hbefore top'.1 top'.2 (hlonger ▸ underKey_of_first between hnew')
      exact absurd hle (Nat.not_le.2 hlt)

/-- A call keeps the lead over one for a block that has a height, and over one whose height is not
greater. -/
theorem concat (h : Leads calls top) (hle : underKey calls c.1 = none → c.2 ≤ top.2) :
    Leads (calls ++ [c]) top := by
  obtain ⟨before, later, rfl, hnew, hbefore, hall⟩ := h
  refine ⟨before, later ++ [c], by simp, hnew, hbefore, fun id height hfound => ?_⟩
  rw [underKey_concat, Option.or_eq_some_iff] at hfound
  rcases hfound with hold | ⟨hnone, hadded⟩
  · exact hall id height hold
  · obtain ⟨rfl, hheight⟩ := Option.ite_none_right_eq_some.1 hadded
    rw [← Option.some.inj hheight]
    exact hle hnone

/-- A call for a new block takes the lead if its height is greater than all others. -/
theorem take (hnew : underKey calls c.1 = none)
    (hgreater : ∀ id height, underKey calls id = some height → height < c.2) :
    Leads (calls ++ [c]) c := by
  refine ⟨calls, [], rfl, hnew, hgreater, fun id height hfound => ?_⟩
  rw [underKey_concat, Option.or_eq_some_iff] at hfound
  rcases hfound with hold | ⟨-, hadded⟩
  · exact (hgreater id height hold).le
  · obtain ⟨-, hheight⟩ := Option.ite_none_right_eq_some.1 hadded
    rw [Option.some.inj hheight]

end Leads

/-- Before the first call there is no tip, and from then on it is the call that leads. -/
theorem tip_after_cases (calls : List (Hash256 × Nat)) :
    (calls = [] ∧ (after calls).tip = none) ∨
      ∃ top, (after calls).tip = some top ∧ Leads calls top := by
  induction calls using List.reverseRecOn with
  | nil => exact .inl ⟨rfl, rfl⟩
  | append_singleton calls c ih =>
    right
    have hget := get?_after calls c.1
    rw [after_concat]
    -- a block that has a height leaves the tip alone, and a new one is compared with the leader
    cases hfound : underKey calls c.1 with
    | some height =>
      rw [serve_of_recorded (hget.trans hfound)]
      rcases ih with ⟨rfl, -⟩ | ⟨top, htip, hleads⟩
      · cases hfound
      · exact ⟨top, htip, hleads.concat fun hnone => by cases hnone.symm.trans hfound⟩
    | none =>
      rw [serve_of_new (hget.trans hfound)]
      rcases ih with ⟨rfl, htip⟩ | ⟨top, htip, hleads⟩
      · rw [htip]
        exact ⟨c, rfl, .take hfound fun id height hheight => by cases hheight⟩
      · rw [htip]
        by_cases hgreater : top.2 < c.2
        · refine ⟨c, congrArg some (if_pos hgreater), .take hfound fun id height hheight => ?_⟩
          exact (hleads.greatest hheight).trans_lt hgreater
        · have hle := Nat.le_of_not_lt hgreater
          exact ⟨top, congrArg some (raised_of_le hle), hleads.concat fun _ => hle⟩

theorem tip_after_eq_some_iff {calls : List (Hash256 × Nat)} {top : Hash256 × Nat} :
    (after calls).tip = some top ↔ Leads calls top := by
  rcases tip_after_cases calls with ⟨rfl, htip⟩ | ⟨leader, htip, hleads⟩
  · rw [htip]
    refine ⟨fun hsome => ?_, fun hleads => ?_⟩
    · cases hsome
    · cases hleads.first
  · rw [htip, Option.some.injEq]
    exact ⟨fun hsame => hsame ▸ hleads, hleads.unique⟩

theorem tip_after_eq_none_iff {calls : List (Hash256 × Nat)} :
    (after calls).tip = none ↔ calls = [] := by
  rcases tip_after_cases calls with ⟨rfl, htip⟩ | ⟨leader, htip, hleads⟩
  · exact iff_of_true htip rfl
  · rw [htip]
    refine iff_of_false (by simp) ?_
    rintro rfl
    cases hleads.first

/-- After calls to record heights, a block has the height that the first call for it named. The next
call is served if and only if it names the first height for its block; unless it is served and the
first one for its block, it changes nothing. There is no tip before the first call, and from then on
the tip is the block with the greatest height, the first one of those that have it. -/
theorem first_heights_kept (calls : List (Hash256 × Nat)) (c : Hash256 × Nat) (id : Hash256) :
    let h := after calls
    h.get? id = underKey calls id ∧
      (∃ first, underKey (calls ++ [c]) c.1 = some first ∧
        (h.serve c).1 =
          if c.2 = first then .ok () else .error (.conflict (.height c.1 first))) ∧
      ((c.1 ∉ calls.map Prod.fst ∧ (h.serve c).1 = .ok ()) ∨ (h.serve c).2 = h) ∧
      (h.tip = none ↔ calls = []) ∧ ∀ top, h.tip = some top ↔ Leads calls top := by
  intro h
  have hget := get?_after calls c.1
  refine ⟨get?_after calls id, ?_, ?_, tip_after_eq_none_iff, fun _ => tip_after_eq_some_iff⟩
  · rw [underKey_concat, if_pos rfl]
    cases hfound : underKey calls c.1 with
    | none => exact ⟨c.2, rfl, by rw [serve_of_new (hget.trans hfound), if_pos rfl]⟩
    | some first => exact ⟨first, rfl, by rw [serve_of_recorded (hget.trans hfound)]⟩
  · cases hfound : underKey calls c.1 with
    | none => exact .inl ⟨underKey_eq_none_iff.1 hfound, by rw [serve_of_new (hget.trans hfound)]⟩
    | some first => exact .inr (by rw [serve_of_recorded (hget.trans hfound)])

/-- Neither a side branch at the height of the tip nor a second height for the tip moves it. -/
example :
    let calls := [(Hash256.zero, 0), (Hash256.one, 1), (⟨List.replicate 32 2, rfl⟩, 1), (Hash256.one, 5)]
    (after calls).tip = some (Hash256.one, 1) ∧ (after calls).size = 3 := by
  decide

end Heights

end ChainRules.Chain
