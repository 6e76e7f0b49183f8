import ChainRules.Proofs.Script.Numbers
import ChainRules.Proofs.Script.Step

/-!
# Moves of single items

Every rearrangement of the main stack is made up of moves of single items, each of which fetches an
item from a depth or drops the topmost one. The opcode of the rearrangement and the opcodes of these
moves do the same to every stack, also where it has too few items.
-/

namespace ChainRules.Script

/-! ## Moves -/

/-- A move of a single item: the item at a depth is copied to the top or taken there, or the topmost
item is dropped. -/
inductive Move where
  | pick (k : Int)
  | roll (k : Int)
  | drop
  deriving DecidableEq

/-- The stack after a move, if there is such an item. -/
def Move.make? : Move → Stack → Option Stack
  | pick k, s => (if k < 0 then none else s[k.toNat]?).map (· :: s)
  | roll k, s => (if k < 0 then none else s[k.toNat]?).map (· :: s.eraseIdx k.toNat)
  | drop, s => Rearrangement.drop.apply? s

/-- The stack after several moves, if all of them can be made. -/
def Move.makeAll? (moves : List Move) (s : Stack) : Option Stack :=
  moves.foldlM (fun s move => move.make? s) s

/-- The moves that a rearrangement is made up of. -/
def Rearrangement.moves : Rearrangement → List Move
  | drop2 => [.drop, .drop]
  | dup2 => [.pick 1, .pick 1]
  | dup3 => [.pick 2, .pick 2, .pick 2]
  | over2 => [.pick 3, .pick 3]
  | rot2 => [.roll 5, .roll 5]
  | swap2 => [.roll 3, .roll 3]
  | drop => [.drop]
  | dup => [.pick 0]
  | nip => [.roll 1, .drop]
  | over1 => [.pick 1]
  | rot => [.roll 2]
  | swap => [.roll 1]
  | tuck => [.roll 1, .pick 1]

/-- No rearrangement looks further down than six items. -/
theorem Rearrangement.makeAll?_moves (r : Rearrangement) (s : Stack) :
    Move.makeAll? r.moves s = r.apply? s := by
  rcases s with _ | ⟨_, _ | ⟨_, _ | ⟨_, _ | ⟨_, _ | ⟨_, _ | ⟨_, s⟩⟩⟩⟩⟩⟩
  all_goals cases r
  all_goals rfl

theorem Rearrangement.length_apply?_le {r : Rearrangement} {s t : Stack} (h : r.apply? s = some t) :
    t.length ≤ s.length + 3 := by
  unfold Rearrangement.apply? at h
  split at h
  all_goals cases h
  all_goals simp only [List.length_cons]
  all_goals omega

namespace Move

variable {k : Int} {s t : Stack}

theorem pick_eq_some_iff :
    (pick k).make? s = some t ↔ ∃ above item below,
      s = above ++ item :: below ∧ k = above.length ∧ t = item :: s := by
  simp only [make?, Option.map_eq_some_iff, Exec.atDepth_eq_some_iff]
  refine ⟨?_, ?_⟩
  · intro hgiven
    obtain ⟨item, ⟨above, below, hs, hk⟩, rfl⟩ := hgiven
    exact ⟨above, item, below, hs, hk, rfl⟩
  · intro hgiven
    obtain ⟨above, item, below, hs, hk, rfl⟩ := hgiven
    exact ⟨item, ⟨above, below, hs, hk⟩, rfl⟩

theorem roll_eq_some_iff :
    (roll k).make? s = some t ↔ ∃ above item below,
      s = above ++ item :: below ∧ k = above.length ∧ t = item :: (above ++ below) := by
  simp only [make?, Option.map_eq_some_iff, Exec.atDepth_eq_some_iff]
  refine ⟨?_, ?_⟩
  · intro hgiven
    obtain ⟨item, ⟨above, below, rfl, rfl⟩, rfl⟩ := hgiven
    refine ⟨above, item, below, rfl, rfl, ?_⟩
    rw [Int.toNat_natCast, Exec.eraseIdx_atDepth]
  · intro hgiven
    obtain ⟨above, item, below, rfl, rfl, rfl⟩ := hgiven
    refine ⟨item, ⟨above, below, rfl, rfl⟩, ?_⟩
    rw [Int.toNat_natCast, Exec.eraseIdx_atDepth]

/-- There is an item at every depth that is below the number of items, and at no other one. -/
theorem exists_split_iff :
    (∃ above item below, s = above ++ item :: below ∧ k = above.length) ↔
      0 ≤ k ∧ k < s.length := by
  refine ⟨?_, ?_⟩
  · intro hgiven
    obtain ⟨above, item, below, rfl, rfl⟩ := hgiven
    rw [List.length_append, List.length_cons]
    omega
  · intro hgiven
    obtain ⟨hpos, hlt⟩ := hgiven
    have hnat : k.toNat < s.length := by omega
    have hitem : (if k < 0 then none else s[k.toNat]?) = some s[k.toNat] := by
      rw [if_neg (Int.not_lt.2 hpos), List.getElem?_eq_getElem hnat]
    obtain ⟨above, below, hs, hk⟩ := Exec.atDepth_eq_some_iff.1 hitem
    exact ⟨above, _, below, hs, hk⟩

/-- Whatever is made of the item at a depth, the depth is below the number of items. -/
theorem depth_of_split {P : Stack → Item → Stack → Prop}
    (h : ∃ above item below, s = above ++ item :: below ∧ k = above.length ∧ P above item below) :
    0 ≤ k ∧ k < s.length := by
  obtain ⟨above, item, below, hs, hk, -⟩ := h
  exact exists_split_iff.1 ⟨above, item, below, hs, hk⟩

/-- A move adds at most one item. -/
theorem length_make?_le {move : Move} (h : move.make? s = some t) : t.length ≤ s.length + 1 := by
  cases move with
  | pick k =>
    obtain ⟨above, item, below, -, -, rfl⟩ := pick_eq_some_iff.1 h
    exact Nat.le_refl _
  | roll k =>
    obtain ⟨above, item, below, rfl, -, rfl⟩ := roll_eq_some_iff.1 h
    simp only [List.length_cons, List.length_append]
    omega
  | drop =>
    cases s with
    | nil => cases h
    | cons item below =>
      cases h
      rw [List.length_cons]
      omega

end Move

/-! ## Operations that move -/

/-- The operation writes a number: it pushes the shortest form of it as data, or by itself. -/
inductive Operation.Writes : Operation → Int → Prop
  | data {op : Opcode} {k : Int} (hop : op ≤ .opPushData4) : Writes ⟨op, some (Number.encode k)⟩ k
  | constant {op : Opcode} {k : Int} (hop : op.smallInt? = some k) : Writes (.bare op) k

/-- How a move is written: the depth comes first. -/
inductive Move.Written : Move → List Operation → Prop
  | pick {k : Int} {o : Operation} (ho : o.Writes k) : Written (.pick k) [o, .bare .opPick]
  | roll {k : Int} {o : Operation} (ho : o.Writes k) : Written (.roll k) [o, .bare .opRoll]
  | drop : Written .drop [.bare .opDrop]

/-- The opcode of a rearrangement. -/
def Rearrangement.opcode : Rearrangement → Opcode
  | drop2 => .op2Drop
  | dup2 => .op2Dup
  | dup3 => .op3Dup
  | over2 => .op2Over
  | rot2 => .op2Rot
  | swap2 => .op2Swap
  | drop => .opDrop
  | dup => .opDup
  | nip => .opNip
  | over1 => .opOver
  | rot => .opRot
  | swap => .opSwap
  | tuck => .opTuck

theorem Rearrangement.ofOpcode?_opcode (r : Rearrangement) :
    Instruction.ofOpcode? r.opcode = some (.rearrange r) := by
  cases r <;> rfl

theorem Rearrangement.counted_opcode (r : Rearrangement) :
    r.opcode.isCounted = true ∧ r.opcode.isDisabled = false := by
  cases r <;> decide

theorem Instruction.ofOpcode?_smallInt {op : Opcode} {k : Int} (h : op.smallInt? = some k) :
    ofOpcode? op = some (.constant k) := by
  unfold ofOpcode?
  rw [h]

/-- The opcodes that push a number by themselves are neither counted nor disabled. -/
theorem Opcode.uncounted_of_smallInt? (op : Opcode) (h : op.smallInt?.isSome = true) :
    op.isCounted = false ∧ op.isDisabled = false := by
  revert op
  decide +kernel

namespace Exec

variable {check : Checker} {o : Operation} {op : Opcode} {ops rest : List Operation}
  {m m' : Machine} {main : Stack} {n : Nat} {k : Int} {u : Unit}

/-- A run goes on with a number by putting its shortest form on the stack. -/
theorem run_number_iff (ho : o.Writes k) (hm : m.token = .never) :
    run check (o :: rest) (m.running ops n main) = .ok u m' ↔
      (Number.encode k).length ≤ limits.itemSize ∧
        main.length + 1 + m.alt.length ≤ limits.stackSize ∧
        run check rest (m.running ops n (Number.encode k :: main)) = .ok u m' := by
  cases ho with
  | @data op _ hop =>
    obtain ⟨hcounted, hable⟩ := Opcode.uncounted_of_le _ hop
    rw [run_item_iff (o := ⟨op, some (Number.encode k)⟩) hcounted hable rfl hm]
    simp
  | @constant op _ hop =>
    obtain ⟨hcounted, hable⟩ := Opcode.uncounted_of_smallInt? _ (by rw [hop]; rfl)
    have hi := Instruction.ofOpcode?_smallInt hop
    have hsize : (Number.encode k).length ≤ limits.itemSize := by
      have hsmall := natAbs_constant_le hi
      have hfour : (Number.encode k).length ≤ 4 :=
        (Number.length_encode_le_iff (by omega)).2 (by omega)
      exact hfour.trans (by decide)
    rw [run_item_iff (o := .bare op) hcounted hable (effect_bare hi) hm]
    simp [Operation.bare, hsize]

/-- From its operand and the stack below it, an instruction makes what the move to that depth makes
of the stack. -/
def Fetches (move : Int → Move) (x : Exec Unit) : Prop :=
  Restacks (fun s t => ∃ depth below k, s = depth :: below ∧ depth.number = .ok k ∧
    (move k).make? below = some t) x

/-- An instruction that fetches an item does so by a move if the move looks for the item at the depth
and leaves the same. -/
theorem RewritesAs.fetches {i : Instruction} {move : Int → Move} {x : Exec Unit}
    {left : Stack → Item → Stack} (hx : RewritesAs i x) (hi : i.FetchesTo left)
    (hmove : ∀ k s t, (move k).make? s = some t ↔ ∃ above item below,
      s = above ++ item :: below ∧ k = above.length ∧ t = left above item ++ below) :
    Fetches move x := by
  refine hx.restacks fun s t => ?_
  simp only [hi _ _, hmove]
  refine ⟨?_, ?_⟩
  · intro hgiven
    obtain ⟨depth, _, _, rfl, hdepth, above, item, below, rfl, rfl, rfl⟩ := hgiven
    exact ⟨_, _, below, ⟨depth, above, item, hdepth, rfl, rfl⟩, by simp, rfl⟩
  · intro hgiven
    obtain ⟨_, _, below, ⟨depth, above, item, hdepth, rfl, rfl⟩, rfl, rfl⟩ := hgiven
    exact ⟨depth, _, _, by simp, hdepth, above, item, below, rfl, rfl, rfl⟩

theorem perform_pick_fetches (op : Opcode) (executing : Bool) :
    Fetches .pick (perform check op rest executing .pick) := by
  refine pick_rewrites.fetches Instruction.pick_fetchesTo fun k s t => ?_
  rw [Move.pick_eq_some_iff]
  refine exists₃_congr fun above item below => and_congr_right ?_
  rintro rfl
  simp

theorem perform_roll_fetches (op : Opcode) (executing : Bool) :
    Fetches .roll (perform check op rest executing .roll) :=
  roll_rewrites.fetches Instruction.roll_fetchesTo fun _ _ _ => Move.roll_eq_some_iff

/-- A run goes on with a depth and the instruction that fetches from there by the move. A depth that
is too large for an operand is below the stack, as there is no room for so many items. -/
theorem Fetches.run_iff {i : Instruction} {move : Int → Move}
    (hx : Fetches move (perform check op rest true i)) (hi : Instruction.ofOpcode? op = some i)
    (hcounted : op.isCounted = true) (hable : op.isDisabled = false)
    (hdepth : ∀ s t, (move k).make? s = some t → 0 ≤ k ∧ k < s.length) (ho : o.Writes k)
    (hm : m.token = .never) (hcount : n + 1 ≤ limits.operations)
    (hroom : main.length + 1 + m.alt.length ≤ limits.stackSize) :
    run check (o :: .bare op :: rest) (m.running ops n main) = .ok u m' ↔
      ∃ next, (move k).make? main = some next ∧
        run check rest (m.running ops (n + 1) next) = .ok u m' := by
  have hsize : limits.stackSize = 1000 := rfl
  rw [run_number_iff ho hm, Restacks.run_iff hx hi hcounted hable hm]
  refine ⟨?_, ?_⟩
  · intro hgiven
    obtain ⟨-, -, -, next, ⟨_, _, k', hmain, hnumber, hnext⟩, -, hrest⟩ := hgiven
    obtain ⟨rfl, rfl⟩ := List.cons.inj hmain
    obtain ⟨-, rfl⟩ := Item.number_encode_eq_ok_iff.1 hnumber
    exact ⟨next, hnext, hrest⟩
  · intro hgiven
    obtain ⟨next, hnext, hrest⟩ := hgiven
    obtain ⟨hpos, hlt⟩ := hdepth main next hnext
    have hsmall : k.natAbs < 2 ^ 31 := by omega
    have hfour : (Number.encode k).length ≤ 4 :=
      (Number.length_encode_le_iff (by omega)).2 hsmall
    have hgrowth := Move.length_make?_le hnext
    exact ⟨hfour.trans (by decide), hroom, hcount, next,
      ⟨_, main, k, rfl, Item.number_encode_eq_ok_iff.2 ⟨hsmall, rfl⟩, hnext⟩, by omega, hrest⟩

/-- A run goes on with a written move by making it. -/
theorem run_move_iff {move : Move} {part : List Operation} (hpart : move.Written part)
    (hm : m.token = .never) (hcount : n + 1 ≤ limits.operations)
    (hroom : main.length + 1 + m.alt.length ≤ limits.stackSize) :
    run check (part ++ rest) (m.running ops n main) = .ok u m' ↔
      ∃ next, move.make? main = some next ∧
        run check rest (m.running ops (n + 1) next) = .ok u m' := by
  cases hpart with
  | pick ho =>
    exact (perform_pick_fetches .opPick true).run_iff rfl rfl rfl
      (fun _ _ h => Move.depth_of_split (Move.pick_eq_some_iff.1 h)) ho hm hcount hroom
  | roll ho =>
    exact (perform_roll_fetches .opRoll true).run_iff rfl rfl rfl
      (fun _ _ h => Move.depth_of_split (Move.roll_eq_some_iff.1 h)) ho hm hcount hroom
  | drop =>
    rw [List.singleton_append,
      (perform_rearrange_restacks .opDrop true .drop).run_iff rfl rfl rfl hm]
    refine ⟨?_, ?_⟩
    · intro hgiven
      obtain ⟨-, next, hnext, -, hrest⟩ := hgiven
      exact ⟨next, hnext, hrest⟩
    · intro hgiven
      obtain ⟨next, hnext, hrest⟩ := hgiven
      have hdropped : Move.drop.make? main = some next := hnext
      have hgrowth := Move.length_make?_le hdropped
      exact ⟨hcount, next, hnext, by omega, hrest⟩

/-- By induction along the moves: a run of written moves makes one after the other, where there is room
for as many items. -/
theorem run_moves_iff {moves : List Move} {parts : List (List Operation)}
    (hparts : List.Forall₂ Move.Written moves parts) (hm : m.token = .never)
    (hcount : n + moves.length ≤ limits.operations)
    (hroom : main.length + moves.length + m.alt.length ≤ limits.stackSize) :
    run check parts.flatten (m.running ops n main) = .ok u m' ↔
      ∃ next, Move.makeAll? moves main = some next ∧ m' = m.running ops (n + moves.length) next := by
  induction hparts generalizing n main with
  | nil =>
    rw [List.flatten_nil, run_nil_eq_ok_iff]
    simp [Move.makeAll?]
  | @cons move part moves parts hpart hparts ih =>
    rw [List.length_cons] at hcount hroom
    rw [List.flatten_cons, run_move_iff hpart hm (by omega) (by omega)]
    simp only [Move.makeAll?, List.foldlM_cons, Option.bind_eq_bind, Option.bind_eq_some_iff]
    have hrest : ∀ mid, move.make? main = some mid →
        (run check parts.flatten (m.running ops (n + 1) mid) = .ok u m' ↔
          ∃ next, Move.makeAll? moves mid = some next ∧
            m' = m.running ops (n + 1 + moves.length) next) := by
      intro mid hmid
      have hgrowth := Move.length_make?_le hmid
      exact ih (by omega) (by omega)
    rw [List.length_cons, Nat.add_comm moves.length 1, ← Nat.add_assoc]
    refine ⟨?_, ?_⟩
    · intro hgiven
      obtain ⟨mid, hmid, hrun⟩ := hgiven
      obtain ⟨next, hnext, hm'⟩ := (hrest mid hmid).1 hrun
      exact ⟨next, ⟨mid, hmid, hnext⟩, hm'⟩
    · intro hgiven
      obtain ⟨next, ⟨mid, hmid, hnext⟩, hm'⟩ := hgiven
      exact ⟨mid, hmid, (hrest mid hmid).2 ⟨next, hnext, hm'⟩⟩

/-! ## Stacks in the end -/

/-- The main and the alternate stack in the end, unless the computation is aborted. -/
def stacks? : EStateM.Result Abort Machine Unit → Option (Stack × Stack)
  | .ok _ m => some (m.main, m.alt)
  | .error _ _ => none

/-- Where the runs that succeed are known, so are the stacks in the end. -/
theorem stacks?_operations (count : Nat) {outcome : Option Stack}
    (h : ∀ m', run check ops (m.running ops 0 m.main) = .ok () m' ↔
      ∃ next, outcome = some next ∧ m' = m.running ops count next) :
    stacks? (operations check ops m) = outcome.map (·, m.alt) := by
  have hoperations : ∀ m', operations check ops m = .ok () m' ↔
      ∃ next, outcome = some next ∧ m' = m.running ops count next := by
    intro m'
    rw [operations_eq_ok_iff, ← h m']
    refine and_iff_left_of_imp fun hrun => ?_
    obtain ⟨next, -, rfl⟩ := (h m').1 hrun
    rfl
  cases hrun : operations check ops m with
  | ok _ m' =>
    obtain ⟨next, rfl, rfl⟩ := (hoperations m').1 hrun
    rfl
  | error cause stopped =>
    cases outcome with
    | none => rfl
    | some next =>
      rw [(hoperations _).2 ⟨next, rfl, rfl⟩] at hrun
      cases hrun

theorem stacks?_moves {moves : List Move} {parts : List (List Operation)}
    (hparts : List.Forall₂ Move.Written moves parts) (hm : m.token = .never)
    (hfew : moves.length ≤ 10) (hroom : m.main.length + m.alt.length ≤ 990) :
    stacks? (operations check parts.flatten m) = (Move.makeAll? moves m.main).map (·, m.alt) := by
  have hcount : limits.operations = 201 := rfl
  have hsize : limits.stackSize = 1000 := rfl
  exact stacks?_operations (0 + moves.length) fun _ => run_moves_iff hparts hm (by omega) (by omega)

theorem stacks?_move {move : Move} {part : List Operation} (hpart : move.Written part)
    (hm : m.token = .never) (hroom : m.main.length + m.alt.length ≤ 990) :
    stacks? (operations check part m) = (move.make? m.main).map (·, m.alt) := by
  have hparts : List.Forall₂ Move.Written [move] [part] := .cons hpart .nil
  have hmove : stacks? (operations check [part].flatten m) =
      (Move.makeAll? [move] m.main).map (·, m.alt) :=
    stacks?_moves hparts hm (Nat.le_add_left 1 9) hroom
  rw [List.flatten_singleton] at hmove
  rw [hmove]
  simp [Move.makeAll?]

theorem stacks?_rearrange (r : Rearrangement) (hm : m.token = .never)
    (hroom : m.main.length + m.alt.length ≤ 990) :
    stacks? (operations check [.bare r.opcode] m) =
      (Move.makeAll? r.moves m.main).map (·, m.alt) := by
  rw [r.makeAll?_moves]
  have hsize : limits.stackSize = 1000 := rfl
  obtain ⟨hcounted, hable⟩ := r.counted_opcode
  refine stacks?_operations 1 fun m' => ?_
  rw [(perform_rearrange_restacks r.opcode true r).run_iff r.ofOpcode?_opcode hcounted hable hm]
  refine ⟨?_, ?_⟩
  · intro hgiven
    obtain ⟨-, next, hnext, -, hrest⟩ := hgiven
    exact ⟨next, hnext, run_nil_eq_ok_iff.1 hrest⟩
  · intro hgiven
    obtain ⟨next, hnext, rfl⟩ := hgiven
    have hgrowth := Rearrangement.length_apply?_le hnext
    exact ⟨by decide, next, hnext, by omega, run_nil_eq_ok_iff.2 rfl⟩

end Exec

/-- Fetching agrees with the rearrangements. Where there is room for some more items, a number and the
opcode that takes or copies an item from that depth do this to the stack if the depth is below the
number of items, and are aborted for any other number. The opcode of a rearrangement and the moves
that it is made up of, however their depths are written, leave the same stacks, or both are aborted. -/
theorem moves_agree (check : Checker) (m : Machine) (hcalm : m.token = .never)
    (hroom : m.main.length + m.alt.length ≤ 990) :
    (∀ (k : Int) (o : Operation), o.Writes k →
      let rolled := Exec.stacks? (Exec.operations check [o, .bare .opRoll] m)
      let picked := Exec.stacks? (Exec.operations check [o, .bare .opPick] m)
      (0 ≤ k ∧ k < m.main.length → ∃ above item below, m.main = above ++ item :: below ∧
        k = above.length ∧ rolled = some (item :: (above ++ below), m.alt) ∧
        picked = some (item :: m.main, m.alt)) ∧
      (¬(0 ≤ k ∧ k < m.main.length) → rolled = none ∧ picked = none)) ∧
    ∀ (r : Rearrangement) (parts : List (List Operation)),
      List.Forall₂ Move.Written r.moves parts →
      Exec.stacks? (Exec.operations check [.bare r.opcode] m) =
        Exec.stacks? (Exec.operations check parts.flatten m) := by
  refine ⟨?_, ?_⟩
  · intro k o ho rolled picked
    have hrolled : rolled = ((Move.roll k).make? m.main).map (·, m.alt) :=
      Exec.stacks?_move (.roll ho) hcalm hroom
    have hpicked : picked = ((Move.pick k).make? m.main).map (·, m.alt) :=
      Exec.stacks?_move (.pick ho) hcalm hroom
    rw [hrolled, hpicked]
    refine ⟨?_, ?_⟩
    · intro hdepth
      obtain ⟨above, item, below, hmain, hk⟩ := Move.exists_split_iff.2 hdepth
      rw [Move.roll_eq_some_iff.2 ⟨above, item, below, hmain, hk, rfl⟩,
        Move.pick_eq_some_iff.2 ⟨above, item, below, hmain, hk, rfl⟩]
      exact ⟨above, item, below, hmain, hk, rfl, rfl⟩
    · intro hdepth
      have hroll : (Move.roll k).make? m.main = none := Option.eq_none_iff_forall_ne_some.2
        fun _ h => hdepth (Move.depth_of_split (Move.roll_eq_some_iff.1 h))
      have hpick : (Move.pick k).make? m.main = none := Option.eq_none_iff_forall_ne_some.2
        fun _ h => hdepth (Move.depth_of_split (Move.pick_eq_some_iff.1 h))
      rw [hroll, hpick]
      exact ⟨rfl, rfl⟩
  · intro r parts hparts
    have hfew : r.moves.length ≤ 10 := by cases r <;> decide
    rw [Exec.stacks?_rearrange r hcalm hroom, Exec.stacks?_moves hparts hcalm hfew hroom]

/-- Three items are rotated in either way, and two items are too few in either way. -/
theorem moves_agree_rotation :
    let check : Checker := fun _ _ _ => false
    let m : Machine := { Machine.empty .never with main := [[1], [2], [3]], alt := [[9]] }
    let few : Machine := { Machine.empty .never with main := [[1], [2]], alt := [[9]] }
    Exec.stacks? (Exec.operations check [.bare .opRot] m) = some ([[3], [1], [2]], [[9]]) ∧
      Exec.stacks? (Exec.operations check [.bare .opRot] few) = none := by
  intro check m few
  obtain ⟨hfetched, hagree⟩ := moves_agree check m rfl (by decide)
  obtain ⟨hfetchedFew, hagreeFew⟩ := moves_agree check few rfl (by decide)
  have htwo : (Operation.bare 0x52).Writes 2 := .constant rfl
  have hparts : List.Forall₂ Move.Written Rearrangement.rot.moves [[.bare 0x52, .bare .opRoll]] :=
    .cons (.roll htwo) .nil
  obtain ⟨above, item, below, hmain, hk, hrolled, -⟩ := (hfetched 2 _ htwo).1 (by decide)
  obtain ⟨hrolledFew, -⟩ := (hfetchedFew 2 _ htwo).2 (by decide)
  refine ⟨?_, (hagreeFew .rot _ hparts).trans hrolledFew⟩
  have hlen : above.length = 2 := by omega
  obtain ⟨a, b, rfl⟩ := List.length_eq_two.1 hlen
  cases hmain
  exact (hagree .rot _ hparts).trans hrolled

end ChainRules.Script
