import Mathlib
import ChainRules.Proofs.Script.Phases

/-!
# Instructions on the main stack

Most instructions only take some items off the main stack and put others in their place. They are
described by these items alone; what lies below them takes no part.
-/

namespace ChainRules.Script

/-- What an answer leaves on the stack: its item, or nothing where it must be true and is. -/
inductive Delivers : (insist answer : Bool) → (given : Stack) → Prop
  | item (answer : Bool) : Delivers false answer [Item.ofBool answer]
  | nothing : Delivers true true []

/-- The items that an instruction takes off the main stack and those that it puts there instead, the
topmost first. Only instructions that do nothing else have such items. -/
inductive Instruction.Rewrites : Instruction → (taken given : Stack) → Prop
  | constant (n : Int) : Rewrites (.constant n) [] [Number.encode n]
  | nop : Rewrites .nop [] []
  | verify {item : Item} {given : Stack} (h : Delivers true item.isTrue given) :
    Rewrites .verify [item] given
  | rearrange {r : Rearrangement} {taken given : Stack} (h : r.apply? taken = some given) :
    Rewrites (.rearrange r) taken given
  | dupIfTrue (item : Item) :
    Rewrites .dupIfTrue [item] (if item.isTrue then [item, item] else [item])
  | size (item : Item) : Rewrites .size [item] [Number.encode item.length, item]
  | pick {depth : Item} {above : Stack} (item : Item) (h : depth.number = .ok (above.length : Int)) :
    Rewrites .pick (depth :: (above ++ [item])) (item :: (above ++ [item]))
  | roll {depth : Item} {above : Stack} (item : Item) (h : depth.number = .ok (above.length : Int)) :
    Rewrites .roll (depth :: (above ++ [item])) (item :: above)
  | equal {insist : Bool} {a b : Item} {given : Stack} (h : Delivers insist (a = b) given) :
    Rewrites (.equal insist) [b, a] given
  | unary {f : UnaryOp} {item : Item} {n : Int} (h : item.number = .ok n) :
    Rewrites (.unary f) [item] [Number.encode (f.eval n)]
  | binary {f : BinaryOp} {item item' : Item} {a b : Int} (ha : item.number = .ok a)
    (hb : item'.number = .ok b) :
    Rewrites (.binary f) [item', item] [Number.encode (f.eval a b)]
  | numEqualVerify {item item' : Item} {a b : Int} {given : Stack} (ha : item.number = .ok a)
    (hb : item'.number = .ok b) (h : Delivers true (a = b) given) :
    Rewrites .numEqualVerify [item', item] given
  | within {item item' item'' : Item} {n lower upper : Int} (hn : item.number = .ok n)
    (hlower : item'.number = .ok lower) (hupper : item''.number = .ok upper) :
    Rewrites .within [item'', item', item] [Item.ofBool (lower ≤ n && n < upper)]
  | hash (a : Digest.Algorithm) (item : Item) : Rewrites (.hash a) [item] [a.digest item]

/-- An instruction fetches an item if it takes a depth and the items down to there, and leaves `left`
of the items above this depth and of the item there. -/
def Instruction.FetchesTo (i : Instruction) (left : Stack → Item → Stack) : Prop :=
  ∀ taken given, i.Rewrites taken given ↔ ∃ depth above item,
    depth.number = .ok (above.length : Int) ∧ taken = depth :: (above ++ [item]) ∧
      given = left above item

theorem Instruction.pick_fetchesTo : pick.FetchesTo fun above item => item :: (above ++ [item]) := by
  intro taken given
  refine ⟨fun h => ?_, ?_⟩
  · cases h with
    | pick item hdepth => exact ⟨_, _, item, hdepth, rfl, rfl⟩
  · rintro ⟨depth, above, item, hdepth, rfl, rfl⟩
    exact .pick item hdepth

theorem Instruction.roll_fetchesTo : roll.FetchesTo fun above item => item :: above := by
  intro taken given
  refine ⟨fun h => ?_, ?_⟩
  · cases h with
    | roll item hdepth => exact ⟨_, _, item, hdepth, rfl, rfl⟩
  · rintro ⟨depth, above, item, hdepth, rfl, rfl⟩
    exact .roll item hdepth

/-- A rearrangement of the topmost items does not look at those below. -/
theorem Rearrangement.apply?_append {r : Rearrangement} {taken given : Stack}
    (h : r.apply? taken = some given) (below : Stack) :
    r.apply? (taken ++ below) = some (given ++ below) := by
  unfold Rearrangement.apply? at h
  split at h
  all_goals cases h
  all_goals rfl

namespace Exec

variable {check : Checker} {op : Opcode} {rest : List Operation} {executing : Bool} {m m' : Machine}
  {u : Unit}

theorem deliver_eq_ok_iff {insist answer : Bool} :
    deliver op insist answer m = .ok u m' ↔
      ∃ given, Delivers insist answer given ∧ m' = { m with main := given ++ m.main } := by
  cases insist with
  | false =>
    rw [deliver_push_eq_ok_iff]
    refine ⟨fun h => ⟨_, .item answer, h⟩, ?_⟩
    intro hgiven
    obtain ⟨_, h, rfl⟩ := hgiven
    cases h
    rfl
  | true =>
    rw [deliver_insist_eq_ok_iff]
    refine ⟨?_, ?_⟩
    · intro hgiven
      obtain ⟨rfl, rfl⟩ := hgiven
      exact ⟨[], .nothing, rfl⟩
    · intro hgiven
      obtain ⟨_, h, rfl⟩ := hgiven
      cases h
      exact ⟨rfl, rfl⟩

/-- The computation succeeds exactly if the instruction rewrites the topmost items of the main stack,
and does nothing else. -/
def RewritesAs (i : Instruction) (x : Exec Unit) : Prop :=
  ∀ m m', x m = .ok () m' ↔ ∃ taken given below, i.Rewrites taken given ∧
    m.main = taken ++ below ∧ m' = { m with main := given ++ below }

theorem constant_rewrites (n : Int) :
    RewritesAs (.constant n) (perform check op rest executing (.constant n)) := by
  intro m m'
  simp only [perform, pushNumber, push_eq_ok_iff]
  refine ⟨fun h => ⟨_, _, m.main, .constant n, rfl, h⟩, ?_⟩
  intro hgiven
  obtain ⟨_, _, _, h, hmain, rfl⟩ := hgiven
  cases h
  cases hmain
  rfl

theorem nop_rewrites : RewritesAs .nop (perform check op rest executing .nop) := by
  intro m m'
  simp only [perform, pure_eq_ok_iff, true_and]
  refine ⟨fun h => ⟨_, _, m.main, .nop, rfl, h⟩, ?_⟩
  intro hgiven
  obtain ⟨_, _, _, h, hmain, rfl⟩ := hgiven
  cases h
  cases hmain
  rfl

theorem verify_rewrites : RewritesAs .verify (perform check op rest executing .verify) := by
  intro m m'
  simp only [perform, bind_eq_ok_iff, pop_eq_ok_iff, deliver_eq_ok_iff]
  refine ⟨?_, ?_⟩
  · intro hgiven
    obtain ⟨item, _, ⟨below, hmain, rfl⟩, given, h, rfl⟩ := hgiven
    exact ⟨[item], given, below, .verify h, hmain, rfl⟩
  · intro hgiven
    obtain ⟨_, given, below, h, hmain, rfl⟩ := hgiven
    cases h with
    | verify h => exact ⟨_, _, ⟨below, hmain, rfl⟩, given, h, rfl⟩

theorem perform_rearrange_eq_ok_iff {r : Rearrangement} :
    perform check op rest executing (.rearrange r) m = .ok u m' ↔
      ∃ main, r.apply? m.main = some main ∧ m' = { m with main := main } := by
  unfold perform
  dsimp only
  cases r.apply? m.main <;> simp [eq_comm]

theorem rearrange_rewrites (r : Rearrangement) :
    RewritesAs (.rearrange r) (perform check op rest executing (.rearrange r)) := by
  intro m m'
  rw [perform_rearrange_eq_ok_iff]
  refine ⟨?_, ?_⟩
  · intro hgiven
    obtain ⟨main, h, rfl⟩ := hgiven
    exact ⟨m.main, main, [], .rearrange h, by simp, by simp⟩
  · intro hgiven
    obtain ⟨taken, given, below, h, hmain, rfl⟩ := hgiven
    cases h with
    | rearrange h => exact ⟨_, hmain ▸ Rearrangement.apply?_append h below, rfl⟩

theorem dupIfTrue_rewrites :
    RewritesAs .dupIfTrue (perform check op rest executing .dupIfTrue) := by
  intro m m'
  have hagain : ∀ (item : Item) (m : Machine),
      (if item.isTrue = true then push item else pure () : Exec Unit) m = .ok () m' ↔
        m' = if item.isTrue then m.pushed item else m := by
    intro item m
    cases item.isTrue with
    | false => simp [pure_eq_ok_iff]
    | true => simp [push_eq_ok_iff]
  simp only [perform, bind_eq_ok_iff, pop_eq_ok_iff, push_eq_ok_iff, hagain]
  refine ⟨?_, ?_⟩
  · intro hgiven
    obtain ⟨item, _, ⟨below, hmain, rfl⟩, _, _, rfl, rfl⟩ := hgiven
    refine ⟨[item], _, below, .dupIfTrue item, hmain, ?_⟩
    cases item.isTrue <;> rfl
  · intro hgiven
    obtain ⟨_, _, below, h, hmain, rfl⟩ := hgiven
    cases h with
    | dupIfTrue item =>
      refine ⟨item, _, ⟨below, hmain, rfl⟩, (), _, rfl, ?_⟩
      cases item.isTrue <;> rfl

theorem size_rewrites : RewritesAs .size (perform check op rest executing .size) := by
  intro m m'
  simp only [perform, pushNumber, bind_eq_ok_iff, pop_eq_ok_iff, push_eq_ok_iff]
  refine ⟨?_, ?_⟩
  · intro hgiven
    obtain ⟨item, _, ⟨below, hmain, rfl⟩, _, _, rfl, rfl⟩ := hgiven
    exact ⟨[item], _, below, .size item, hmain, rfl⟩
  · intro hgiven
    obtain ⟨_, _, below, h, hmain, rfl⟩ := hgiven
    cases h with
    | size item => exact ⟨item, _, ⟨below, hmain, rfl⟩, (), _, rfl, rfl⟩

/-- An instruction that fetches an item rewrites the stack if it does the rest with the item as it
is left. -/
theorem fetching_rewrites {i : Instruction} {left : Stack → Item → Stack}
    {finish : Int → Item → Exec Unit} (hi : i.FetchesTo left)
    (hfinish : ∀ above item below (m m' : Machine), m.main = above ++ item :: below →
      (finish above.length item m = .ok () m' ↔
        m' = { m with main := left above item ++ below })) :
    RewritesAs i (popNumber op >>= fun n => itemAt n >>= finish n) := by
  intro m m'
  simp only [bind_eq_ok_iff, popNumber_eq_ok_iff, itemAt_eq_ok_iff, hi _ _]
  refine ⟨?_, ?_⟩
  · intro hgiven
    obtain ⟨_, _, ⟨depth, _, hmain, hdepth, rfl⟩, item, _, ⟨above, below, rfl, rfl, rfl⟩, hrun⟩ :=
      hgiven
    have hend := (hfinish above item below { m with main := above ++ item :: below } m' rfl).1 hrun
    exact ⟨_, _, below, ⟨depth, above, item, hdepth, rfl, rfl⟩, by simp [hmain], hend⟩
  · intro hgiven
    obtain ⟨_, _, below, ⟨depth, above, item, hdepth, rfl, rfl⟩, hmain, rfl⟩ := hgiven
    rw [List.cons_append, List.append_assoc] at hmain
    exact ⟨_, _, ⟨depth, _, hmain, hdepth, rfl⟩, item, _, ⟨above, below, rfl, rfl, rfl⟩,
      (hfinish above item below _ _ rfl).2 rfl⟩

theorem pick_rewrites : RewritesAs .pick (perform check op rest executing .pick) := by
  refine fetching_rewrites Instruction.pick_fetchesTo fun above item below m m' hmain => ?_
  rw [push_eq_ok_iff, Machine.pushed, hmain]
  simp

theorem roll_rewrites : RewritesAs .roll (perform check op rest executing .roll) := by
  refine fetching_rewrites Instruction.roll_fetchesTo fun above item below m m' hmain => ?_
  rw [modify_eq_ok_iff, hmain, Int.toNat_natCast, eraseIdx_atDepth, List.cons_append]

theorem equal_rewrites (insist : Bool) :
    RewritesAs (.equal insist) (perform check op rest executing (.equal insist)) := by
  intro m m'
  simp only [perform, bind_eq_ok_iff, pop_eq_ok_iff, deliver_eq_ok_iff]
  refine ⟨?_, ?_⟩
  · intro hgiven
    obtain ⟨b, _, ⟨_, hmain, rfl⟩, a, _, ⟨below, rfl, rfl⟩, given, h, rfl⟩ := hgiven
    exact ⟨[b, a], given, below, .equal h, hmain, rfl⟩
  · intro hgiven
    obtain ⟨_, given, below, h, hmain, rfl⟩ := hgiven
    cases h with
    | equal h => exact ⟨_, _, ⟨_, hmain, rfl⟩, _, _, ⟨below, rfl, rfl⟩, given, h, rfl⟩

theorem unary_rewrites (f : UnaryOp) :
    RewritesAs (.unary f) (perform check op rest executing (.unary f)) := by
  intro m m'
  simp only [perform, pushNumber, bind_eq_ok_iff, popNumber_eq_ok_iff, push_eq_ok_iff]
  refine ⟨?_, ?_⟩
  · intro hgiven
    obtain ⟨n, _, ⟨item, below, hmain, hn, rfl⟩, rfl⟩ := hgiven
    exact ⟨[item], _, below, .unary hn, hmain, rfl⟩
  · intro hgiven
    obtain ⟨_, _, below, h, hmain, rfl⟩ := hgiven
    cases h with
    | unary hn => exact ⟨_, _, ⟨_, below, hmain, hn, rfl⟩, rfl⟩

/-- Two operands are taken off the stack as numbers, the second one first. -/
theorem operands_eq_ok_iff {f : Int → Int → Exec Unit} :
    (do
      require op 2
      let b ← popNumber op
      let a ← popNumber op
      f a b : Exec Unit) m = .ok u m' ↔ ∃ item' item b a below,
        m.main = item' :: item :: below ∧ item'.number = .ok b ∧ item.number = .ok a ∧
          f a b { m with main := below } = .ok u m' := by
  simp only [bind_eq_ok_iff, require_eq_ok_iff, popNumber_eq_ok_iff]
  refine ⟨?_, ?_⟩
  · intro hgiven
    obtain ⟨_, _, ⟨-, rfl⟩, b, _, ⟨item', _, hmain, hb, rfl⟩, a, _, ⟨item, below, rfl, ha, rfl⟩,
      hrest⟩ := hgiven
    exact ⟨item', item, b, a, below, hmain, hb, ha, hrest⟩
  · intro hgiven
    obtain ⟨item', item, b, a, below, hmain, hb, ha, hrest⟩ := hgiven
    exact ⟨(), m, ⟨by simp [hmain], rfl⟩, b, _, ⟨item', _, hmain, hb, rfl⟩, a, _,
      ⟨item, below, rfl, ha, rfl⟩, hrest⟩

theorem binary_rewrites (f : BinaryOp) :
    RewritesAs (.binary f) (perform check op rest executing (.binary f)) := by
  intro m m'
  refine operands_eq_ok_iff.trans ⟨?_, ?_⟩
  · intro hgiven
    obtain ⟨_, _, _, _, below, hmain, hb, ha, hrest⟩ := hgiven
    exact ⟨_, _, below, .binary ha hb, hmain, push_eq_ok_iff.1 hrest⟩
  · intro hgiven
    obtain ⟨_, _, below, h, hmain, rfl⟩ := hgiven
    cases h with
    | binary ha hb => exact ⟨_, _, _, _, below, hmain, hb, ha, push_eq_ok_iff.2 rfl⟩

theorem numEqualVerify_rewrites :
    RewritesAs .numEqualVerify (perform check op rest executing .numEqualVerify) := by
  intro m m'
  refine operands_eq_ok_iff.trans ⟨?_, ?_⟩
  · intro hgiven
    obtain ⟨_, _, _, _, below, hmain, hb, ha, hrest⟩ := hgiven
    obtain ⟨given, h, rfl⟩ := deliver_eq_ok_iff.1 hrest
    exact ⟨_, given, below, .numEqualVerify ha hb h, hmain, rfl⟩
  · intro hgiven
    obtain ⟨_, given, below, h, hmain, rfl⟩ := hgiven
    cases h with
    | numEqualVerify ha hb h =>
      exact ⟨_, _, _, _, below, hmain, hb, ha, deliver_eq_ok_iff.2 ⟨given, h, rfl⟩⟩

theorem within_rewrites : RewritesAs .within (perform check op rest executing .within) := by
  intro m m'
  simp only [perform, bind_eq_ok_iff, require_eq_ok_iff, popNumber_eq_ok_iff, push_eq_ok_iff]
  refine ⟨?_, ?_⟩
  · intro hgiven
    obtain ⟨_, _, ⟨-, rfl⟩, upper, _, ⟨_, _, hmain, hupper, rfl⟩, lower, _, ⟨_, _, rfl, hlower, rfl⟩,
      n, _, ⟨_, below, rfl, hn, rfl⟩, rfl⟩ := hgiven
    exact ⟨_, _, below, .within hn hlower hupper, hmain, rfl⟩
  · intro hgiven
    obtain ⟨_, _, below, h, hmain, rfl⟩ := hgiven
    cases h with
    | within hn hlower hupper =>
      exact ⟨(), m, ⟨by simp [hmain], rfl⟩, _, _, ⟨_, _, hmain, hupper, rfl⟩, _, _,
        ⟨_, _, rfl, hlower, rfl⟩, _, _, ⟨_, below, rfl, hn, rfl⟩, rfl⟩

theorem hash_rewrites (a : Digest.Algorithm) :
    RewritesAs (.hash a) (perform check op rest executing (.hash a)) := by
  intro m m'
  simp only [perform, bind_eq_ok_iff, pop_eq_ok_iff, push_eq_ok_iff]
  refine ⟨?_, ?_⟩
  · intro hgiven
    obtain ⟨item, _, ⟨below, hmain, rfl⟩, rfl⟩ := hgiven
    exact ⟨[item], _, below, .hash a item, hmain, rfl⟩
  · intro hgiven
    obtain ⟨_, _, below, h, hmain, rfl⟩ := hgiven
    cases h with
    | hash _ item => exact ⟨item, _, ⟨below, hmain, rfl⟩, rfl⟩

end Exec

end ChainRules.Script
