import ChainRules.Proofs.Script.Step

/-!
# Locks on the hash of a key

The most common lock asks for a key with a given hash and for a signature by that key. An unlocking
script may be any program. All that it hands over are the stacks: the lock starts with conditionals,
count and code of its own, so nothing but a key with that hash and a signature that the checker
accepts gets past it.
-/

namespace ChainRules.Script

/-- The lock on the hash of a key: OP_DUP, OP_HASH160, the push of the hash, OP_EQUALVERIFY and
OP_CHECKSIG. -/
def keyHashLock (hash : Bytes) : List Operation :=
  [.bare .opDup, .bare .opHash160, .push hash, .bare .opEqualVerify, .bare .opCheckSig]

/-- What a signature for the lock commits to: all of it but, where the signature happens to be the
hash, the push. -/
def keyHashCode (hash signature : Bytes) : List Operation :=
  if signature = hash then
    [.bare .opDup, .bare .opHash160, .bare .opEqualVerify, .bare .opCheckSig]
  else keyHashLock hash

section Lock

variable {hash : Bytes}

theorem keyHashLock_wellFormed (hlen : hash.length = 20) :
    ∀ o ∈ keyHashLock hash, o.WellFormed := by
  have hpush : (Operation.push hash).WellFormed := Operation.wellFormed_push (by omega)
  intro o ho
  simp only [keyHashLock, List.mem_cons, List.not_mem_nil, or_false] at ho
  rcases ho with rfl | rfl | rfl | rfl | rfl
  · rfl
  · rfl
  · exact hpush
  · rfl
  · rfl

/-- The bytes of the lock. -/
theorem encode_keyHashLock (hlen : hash.length = 20) :
    encode (keyHashLock hash) = Opcode.opDup :: Opcode.opHash160 :: 20 ::
      (hash ++ [Opcode.opEqualVerify, Opcode.opCheckSig]) := by
  have hfield : Operation.lengthField 20 20 = [] := rfl
  simp [encode, keyHashLock, Operation.encode, Operation.bare, Operation.push, hlen, hfield]

theorem scriptCode_keyHashLock (hlen : hash.length = 20) {m : Machine}
    (hcode : m.code = keyHashLock hash) (signature : Bytes) :
    m.scriptCode [signature] = keyHashCode hash signature := by
  unfold Machine.scriptCode keyHashCode
  rw [hcode]
  by_cases hsame : signature = hash
  · subst hsame
    have hne : signature ≠ [] := List.ne_nil_of_length_pos (by omega)
    simp [keyHashLock, Operation.push, Operation.bare, hne]
  · simp [keyHashLock, Operation.push, Operation.bare, hsame, Ne.symm hsame]

end Lock

namespace Exec

variable {hash : Bytes} {m m' : Machine}

/-- A run of the operations of the lock, whatever the script code: the key and the signature are on
top of the stack, the key has the hash, and the answer of the checker takes their place. There has
to be room for the two items that the lock holds besides those it finds. -/
theorem run_keyHashLock_iff (check : Checker) (ops : List Operation) (hlen : hash.length = 20)
    (hm : m.token = .never) :
    run check (keyHashLock hash) (m.running ops 0 m.main) = .ok () m' ↔
      ∃ key signature below, m.main = key :: signature :: below ∧
        m.main.length + m.alt.length ≤ 998 ∧ Digest.Algorithm.hash160.digest key = hash ∧
        let code := (m.running ops 4 below).scriptCode [signature]
        let answer := check signature key code
        m' = { m.running ops 4 (Item.ofBool answer :: below) with
          queries := m.queries ++ [⟨signature, key, code, answer⟩] } := by
  have hsize : limits.stackSize = 1000 := rfl
  have hcount : limits.operations = 201 := rfl
  unfold keyHashLock
  rw [(perform_dup_restacks .opDup true).run_iff rfl rfl rfl hm]
  simp only [(perform_hash_restacks .opHash160 true .hash160).run_iff rfl rfl rfl hm,
    run_push_iff hm, (perform_equalVerify_restacks .opEqualVerify true).run_iff rfl rfl rfl hm,
    run_bare_iff .opCheckSig rfl rfl rfl hm, perform_checkSig_eq_ok_iff,
    run_nil_eq_ok_iff]
  -- below, one line of a pattern or of a witness for each operation
  refine ⟨?_, ?_⟩
  · intro hgiven
    obtain ⟨-, _, ⟨key, _, hmain, rfl⟩, -,
      -, _, ⟨_, _, hdup, rfl⟩, -,
      -, hroom,
      -, _, ⟨_, hverify⟩, -,
      -, _, ⟨_, signature, below, hkept, rfl⟩, -, rfl⟩ := hgiven
    obtain ⟨rfl, rfl⟩ := List.cons.inj hdup
    obtain ⟨rfl, hsame⟩ := List.cons.inj hverify
    obtain ⟨hhash, rfl⟩ := List.cons.inj hsame
    obtain ⟨rfl, rfl⟩ := List.cons.inj (hmain.symm.trans hkept)
    rw [List.length_cons] at hroom
    exact ⟨key, signature, below, hmain, by omega, hhash, rfl⟩
  · intro hgiven
    obtain ⟨key, signature, below, hmain, hroom, rfl, rfl⟩ := hgiven
    have hlength : m.main.length = below.length + 2 := by rw [hmain]; rfl
    have hitem : limits.itemSize = 520 := rfl
    refine ⟨by omega, _, ⟨key, _, hmain, rfl⟩, ?_,
      by omega, _, ⟨key, _, rfl, rfl⟩, ?_,
      by omega, ?_,
      by omega, _, ⟨_, by rw [hmain]⟩, ?_,
      by omega, _, ⟨key, signature, below, rfl, rfl⟩, ?_, rfl⟩
    all_goals simp only [List.length_cons, Machine.running]
    all_goals omega

end Exec

/-- Truth values are read back from the items that stand for them. -/
theorem Item.isTrue_ofBool (b : Bool) : (Item.ofBool b).isTrue = b := by
  cases b <;> rfl

/-- A lock on the hash of a key opens exactly if the unlocking script, run on its own, leaves on top
a key with that hash and below it a signature that the checker accepts for it, with room for two
more items. Whatever the unlocking script does besides, it does not get around this. -/
theorem spend_keyHashLock_iff (check : Checker) (hash unlock : Bytes) (hlen : hash.length = 20) :
    (∃ m, spend check .never unlock (encode (keyHashLock hash)) = .ok true m) ↔
      ∃ m key signature below, Exec.script check unlock (Machine.empty .never) = .ok () m ∧
        m.main = key :: signature :: below ∧ m.main.length + m.alt.length ≤ 998 ∧
        Digest.Algorithm.hash160.digest key = hash ∧
        check signature key (keyHashCode hash signature) = true := by
  have hlock : Exec.script check (encode (keyHashLock hash)) =
      Exec.operations check (keyHashLock hash) := by
    have hfits : (encode (keyHashLock hash)).length ≤ limits.scriptSize := by
      rw [encode_keyHashLock hlen]
      simp [hlen, limits]
    exact Exec.script_encode check (keyHashLock_wellFormed hlen) hfits
  -- The second script starts afresh: only the stacks come from the first one.
  have hsecond : ∀ m final, Exec.operations check (keyHashLock hash) m = .ok () final ↔
      Exec.run check (keyHashLock hash) (m.running (keyHashLock hash) 0 m.main) = .ok () final ∧
        final.branches = [] := fun _ _ => Exec.operations_eq_ok_iff
  have hcode : ∀ (m : Machine) below signature,
      (m.running (keyHashLock hash) 4 below).scriptCode [signature] = keyHashCode hash signature :=
    fun _ _ signature => scriptCode_keyHashLock hlen rfl signature
  unfold spend
  simp only [Exec.spend_eq_ok_iff, hlock]
  refine ⟨?_, ?_⟩
  · intro hgiven
    obtain ⟨final, m, hunlock, hrun, htop⟩ := hgiven
    have hm : m.token = .never := (Exec.script_heeds check unlock).never_of_ok rfl hunlock
    obtain ⟨hrun, -⟩ := (hsecond m final).1 hrun
    obtain ⟨key, signature, below, hmain, hroom, hhash, rfl⟩ :=
      (Exec.run_keyHashLock_iff check _ hlen hm).1 hrun
    refine ⟨m, key, signature, below, hunlock, hmain, hroom, hhash, ?_⟩
    change true = Item.isTrue (Item.ofBool _) at htop
    rw [Item.isTrue_ofBool, hcode] at htop
    exact htop.symm
  · intro hgiven
    obtain ⟨m, key, signature, below, hunlock, hmain, hroom, hhash, hchecked⟩ := hgiven
    have hm : m.token = .never := (Exec.script_heeds check unlock).never_of_ok rfl hunlock
    have hrun := (Exec.run_keyHashLock_iff check (keyHashLock hash) hlen hm).2
      ⟨key, signature, below, hmain, hroom, hhash, rfl⟩
    refine ⟨_, m, hunlock, (hsecond m _).2 ⟨hrun, rfl⟩, ?_⟩
    change true = Item.isTrue (Item.ofBool _)
    rw [Item.isTrue_ofBool, hcode, hchecked]

/-- The hash of the key of the single byte 2. -/
def sampleKeyHash : Bytes :=
  [0xa6, 0xbb, 0x94, 0xc8, 0x79, 0x2c, 0x39, 0x57, 0x85, 0x78,
   0x72, 0x80, 0xdc, 0x18, 0x8d, 0x11, 0x4e, 0x1f, 0x33, 0x9b]

/-- A signature that is the hash itself opens the lock where the checker accepts it for the four
operations that are left without the push. -/
theorem spend_keyHashLock_hash_as_signature :
    let check : Checker := fun signature key code =>
      signature = sampleKeyHash && key = [2] &&
        code = [.bare .opDup, .bare .opHash160, .bare .opEqualVerify, .bare .opCheckSig]
    ∃ m, spend check .never (encode [.push sampleKeyHash, .push [2]])
      (encode (keyHashLock sampleKeyHash)) = .ok true m :=
  (spend_keyHashLock_iff _ sampleKeyHash _ rfl).2
    ⟨_, [2], sampleKeyHash, [], rfl, rfl, by decide, by decide +kernel, by decide⟩

end ChainRules.Script
