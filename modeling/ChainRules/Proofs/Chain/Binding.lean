import ChainRules.Proofs.Chain.Judgement
import ChainRules.Proofs.Codec.Payload
import ChainRules.Proofs.Merkle.Levels

/-!
# What a Merkle root commits to

A root alone does not determine the list of transactions under it: an odd end and the same end
written twice have one root. The rules for blocks rule the second list out, as in them no
transaction stands twice. So a root and a depth determine the list, unless two of the byte strings
that are hashed collide.
-/

namespace ChainRules.Chain

/-- A transaction that is no coinbase cannot stand twice in a list in which no output is spent
twice, as it spends some output. -/
theorem nodup_of_spentOutpoints {txs : List Transaction} (hspent : (spentOutpoints txs).Nodup)
    (hspending : ∀ tx ∈ txs, tx.spending ≠ []) : txs.Nodup := by
  obtain ⟨-, hdisjoint⟩ := List.nodup_flatMap.1 hspent
  refine hdisjoint.imp_of_mem ?_
  intro tx tx' htx htx' hapart heq
  subst heq
  obtain ⟨input, hinput⟩ := List.exists_mem_of_ne_nil _ (hspending tx htx)
  have hprevout := List.mem_map_of_mem (f := Input.prevout) hinput
  exact hapart hprevout hprevout

/-- No transaction stands twice in a block that keeps the rules and spends no output twice. -/
theorem transactions_nodup {b : Block} (hstructure : b.checkStructure = .ok ())
    (hspent : (spentOutpoints b.transactions).Nodup) : b.transactions.Nodup := by
  obtain ⟨⟨first, rest, htxs, hfirst, hrest⟩, hchecked⟩ :=
    Block.checkStructure_eq_ok_iff.1 hstructure
  rw [htxs] at hspent hchecked ⊢
  have hnew : first ∉ rest := by
    intro hmem
    rw [hrest first hmem] at hfirst
    cases hfirst
  have hrestSpent : (spentOutpoints rest).Nodup := by
    rw [spentOutpoints, List.flatMap_cons] at hspent
    exact hspent.of_append_right
  have hspending : ∀ tx ∈ rest, tx.spending ≠ [] := by
    intro tx htx
    rw [Transaction.spending, if_neg (by simp [hrest tx htx])]
    exact Transaction.inputs_ne_nil_of_check (hchecked tx (List.mem_cons_of_mem first htx))
  exact List.nodup_cons.2 ⟨hnew, nodup_of_spentOutpoints hrestSpent hspending⟩

/-- The transactions of a block keep the rules for blocks and spend no output twice, and the tree is
the one over their ids. -/
structure Rooted (b : Block) (t : Merkle.Tree) : Prop where
  fits : ∀ tx ∈ b.transactions, tx.Fits
  wellFormed : b.checkStructure = .ok ()
  spentOnce : ∃ wanted, wantedIds (b.transactions.map .ofTransaction) = .ok wanted
  tree : Merkle.Tree.build (b.transactions.map Transaction.id) = .ok t

/-- The byte strings that are hashed for the ids of a block's transactions and for the tree over
them. -/
def hashedStrings (b : Block) (t : Merkle.Tree) : List Bytes :=
  b.transactions.map Transaction.encode ++ t.hashed

theorem id_injOn {txs : List Transaction} (hfits : ∀ tx ∈ txs, tx.Fits) {strings : Set Bytes}
    (hstrings : ∀ tx ∈ txs, tx.encode ∈ strings) (hhash : Set.InjOn Digest.hash256 strings) :
    Set.InjOn Transaction.id { tx | tx ∈ txs } := by
  intro tx htx tx' htx' heq
  have hencode : tx.encode = tx'.encode := hhash (hstrings tx htx) (hstrings tx' htx') heq
  have happend : tx.encode ++ [] = tx'.encode ++ [] := by rw [hencode]
  exact (Transaction.encode_append_inj (hfits tx htx) (hfits tx' htx') happend).1

theorem Rooted.ids_nodup {b : Block} {t : Merkle.Tree} (h : Rooted b t)
    (hid : Set.InjOn Transaction.id { tx | tx ∈ b.transactions }) :
    (b.transactions.map Transaction.id).Nodup :=
  (transactions_nodup h.wellFormed (exists_wantedIds_iff.1 h.spentOnce)).map_on
    fun _ htx _ htx' heq => hid htx htx' heq

/-- Two blocks with trees of one depth and with one Merkle root have the same transactions, if no
two of the byte strings that are hashed for them collide. -/
theorem transactions_committed {b b' : Block} {t t' : Merkle.Tree} (h : Rooted b t)
    (h' : Rooted b' t') (hdepth : t.depth = t'.depth)
    (hroot : Merkle.rootOf (b.transactions.map Transaction.id) =
      Merkle.rootOf (b'.transactions.map Transaction.id))
    (hhash : Set.InjOn Digest.hash256
      { bs | bs ∈ hashedStrings b t ∨ bs ∈ hashedStrings b' t' }) :
    b.transactions = b'.transactions := by
  have hid : Set.InjOn Transaction.id { tx | tx ∈ b.transactions ++ b'.transactions } := by
    refine id_injOn ?_ ?_ hhash
    · intro tx htx
      exact (List.mem_append.1 htx).elim (h.fits tx) (h'.fits tx)
    · intro tx htx
      refine (List.mem_append.1 htx).imp ?_ ?_
      · exact fun hmem => List.mem_append_left _ (List.mem_map_of_mem hmem)
      · exact fun hmem => List.mem_append_left _ (List.mem_map_of_mem hmem)
  have hids : (b.transactions.map Transaction.id).Nodup :=
    h.ids_nodup (hid.mono fun _ => List.mem_append_left _)
  have hids' : (b'.transactions.map Transaction.id).Nodup :=
    h'.ids_nodup (hid.mono fun _ => List.mem_append_right _)
  have hclimb := Merkle.Tree.climb h.tree
  have hclimb' := Merkle.Tree.climb h'.tree
  have hsame : t.root = t'.root := by
    rw [Merkle.rootOf, Merkle.rootOf, h.tree, h'.tree] at hroot
    exact Except.ok.inj hroot
  rw [hdepth, hsame] at hclimb
  have hlevels : b.transactions.map Transaction.id = b'.transactions.map Transaction.id := by
    refine hclimb.unique hclimb' hids hids' (hhash.mono ?_)
    intro bs hbs
    exact hbs.imp (List.mem_append_right _) (List.mem_append_right _)
  refine Merkle.map_inj_on (hid.mono ?_) hlevels
  intro tx htx
  exact List.mem_append.2 htx

/-- A coinbase and two further transactions, so that the tree has an odd end. -/
def sampleThree (nonce : UInt32) : Block where
  header := ⟨1, .zero, .zero, 0, 0, nonce⟩
  transactions :=
    [⟨1, [⟨⟨.zero, 0xffffffff⟩, [], 0⟩], [⟨50, [0x51]⟩], 0⟩,
      ⟨1, [⟨⟨.one, 0⟩, [], 0⟩], [⟨20, [0x51]⟩], 0⟩,
      ⟨1, [⟨⟨.one, 1⟩, [], 0⟩], [⟨30, [0x51]⟩], 0⟩]

/-- Whatever their headers, two such blocks share their tree, and the six byte strings that are
hashed for it do not collide. -/
theorem transactions_committed_three :
    ∃ t, Rooted (sampleThree 0) t ∧ Rooted (sampleThree 1) t ∧ t.depth = 2 ∧
      Set.InjOn Digest.hash256
        { bs | bs ∈ hashedStrings (sampleThree 0) t ∨ bs ∈ hashedStrings (sampleThree 1) t } ∧
      (sampleThree 0).transactions = (sampleThree 1).transactions := by
  obtain ⟨t, ht⟩ :
      ∃ t, Merkle.Tree.build ((sampleThree 0).transactions.map Transaction.id) = .ok t := ⟨_, rfl⟩
  have hshort : ∀ tx ∈ (sampleThree 0).transactions, tx.encode.length < 2 ^ 64 := by decide
  have hrooted : ∀ nonce, Rooted (sampleThree nonce) t := fun nonce =>
    ⟨fun tx htx => Transaction.fits_of_length (hshort tx htx), rfl, ⟨_, rfl⟩, ht⟩
  have hdistinct : ((hashedStrings (sampleThree 0) t).map Digest.hash256).Nodup := by
    cases ht
    decide +kernel
  have hhash : Set.InjOn Digest.hash256
      { bs | bs ∈ hashedStrings (sampleThree 0) t ∨ bs ∈ hashedStrings (sampleThree 1) t } := by
    intro bs hbs bs' hbs' heq
    exact List.inj_on_of_nodup_map hdistinct (hbs.elim id id) (hbs'.elim id id) heq
  have hdepth : t.depth = 2 := by
    cases ht
    rfl
  exact ⟨t, hrooted 0, hrooted 1, hdepth, hhash,
    transactions_committed (hrooted 0) (hrooted 1) rfl rfl hhash⟩

end ChainRules.Chain
