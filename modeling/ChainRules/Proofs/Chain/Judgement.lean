import ChainRules.Proofs.Chain.Spending
import ChainRules.Proofs.Codec.Ledger

/-!
# The rules behind the judgement

The judgement on a block is the conjunction of rules that can be stated one by one: its place, the
height that it claims, its work, its transactions, its Merkle root, and what its inputs spend. A
transaction is referred to by its id, so which one an input spends of is only certain where ids are
distinct; the rules leave it open.
-/

namespace ChainRules

/-! ## Rules without context -/

theorem refuseCoinbase_eq_ok_iff {index : Nat} {txs : List Transaction} :
    refuseCoinbase index txs = .ok () ↔ ∀ tx ∈ txs, tx.isCoinbase = false := by
  induction txs generalizing index with
  | nil => simp [refuseCoinbase]
  | cons tx txs ih =>
    rw [refuseCoinbase, List.forall_mem_cons]
    cases tx.isCoinbase with
    | true => simp
    | false => simpa using ih

theorem refuseRepeated_eq_ok_iff {seen : List Outpoint} {inputs : List Input} :
    refuseRepeated seen inputs = .ok () ↔
      (inputs.map Input.prevout).Nodup ∧ ∀ i ∈ inputs, i.prevout ∉ seen := by
  induction inputs generalizing seen with
  | nil => simp [refuseRepeated]
  | cons input rest ih =>
    rw [refuseRepeated, List.map_cons, List.nodup_cons, List.forall_mem_cons]
    by_cases hseen : input.prevout ∈ seen
    · simp [hseen]
    · rw [if_neg hseen, ih]
      simp only [List.mem_cons, not_or, hseen, not_false_eq_true, true_and, List.mem_map,
        not_exists, not_and]
      refine ⟨?_, ?_⟩
      · intro hgiven
        obtain ⟨hnodup, hrest⟩ := hgiven
        exact ⟨⟨fun i hi => (hrest i hi).1, hnodup⟩, fun i hi => (hrest i hi).2⟩
      · intro hgiven
        obtain ⟨⟨hfirst, hnodup⟩, hrest⟩ := hgiven
        exact ⟨hnodup, fun i hi => ⟨hfirst i hi, hrest i hi⟩⟩

namespace Transaction

variable {tx : Transaction}

/-- A transaction passes if and only if it keeps each of the rules. -/
theorem check_eq_ok_iff :
    tx.check = .ok () ↔ tx.inputs ≠ [] ∧ tx.outputs ≠ [] ∧ refuseNegative 0 tx.outputs = .ok () ∧
      tx.totalOutput?.isSome ∧ (tx.inputs.map Input.prevout).Nodup ∧
      (tx.isCoinbase = false → ∀ i ∈ tx.inputs, i.isCoinbase = false) := by
  have hrepeated : refuseRepeated [] tx.inputs = .ok () ↔ (tx.inputs.map Input.prevout).Nodup := by
    simp [refuseRepeated_eq_ok_iff]
  have hnull : (if !tx.isCoinbase && tx.inputs.any Input.isCoinbase then throw .nullOutpoint
        else pure () : Except Violation Unit) = .ok () ↔
      (tx.isCoinbase = false → ∀ i ∈ tx.inputs, i.isCoinbase = false) := by
    cases hany : !tx.isCoinbase && tx.inputs.any Input.isCoinbase <;>
      simp_all [throw, throwThe, MonadExceptOf.throw, pure, Except.pure]
  rw [← hrepeated, ← hnull]
  unfold check
  simp only [refuse_eq_ok_iff, then_eq_ok_iff, Bool.or_eq_true, List.isEmpty_iff,
    not_or, Option.isNone_iff_eq_none, Option.isSome_iff_ne_none, and_assoc, ne_eq]

theorem inputs_ne_nil_of_check (h : tx.check = .ok ()) : tx.inputs ≠ [] :=
  (check_eq_ok_iff.1 h).1

/-- The sum of the outputs of a transaction that keeps the rules is in range. -/
theorem totalOutput?_of_check (h : tx.check = .ok ()) : tx.totalOutput?.isSome :=
  (check_eq_ok_iff.1 h).2.2.2.1

/-- No two inputs of a transaction that keeps the rules spend one output. -/
theorem prevouts_nodup_of_check (h : tx.check = .ok ()) : (tx.inputs.map Input.prevout).Nodup :=
  (check_eq_ok_iff.1 h).2.2.2.2.1

end Transaction

theorem Block.checkStructure_eq_ok_iff {b : Block} :
    b.checkStructure = .ok () ↔
      (∃ first rest, b.transactions = first :: rest ∧ first.isCoinbase = true ∧
        ∀ tx ∈ rest, tx.isCoinbase = false) ∧ ∀ tx ∈ b.transactions, tx.check = .ok () := by
  unfold checkStructure
  cases b.transactions with
  | nil => simp
  | cons first rest =>
    dsimp only
    cases hfirst : first.isCoinbase with
    | false =>
      refine ⟨?_, ?_⟩
      · intro h
        cases h
      · intro hgiven
        obtain ⟨⟨_, _, heq, hcoinbase, -⟩, -⟩ := hgiven
        obtain ⟨rfl, -⟩ := List.cons.inj heq
        rw [hfirst] at hcoinbase
        cases hcoinbase
    | true =>
      refine bind_eq_ok_iff.trans ⟨?_, ?_⟩
      · intro hgiven
        obtain ⟨_, hrest, hchecked⟩ := hgiven
        exact ⟨⟨first, rest, rfl, hfirst, refuseCoinbase_eq_ok_iff.1 hrest⟩,
          forM_eq_ok_iff.1 hchecked⟩
      · intro hgiven
        obtain ⟨⟨_, _, heq, -, hrest⟩, hchecked⟩ := hgiven
        obtain ⟨rfl, rfl⟩ := List.cons.inj heq
        exact ⟨(), refuseCoinbase_eq_ok_iff.2 hrest, forM_eq_ok_iff.2 hchecked⟩

/-- In a block that keeps the rules the sums of outputs are in range. -/
theorem Block.totalOutput?_of_checkStructure {b : Block} (h : b.checkStructure = .ok ())
    {pre post : List Transaction} {tx : Transaction} (heq : b.transactions = pre ++ tx :: post) :
    tx.totalOutput?.isSome := by
  have hmem : tx ∈ b.transactions := by
    rw [heq]
    exact List.mem_append_right _ List.mem_cons_self
  exact Transaction.totalOutput?_of_check ((checkStructure_eq_ok_iff.1 h).2 tx hmem)

namespace Chain

theorem checkWork_eq_ok_iff {header : Header} :
    checkWork header = .ok () ↔ header.hasWork = .ok true := by
  unfold checkWork
  cases header.hasWork with
  | error cause => simp [bind, Except.bind]
  | ok answer =>
    cases answer with
    | true => exact ⟨fun _ => rfl, fun _ => rfl⟩
    | false => exact ⟨fun h => (by cases h), fun h => by cases h⟩

theorem checkMerkleRoot_eq_ok_iff {header : Header} {txs : List Identified} :
    checkMerkleRoot header txs = .ok () ↔
      Merkle.rootOf (txs.map Identified.id) = .ok header.merkleRoot := by
  unfold checkMerkleRoot
  cases Merkle.rootOf (txs.map Identified.id) with
  | error fault => simp [bind, Except.bind]
  | ok root =>
    by_cases hroot : root = header.merkleRoot
    · simp [hroot, bind, Except.bind, pure, Except.pure]
    · refine ⟨?_, ?_⟩
      · intro h
        simp [bind, Except.bind, hroot] at h
      · intro h
        cases h
        exact absurd rfl hroot

/-- A block passes with its contents if its transactions and its Merkle root pass. -/
theorem checkContents_eq_ok_iff {b : Block} :
    checkContents b = .ok () ↔ b.checkStructure = .ok () ∧
      Merkle.rootOf (b.transactions.map Transaction.id) = .ok b.header.merkleRoot := by
  have hids : (b.transactions.map Identified.ofTransaction).map Identified.id =
      b.transactions.map Transaction.id := List.map_map
  rw [checkContents, then_eq_ok_iff, mapError_eq_ok_iff, checkMerkleRoot_eq_ok_iff, hids]

/-- The place of a header above what a ledger has recorded: at the bottom without a predecessor,
else one above it. -/
def Ledger.Placed (l : Ledger) (header : Header) (height : Nat) : Prop :=
  (header.previous = .zero ∧ height = 0) ∨
    (header.previous ≠ .zero ∧ ∃ b below, l.store.get? header.previous = some (.block b) ∧
      l.heights.get? header.previous = some below ∧ height = below + 1)

theorem Ledger.heightOf_eq_ok_iff {l : Ledger} {header : Header} {height : Nat} :
    l.heightOf header = .ok height ↔ l.Placed header height := by
  unfold heightOf Placed Header.isGenesis
  by_cases hgenesis : header.previous = .zero
  · simp [hgenesis, eq_comm]
  · simp only [hgenesis, decide_false, Bool.false_eq_true, if_false, false_and, false_or, ne_eq]
    cases l.store.get? header.previous with
    | none => simp
    | some e =>
      cases e with
      | transaction tx => simp
      | block b =>
        cases l.heights.get? header.previous with
        | none => simp
        | some below => simp [eq_comm (a := height)]

/-- A coinbase does not claim a height too far above the tip, where the settings set a limit and the
block has a predecessor. -/
def Ledger.Claimable (l : Ledger) (settings : Settings) (b : Block) : Prop :=
  ∀ lead tip height claimed, settings.maxHeightLead = some lead → b.header.previous ≠ .zero →
    l.heights.tip = some (tip, height) →
    b.coinbase?.bind Transaction.claimedHeight? = some claimed → claimed ≤ height + lead

theorem checkClaimedHeight_eq_ok_iff {l : Ledger} {settings : Settings} {b : Block} :
    checkClaimedHeight settings l.heights b = .ok () ↔ l.Claimable settings b := by
  unfold checkClaimedHeight Ledger.Claimable Header.isGenesis
  cases settings.maxHeightLead with
  | none => simp
  | some lead =>
    cases l.heights.tip with
    | none => simp
    | some top =>
      obtain ⟨tip, height⟩ := top
      cases b.coinbase?.bind Transaction.claimedHeight? with
      | none => simp
      | some claimed =>
        simp only [Option.some.injEq, Prod.mk.injEq]
        refine ⟨?_, ?_⟩
        · rintro hpassed _ _ _ _ rfl hgenesis ⟨rfl, rfl⟩ rfl
          simpa [hgenesis] using hpassed
        · intro h
          rw [if_neg]
          simp only [Bool.and_eq_true, Bool.not_eq_true', decide_eq_false_iff_not,
            decide_eq_true_eq]
          intro hgiven
          obtain ⟨hgenesis, hfar⟩ := hgiven
          have hle := h lead tip height claimed rfl hgenesis ⟨rfl, rfl⟩ rfl
          omega

/-- A header passes if the height that its block claims and its work pass. -/
theorem checkHeader_eq_ok_iff {l : Ledger} {settings : Settings} {b : Block} :
    checkHeader settings l.heights b = .ok () ↔
      l.Claimable settings b ∧ b.header.hasWork = .ok true := by
  rw [checkHeader, then_eq_ok_iff, checkClaimedHeight_eq_ok_iff, checkWork_eq_ok_iff]

/-! ## Blocks -/

/-- Where an input that refers to an id may find its source: in a transaction before its own, or in
a stored one. -/
def Ledger.Offers (l : Ledger) (pre : List Transaction) (id : Hash256) (source : Transaction) :
    Prop :=
  (source ∈ pre ∧ source.id = id) ∨ l.store.get? id = some (.transaction source)

/-- Every input of the transaction that spends opens an output that is offered to it. -/
def Ledger.Spends (l : Ledger) (pre : List Transaction) (tx : Transaction) : Prop :=
  ∀ i input, tx.spending[i]? = some input → ∃ source output,
    l.Offers pre input.prevout.hash source ∧
      source.outputs[input.prevout.index.toNat]? = some output ∧ tx.Opens i input output

/-- The rules for a block that is to be accepted into a ledger at a height. -/
structure Ledger.Admits (l : Ledger) (settings : Settings) (b : Block) (height : Nat) : Prop where
  placed : l.Placed b.header height
  claimable : l.Claimable settings b
  work : b.header.hasWork = .ok true
  /-- The first transaction, and no other, is a coinbase. -/
  coinbase : ∃ first rest, b.transactions = first :: rest ∧ first.isCoinbase = true ∧
    ∀ tx ∈ rest, tx.isCoinbase = false
  checked : ∀ tx ∈ b.transactions, tx.check = .ok ()
  merkleRoot : Merkle.rootOf (b.transactions.map Transaction.id) = .ok b.header.merkleRoot
  spentOnce : (spentOutpoints b.transactions).Nodup
  spends : ∀ pre tx post, b.transactions = pre ++ tx :: post → l.Spends pre tx

theorem Ledger.offers_of_source? {l : Ledger} {pre : List Transaction} {id : Hash256}
    {source : Transaction} (h : l.source? pre id = some source) : l.Offers pre id source := by
  unfold source? at h
  rcases Option.or_eq_some_iff.1 h with hpre | ⟨-, hstored⟩
  · exact .inl ⟨List.mem_of_find?_eq_some hpre, by simpa using List.find?_some hpre⟩
  · exact .inr (Store.transaction?_eq_some_iff.1 hstored)

theorem Ledger.spends_of_paired {l : Ledger} {pre : List Transaction} {tx : Transaction}
    (h : Paired (l.source? pre) tx) : l.Spends pre tx := by
  intro i input hi
  obtain ⟨source, output, hsource, hrest⟩ := h i input hi
  exact ⟨source, output, offers_of_source? hsource, hrest⟩

/-- Where transactions with one id are the same, the source that is offered is the one that is
found. -/
theorem Ledger.source?_of_offers {l : Ledger} {pre : List Transaction} {id : Hash256}
    {source : Transaction} (h : l.Offers pre id source)
    (hunique : ∀ other, l.Offers pre id other → other = source) :
    l.source? pre id = some source := by
  have hsome : (l.source? pre id).isSome := by
    unfold source?
    rw [Option.isSome_or, Bool.or_eq_true]
    rcases h with ⟨hpre, hid⟩ | hstored
    · exact .inl (List.find?_isSome.2 ⟨source, hpre, decide_eq_true hid⟩)
    · rw [Store.transaction?_eq_some_iff.2 hstored]
      exact .inr rfl
  obtain ⟨other, hother⟩ := Option.isSome_iff_exists.1 hsome
  rw [hother, hunique other (offers_of_source? hother)]

theorem Ledger.paired_of_spends {l : Ledger} {pre : List Transaction} {tx : Transaction}
    (h : l.Spends pre tx)
    (hunique : ∀ id a b, l.Offers pre id a → l.Offers pre id b → a = b) :
    Paired (l.source? pre) tx := by
  intro i input hi
  obtain ⟨source, output, hsource, hrest⟩ := h i input hi
  exact ⟨source, output, source?_of_offers hsource fun other hother => hunique _ _ _ hother hsource,
    hrest⟩

theorem Ledger.judgeAt_eq_ok_iff {l : Ledger} {settings : Settings} {b : Block} {height : Nat}
    {candidate : Candidate} :
    l.judgeAt settings b height = .ok candidate ↔ candidate = .block b height ∧
      l.Claimable settings b ∧ b.header.hasWork = .ok true ∧ b.checkStructure = .ok () ∧
      Merkle.rootOf (b.transactions.map Transaction.id) = .ok b.header.merkleRoot ∧
      (spentOutpoints b.transactions).Nodup ∧
      ∀ pre tx post, b.transactions = pre ++ tx :: post →
        (tx.isCoinbase = true → tx.totalOutput?.isSome) ∧ Paired (l.source? pre) tx := by
  rw [← resolve_verify_iff, ← and_assoc (a := l.Claimable settings b), ← checkHeader_eq_ok_iff,
    ← and_assoc (a := b.checkStructure = .ok ()), ← checkContents_eq_ok_iff]
  unfold judgeAt
  simp only [bind_eq_ok_iff, mapError_eq_ok_iff]
  refine ⟨?_, ?_⟩
  · intro hgiven
    obtain ⟨_, hheader, _, hcontents, spends, hspends, _, hverified, heq⟩ := hgiven
    cases heq
    exact ⟨rfl, hheader, hcontents, spends, hspends, hverified⟩
  · intro hgiven
    obtain ⟨rfl, hheader, hcontents, spends, hspends, hverified⟩ := hgiven
    exact ⟨_, hheader, _, hcontents, spends, hspends, _, hverified, rfl⟩

theorem Ledger.judge_block_eq_ok_iff {l : Ledger} {settings : Settings} {b : Block}
    {candidate : Candidate} :
    l.judge settings (.block b) = .ok candidate ↔
      ∃ height, l.Placed b.header height ∧ l.judgeAt settings b height = .ok candidate := by
  simp only [judge, bind_eq_ok_iff, heightOf_eq_ok_iff]

/-- A judgement in favour of a block finds that it keeps the rules. -/
theorem Ledger.admits_of_judge {l : Ledger} {settings : Settings} {b : Block} {height : Nat}
    (hplaced : l.Placed b.header height) {candidate : Candidate}
    (h : l.judgeAt settings b height = .ok candidate) : l.Admits settings b height := by
  obtain ⟨-, hclaimed, hwork, hstructure, hroot, hnodup, hpaired⟩ := judgeAt_eq_ok_iff.1 h
  obtain ⟨hcoinbase, hchecked⟩ := Block.checkStructure_eq_ok_iff.1 hstructure
  exact ⟨hplaced, hclaimed, hwork, hcoinbase, hchecked, hroot, hnodup,
    fun pre tx post heq => spends_of_paired (hpaired pre tx post heq).2⟩

/-- A block that keeps the rules is judged in favour of, where ids are unique. -/
theorem Ledger.judge_of_admits {l : Ledger} {settings : Settings} {b : Block} {height : Nat}
    (h : l.Admits settings b height)
    (hunique : ∀ id a a', l.Offers b.transactions id a → l.Offers b.transactions id a' → a = a') :
    l.judge settings (.block b) = .ok (.block b height) := by
  have hstructure : b.checkStructure = .ok () :=
    Block.checkStructure_eq_ok_iff.2 ⟨h.coinbase, h.checked⟩
  refine judge_block_eq_ok_iff.2 ⟨height, h.placed, judgeAt_eq_ok_iff.2 ⟨rfl, h.claimable, h.work,
    hstructure, h.merkleRoot, h.spentOnce, ?_⟩⟩
  intro pre tx post heq
  have hpre : ∀ {id a}, l.Offers pre id a → l.Offers b.transactions id a := by
    rintro id a (⟨ha, hid⟩ | hstored)
    · exact .inl ⟨by rw [heq]; exact List.mem_append_left _ ha, hid⟩
    · exact .inr hstored
  have hpaired : Paired (l.source? pre) tx :=
    paired_of_spends (h.spends pre tx post heq) fun id a a' ha ha' =>
      hunique id a a' (hpre ha) (hpre ha')
  exact ⟨fun _ => Block.totalOutput?_of_checkStructure hstructure heq, hpaired⟩

/-! ## Payloads -/

theorem readBlock_eq_ok_iff {payload : Bytes} {b : Block} :
    readBlock payload = .ok b ↔ b.Fits ∧ payload = b.encode := by
  rw [← Block.decode_eq_ok_iff]
  unfold readBlock
  cases Block.decode payload <;> simp

theorem leadingHeader_encode (b : Block) : leadingHeader b.encode = .ok b.header := by
  have hread := (Header.read_exact (.start b.encode) b.header
    ⟨CompactSize.encodeList Transaction.encode b.transactions, b.header.encode.length⟩).2
      ⟨trivial, b.encode_eq, (Nat.zero_add _).symm⟩
  unfold leadingHeader
  rw [hread]

/-- A payload is judged as the block that it is the written form of. -/
theorem Ledger.judge_payload_eq_ok_iff {l : Ledger} {settings : Settings} {payload : Bytes}
    {candidate : Candidate} :
    l.judge settings (.payload payload) = .ok candidate ↔ payload.length ≤ settings.maxBlockSize ∧
      ∃ b, b.Fits ∧ payload = b.encode ∧ l.judge settings (.block b) = .ok candidate := by
  by_cases hsize : settings.maxBlockSize < payload.length
  · simp [judge, hsize]
  · simp only [judge, hsize, if_false, Nat.le_of_not_lt hsize, true_and, bind_eq_ok_iff,
      readBlock_eq_ok_iff]
    refine ⟨?_, ?_⟩
    · intro hgiven
      obtain ⟨header, hheader, b, ⟨hfits, rfl⟩, hjudged⟩ := hgiven
      rw [leadingHeader_encode] at hheader
      cases hheader
      exact ⟨b, hfits, rfl, hjudged⟩
    · intro hgiven
      obtain ⟨b, hfits, rfl, hjudged⟩ := hgiven
      exact ⟨b.header, leadingHeader_encode b, b, ⟨hfits, rfl⟩, hjudged⟩

/-- A loose transaction is judged as the only one of its list. -/
theorem Ledger.judge_transaction_eq_ok_iff {l : Ledger} {settings : Settings} {payload : Bytes}
    {candidate : Candidate} :
    l.judge settings (.transaction payload) = .ok candidate ↔ ∃ tx,
      Transaction.decode payload = .ok tx ∧ candidate = .transaction tx ∧ tx.check = .ok () ∧
        tx.isCoinbase = false ∧ (spentOutpoints [tx]).Nodup ∧ Paired (l.source? []) tx := by
  have hresolved : ∀ tx, tx.isCoinbase = false →
      ((∃ spends, l.resolve [.ofTransaction tx] = .ok spends ∧ verifyAll spends = .ok ()) ↔
        (spentOutpoints [tx]).Nodup ∧ Paired (l.source? []) tx) := by
    intro tx hloose
    refine (l.resolve_verify_iff [tx]).trans (and_congr_right fun _ => ?_)
    rw [forall_split_cons_iff]
    simp [hloose]
  unfold judge
  dsimp only
  cases Transaction.decode payload with
  | error cause => simp
  | ok tx =>
    dsimp only
    simp only [Except.ok.injEq, exists_eq_left']
    cases hcoinbase : tx.isCoinbase with
    | true => simp [bind_eq_ok_iff]
    | false =>
      simp only [Bool.false_eq_true, if_false, bind_eq_ok_iff, mapError_eq_ok_iff,
        ← hresolved tx hcoinbase, true_and]
      refine ⟨?_, ?_⟩
      · intro hgiven
        obtain ⟨_, hchecked, spends, hspends, _, hverified, heq⟩ := hgiven
        cases heq
        exact ⟨rfl, hchecked, spends, hspends, hverified⟩
      · intro hgiven
        obtain ⟨rfl, hchecked, spends, hspends, hverified⟩ := hgiven
        exact ⟨_, hchecked, spends, hspends, _, hverified, rfl⟩

/-- What a judgement in favour of a request finds of its candidate. -/
theorem Ledger.judge_cases {l : Ledger} {settings : Settings} {r : Request} {candidate : Candidate}
    (h : l.judge settings r = .ok candidate) :
    candidate.entries = r.parts ∧ match candidate with
      | .block b height => l.Admits settings b height
      | .transaction tx => l.Spends [] tx := by
  have hblock : ∀ b, l.judge settings (.block b) = .ok candidate →
      ∃ height, candidate = .block b height ∧ l.Admits settings b height := by
    intro b hjudged
    obtain ⟨height, hplaced, hjudgedAt⟩ := judge_block_eq_ok_iff.1 hjudged
    exact ⟨height, (judgeAt_eq_ok_iff.1 hjudgedAt).1, admits_of_judge hplaced hjudgedAt⟩
  cases r with
  | payload bytes =>
    obtain ⟨-, b, hfits, heq, hjudged⟩ := judge_payload_eq_ok_iff.1 h
    obtain ⟨height, rfl, hadmits⟩ := hblock b hjudged
    refine ⟨?_, hadmits⟩
    rw [Request.parts, Block.decode_eq_ok_iff.2 ⟨hfits, heq⟩]
    rfl
  | block b =>
    obtain ⟨height, rfl, hadmits⟩ := hblock b h
    exact ⟨rfl, hadmits⟩
  | transaction bytes =>
    obtain ⟨tx, hdecode, rfl, -, -, -, hpaired⟩ := judge_transaction_eq_ok_iff.1 h
    refine ⟨?_, spends_of_paired hpaired⟩
    rw [Request.parts, hdecode]
    rfl

end Chain

end ChainRules
