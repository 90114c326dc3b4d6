import MidenBatch.Batch.Accounts
import MidenBatch.Batch.OutputNotes

/-! One spec lemma per phase of `ProposedBatch::new`, and the run of `new` as the conjunction
of its phases. Later proofs cite these and never unfold `new`. -/
namespace MidenBatch.ProposedBatch
open List

variable {P : Primitives} {L : BatchLimits} {txs : List ProvenTransaction} {bh : BlockHeader}
  {mmr : ChainMmr} {proofs : BTreeMap NoteId NoteInclusionProof} {e : ProposedBatchError}

theorem keys_transactionEntries (txs : List ProvenTransaction) :
    (txs.map fun tx => (⟨tx.id, ()⟩ : Σ _ : TransactionId, Unit)).keys = txs.map (·.id) := by
  simp [keys, Function.comp_def]

theorem checkTransactions_eq_ok :
    checkTransactions txs = .ok () ↔ txs ≠ [] ∧ (txs.map (·.id)).Nodup := by
  have := BTreeMap.collectUnique_ok_iff (fun id _ _ => ProposedBatchError.duplicateTransaction id)
    BTreeMap.new (txs.map fun tx => (⟨tx.id, ()⟩ : Σ _ : TransactionId, Unit))
  simp only [BTreeMap.get_new, implies_true, and_true, NodupKeys, keys_transactionEntries] at this
  unfold checkTransactions
  cases txs with
  | nil => simp
  | cons t ts =>
    simp only [isEmpty_cons, Bool.false_eq_true, if_false, ne_eq, reduceCtorEq, not_false_eq_true,
      true_and, ← this, bind_eq_ok, except_pure_eq, and_true]

theorem checkTransactions_eq_empty :
    checkTransactions txs = .error .emptyTransactionBatch ↔ txs = [] := by
  refine ⟨fun h => ?_, fun h => by subst h; rfl⟩
  unfold checkTransactions at h
  split at h
  · next hne => simpa using hne
  · obtain h | ⟨_, -, h⟩ := bind_eq_error.mp h
    · obtain ⟨_, _, _, _, _, _, _, hx⟩ := BTreeMap.new_collectUnique_error h
      cases hx
    · cases h

theorem checkChainMmr_eq_ok : checkChainMmr P bh mmr = .ok () ↔
    mmr.chainLength = bh.blockNum ∧ P.hashPeaks mmr.peaks = bh.chainRoot := by
  unfold checkChainMmr
  split_ifs <;> simp_all

theorem checkChainMmr_eq_error : checkChainMmr P bh mmr = .error e ↔
    (mmr.chainLength ≠ bh.blockNum ∧ e = .inconsistentChainLength bh.blockNum mmr.chainLength) ∨
    (mmr.chainLength = bh.blockNum ∧ P.hashPeaks mmr.peaks ≠ bh.chainRoot ∧
      e = .inconsistentChainRoot bh.chainRoot (P.hashPeaks mmr.peaks)) := by
  unfold checkChainMmr
  split_ifs with h₁ h₂ <;> simp_all [eq_comm]

theorem mem_blockReferences {d : Digest} :
    d ∈ blockReferences bh mmr ↔ d = bh.hash ∨ ∃ h ∈ mmr.blockHeaders, h.hash = d := by
  simp [blockReferences, or_comm]

theorem checkBlockReferences_eq_ok {refs : List Digest} :
    checkBlockReferences refs txs = .ok () ↔ ∀ tx ∈ txs, tx.blockRef ∈ refs := by
  induction txs with
  | nil => simp [checkBlockReferences]
  | cons t ts ih => by_cases h : t.blockRef ∈ refs <;> simp [checkBlockReferences, h, ih]

/-- The block-reference loop fails at the first transaction whose reference is unknown. -/
theorem checkBlockReferences_eq_error {refs : List Digest} :
    checkBlockReferences refs txs = .error e ↔ ∃ pre tx post, txs = pre ++ tx :: post ∧
      (∀ tx' ∈ pre, tx'.blockRef ∈ refs) ∧ tx.blockRef ∉ refs ∧
      e = .missingTransactionBlockReference tx.blockRef tx.id := by
  induction txs with
  | nil => simp [checkBlockReferences]
  | cons t ts ih =>
    by_cases ht : t.blockRef ∈ refs
    · rw [checkBlockReferences, if_pos ht, ih]
      constructor
      · rintro ⟨pre, tx, post, rfl, hpre, hn, rfl⟩
        exact ⟨t :: pre, tx, post, rfl, forall_mem_cons.mpr ⟨ht, hpre⟩, hn, rfl⟩
      · rintro ⟨_ | ⟨t', pre⟩, tx, post, hl, hpre, hn, rfl⟩
        · cases hl; exact absurd ht hn
        · cases hl
          exact ⟨pre, tx, post, rfl, fun x hx => hpre x (mem_cons_of_mem _ hx), hn, rfl⟩
    · rw [checkBlockReferences, if_neg ht]
      constructor
      · rintro ⟨⟩
        exact ⟨[], t, ts, rfl, by simp, ht, rfl⟩
      · rintro ⟨_ | ⟨t', pre⟩, tx, post, hl, hpre, hn, rfl⟩
        · cases hl; rfl
        · cases hl; exact absurd (hpre t (mem_cons_self _ _)) ht

theorem checkAccountUpdatesLen_eq_ok {m : BTreeMap AccountId BatchAccountUpdate} :
    checkAccountUpdatesLen L m = .ok () ↔ m.len ≤ L.maxAccountsPerBatch := by
  unfold checkAccountUpdatesLen; split_ifs <;> simp_all

theorem checkInputNotesLen_eq_ok {notes : List InputNoteCommitment} :
    checkInputNotesLen L notes = .ok () ↔ notes.length ≤ L.maxInputNotesPerBatch := by
  unfold checkInputNotesLen; split_ifs <;> simp_all

theorem buildOutputNotesTree_eq_ok {notes : List OutputNote} {tree : BatchNoteTree} :
    buildOutputNotesTree L notes = .ok tree ↔ notes.length ≤ L.maxOutputNotesPerBatch ∧
      tree.depth = L.batchNoteTreeDepth ∧ tree.leaves = notes.map fun n => (n.id, n.metadata) := by
  unfold buildOutputNotesTree
  split_ifs with h
  · simp [Nat.not_le.mpr h]
  · obtain ⟨d, l, hl⟩ := tree
    simp [BatchNoteTree.withContiguousLeaves, Nat.le_of_not_lt h, eq_comm]

theorem keys_inputNoteEntries (txs : List ProvenTransaction) :
    (inputNoteEntries txs).keys = (allInputNotes txs).map (·.nullifier) := by
  simp [inputNoteEntries, allInputNotes, keys, map_flatMap, Function.comp_def]

theorem checkInputNotes_ok_iff :
    (∃ m, checkInputNotes txs = .ok m) ↔ ((allInputNotes txs).map (·.nullifier)).Nodup := by
  have := BTreeMap.collectUnique_ok_iff
    (fun nullifier first second => ProposedBatchError.duplicateInputNote nullifier first second)
    BTreeMap.new (inputNoteEntries txs)
  simpa [NodupKeys, keys_inputNoteEntries] using this

/-- A run of `new` is a run of each phase in turn; the batch is assembled from their results. -/
theorem new_eq_ok {b : ProposedBatch} : new P L txs bh mmr proofs = .ok b ↔
    ∃ accountUpdates expiration nullifiers T inputNotes T' tree,
      checkTransactions txs = .ok () ∧ checkChainMmr P bh mmr = .ok () ∧
      checkBlockReferences (blockReferences bh mmr) txs = .ok () ∧
      aggregateAccountUpdates P txs = .ok (accountUpdates, expiration) ∧
      checkAccountUpdatesLen L accountUpdates = .ok () ∧ checkInputNotes txs = .ok nullifiers ∧
      BatchOutputNoteTracker.new txs = .ok T ∧
      reconcileInputNotes P mmr proofs T (allInputNotes txs) = .ok (inputNotes, T') ∧
      checkInputNotesLen L inputNotes = .ok () ∧ buildOutputNotesTree L T'.intoNotes = .ok tree ∧
      b = { transactions := txs, blockHeader := bh, chainMmr := mmr,
            unauthenticatedNoteProofs := proofs, id := P.batchIdFromTransactions txs,
            accountUpdates, batchExpirationBlockNum := expiration, inputNotes,
            outputNotesTree := tree, outputNotes := T'.intoNotes } := by
  constructor
  · intro h
    obtain ⟨⟨⟩, h₁, h⟩ := bind_eq_ok.mp h
    obtain ⟨⟨⟩, h₂, h⟩ := bind_eq_ok.mp h
    obtain ⟨⟨⟩, h₃, h⟩ := bind_eq_ok.mp h
    obtain ⟨⟨accountUpdates, expiration⟩, h₄, h⟩ := bind_eq_ok.mp h
    obtain ⟨⟨⟩, h₅, h⟩ := bind_eq_ok.mp h
    obtain ⟨nullifiers, h₆, h⟩ := bind_eq_ok.mp h
    obtain ⟨T, h₇, h⟩ := bind_eq_ok.mp h
    obtain ⟨⟨inputNotes, T'⟩, h₈, h⟩ := bind_eq_ok.mp h
    obtain ⟨⟨⟩, h₉, h⟩ := bind_eq_ok.mp h
    obtain ⟨tree, h₁₀, h⟩ := bind_eq_ok.mp h
    exact ⟨_, _, _, _, _, _, _, h₁, h₂, h₃, h₄, h₅, h₆, h₇, h₈, h₉, h₁₀, (Except.ok.inj h).symm⟩
  · rintro ⟨_, _, _, _, _, _, _, h₁, h₂, h₃, h₄, h₅, h₆, h₇, h₈, h₉, h₁₀, rfl⟩
    rw [allInputNotes] at h₈
    simp only [new, h₁, h₂, h₃, h₄, h₅, h₆, h₇, h₈, h₉, h₁₀, ok_bind]
    rfl

end MidenBatch.ProposedBatch
