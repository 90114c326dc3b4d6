import MidenBatch.Batch.Reordering

/-! The step of `ProposedBatch::new` that raises each error, and what the three duplicate
errors name: the first repetition in batch order and the transactions of both occurrences. -/
namespace MidenBatch

/-- The step of `ProposedBatch::new` that raises an error, numbered in the order the steps run. -/
def ProposedBatchError.phase : ProposedBatchError → Nat
  | .emptyTransactionBatch | .duplicateTransaction _ => 0
  | .inconsistentChainLength .. | .inconsistentChainRoot .. => 1
  | .missingTransactionBlockReference .. => 2
  | .accountUpdateError .. => 3
  | .tooManyAccountUpdates _ => 4
  | .duplicateInputNote .. => 5
  | .duplicateOutputNote .. => 6
  | .noteHashesMismatch .. | .unauthenticatedInputNoteBlockNotInChainMmr ..
  | .unauthenticatedNoteAuthenticationFailed .. => 7
  | .tooManyInputNotes _ => 8
  | .tooManyOutputNotes _ => 9

namespace ProposedBatch
open List

variable {P : Primitives} {L : BatchLimits} {txs : List ProvenTransaction} {bh : BlockHeader}
  {mmr : ChainMmr} {proofs : BTreeMap NoteId NoteInclusionProof} {e : ProposedBatchError}

theorem checkTransactions_error_phase (h : checkTransactions txs = .error e) : e.phase = 0 := by
  unfold checkTransactions at h
  split at h
  · cases h; rfl
  · obtain h | ⟨_, -, h⟩ := bind_eq_error.mp h
    · obtain ⟨-, -, -, -, -, -, -, rfl⟩ := BTreeMap.new_collectUnique_error h; rfl
    · cases h

theorem checkChainMmr_error_phase (h : checkChainMmr P bh mmr = .error e) : e.phase = 1 := by
  rcases checkChainMmr_eq_error.mp h with ⟨-, rfl⟩ | ⟨-, -, rfl⟩ <;> rfl

theorem checkBlockReferences_error_phase {refs : List Digest}
    (h : checkBlockReferences refs txs = .error e) : e.phase = 2 := by
  obtain ⟨-, -, -, -, -, -, rfl⟩ := checkBlockReferences_eq_error.mp h
  rfl

theorem aggregateAccountUpdates_error_phase (h : aggregateAccountUpdates P txs = .error e) :
    e.phase = 3 := by
  obtain ⟨a, s, rfl⟩ := foldlM_aggregateStep_error h; rfl

theorem checkAccountUpdatesLen_error_phase {m : BTreeMap AccountId BatchAccountUpdate}
    (h : checkAccountUpdatesLen L m = .error e) : e.phase = 4 := by
  unfold checkAccountUpdatesLen at h
  split_ifs at h; cases h; rfl

theorem checkInputNotes_error_phase (h : checkInputNotes txs = .error e) : e.phase = 5 := by
  obtain ⟨-, -, -, -, -, -, -, rfl⟩ := BTreeMap.new_collectUnique_error h; rfl

theorem trackerNew_error_phase (h : BatchOutputNoteTracker.new txs = .error e) : e.phase = 6 := by
  obtain h | ⟨_, -, h⟩ := bind_eq_error.mp h
  · obtain ⟨-, -, -, -, -, -, -, rfl⟩ := BTreeMap.new_collectUnique_error h; rfl
  · cases h

theorem removeNote_error_phase {T : BatchOutputNoteTracker} {header : NoteHeader}
    (h : T.removeNote P header = .error e) : e.phase = 7 := by
  unfold BatchOutputNoteTracker.removeNote at h
  split at h
  · split_ifs at h; cases h; rfl
  · cases h

theorem reconcileInputNote_error_phase {T : BatchOutputNoteTracker} {c : InputNoteCommitment}
    (h : reconcileInputNote P mmr proofs T c = .error e) : e.phase = 7 := by
  unfold reconcileInputNote at h
  split at h
  · cases h
  obtain h | ⟨⟨removed, T'⟩, -, h⟩ := bind_eq_error.mp h
  · exact removeNote_error_phase h
  simp only at h
  split_ifs at h
  · cases h
  split at h
  · cases h
  split at h
  · cases h; rfl
  obtain h | ⟨_, -, h⟩ := bind_eq_error.mp h
  · unfold authenticateUnauthenticatedNote at h
    split at h
    · cases h
    · cases h; rfl
  · cases h

theorem reconcileInputNotes_error_phase {T : BatchOutputNoteTracker}
    {notes : List InputNoteCommitment} (h : reconcileInputNotes P mmr proofs T notes = .error e) :
    e.phase = 7 := by
  induction notes generalizing T with
  | nil => cases h
  | cons c notes ih =>
    obtain h | ⟨⟨kept, T'⟩, -, h⟩ := bind_eq_error.mp h
    · exact reconcileInputNote_error_phase h
    obtain h | ⟨_, -, h⟩ := bind_eq_error.mp h
    · exact ih h
    · cases h

theorem checkInputNotesLen_error_phase {l : List InputNoteCommitment}
    (h : checkInputNotesLen L l = .error e) : e.phase = 8 := by
  unfold checkInputNotesLen at h
  split_ifs at h; cases h; rfl

theorem buildOutputNotesTree_error_phase {l : List OutputNote}
    (h : buildOutputNotesTree L l = .error e) : e.phase = 9 := by
  unfold buildOutputNotesTree at h
  split at h
  · cases h; rfl
  · cases h

/-- An error of `new` is raised by the step its kind belongs to, given the values the steps
before it computed. -/
theorem new_error_cases (h : new P L txs bh mmr proofs = .error e) :
    e.phase = 0 ∧ checkTransactions txs = .error e ∨
    e.phase = 1 ∧ checkChainMmr P bh mmr = .error e ∨
    e.phase = 2 ∧ checkBlockReferences (blockReferences bh mmr) txs = .error e ∨
    e.phase = 3 ∧ aggregateAccountUpdates P txs = .error e ∨
    e.phase = 4 ∧ (∃ acc, aggregateAccountUpdates P txs = .ok acc ∧
      checkAccountUpdatesLen L acc.1 = .error e) ∨
    e.phase = 5 ∧ checkInputNotes txs = .error e ∨
    e.phase = 6 ∧ BatchOutputNoteTracker.new txs = .error e ∨
    e.phase = 7 ∧ (∃ T, BatchOutputNoteTracker.new txs = .ok T ∧
      reconcileInputNotes P mmr proofs T (allInputNotes txs) = .error e) ∨
    e.phase = 8 ∧ (∃ T r, BatchOutputNoteTracker.new txs = .ok T ∧
      reconcileInputNotes P mmr proofs T (allInputNotes txs) = .ok r ∧
      checkInputNotesLen L r.1 = .error e) ∨
    e.phase = 9 ∧ (∃ T r, BatchOutputNoteTracker.new txs = .ok T ∧
      reconcileInputNotes P mmr proofs T (allInputNotes txs) = .ok r ∧
      buildOutputNotesTree L r.2.intoNotes = .error e) := by
  obtain h | ⟨⟨⟩, -, h⟩ := bind_eq_error.mp h
  · exact .inl ⟨checkTransactions_error_phase h, h⟩
  obtain h | ⟨⟨⟩, -, h⟩ := bind_eq_error.mp h
  · right
    exact .inl ⟨checkChainMmr_error_phase h, h⟩
  obtain h | ⟨⟨⟩, -, h⟩ := bind_eq_error.mp h
  · iterate 2 right
    exact .inl ⟨checkBlockReferences_error_phase h, h⟩
  obtain h | ⟨acc, hacc, h⟩ := bind_eq_error.mp h
  · iterate 3 right
    exact .inl ⟨aggregateAccountUpdates_error_phase h, h⟩
  obtain ⟨accountUpdates, expiration⟩ := acc
  obtain h | ⟨⟨⟩, -, h⟩ := bind_eq_error.mp h
  · iterate 4 right
    exact .inl ⟨checkAccountUpdatesLen_error_phase h, _, hacc, h⟩
  obtain h | ⟨_, -, h⟩ := bind_eq_error.mp h
  · iterate 5 right
    exact .inl ⟨checkInputNotes_error_phase h, h⟩
  obtain h | ⟨T, hT, h⟩ := bind_eq_error.mp h
  · iterate 6 right
    exact .inl ⟨trackerNew_error_phase h, h⟩
  obtain h | ⟨r, hr, h⟩ := bind_eq_error.mp h
  · iterate 7 right
    exact .inl ⟨reconcileInputNotes_error_phase h, T, hT, h⟩
  obtain ⟨inputNotes, T'⟩ := r
  obtain h | ⟨⟨⟩, -, h⟩ := bind_eq_error.mp h
  · iterate 8 right
    exact .inl ⟨checkInputNotesLen_error_phase h, T, _, hT, hr, h⟩
  obtain h | ⟨_, -, h⟩ := bind_eq_error.mp h
  · iterate 9 right
    exact ⟨buildOutputNotesTree_error_phase h, T, _, hT, hr, h⟩
  · cases h

theorem checkTransactions_duplicate {t : TransactionId}
    (h : checkTransactions txs = .error (.duplicateTransaction t)) :
    ∃ pre post, txs.map (·.id) = pre ++ t :: post ∧ pre.Nodup ∧ t ∈ pre := by
  unfold checkTransactions at h
  split at h
  · cases h
  obtain h | ⟨_, -, h⟩ := bind_eq_error.mp h
  · obtain ⟨pre, ⟨k, _⟩, post, _, hl, hnd, hk, hx⟩ := BTreeMap.new_collectUnique_error h
    obtain rfl : t = k := by simpa using hx
    refine ⟨pre.keys, post.keys, ?_, hnd, dlookup_isSome.mp (by simp [hk])⟩
    simpa [keys] using congrArg keys hl
  · cases h

theorem checkInputNotes_duplicate {n t₁ t₂ : Nat}
    (h : checkInputNotes txs = .error (.duplicateInputNote n t₁ t₂)) :
    ∃ pre post, inputNoteEntries txs = pre ++ ⟨n, t₂⟩ :: post ∧ pre.NodupKeys ∧
      pre.dlookup n = some t₁ := by
  obtain ⟨pre, ⟨k, v⟩, post, first, hl, hnd, hk, hx⟩ := BTreeMap.new_collectUnique_error h
  obtain ⟨rfl, rfl, rfl⟩ : n = k ∧ t₁ = first ∧ t₂ = v := by simpa using hx
  exact ⟨pre, post, hl, hnd, hk⟩

theorem trackerNew_duplicate {i t₁ t₂ : Nat}
    (h : BatchOutputNoteTracker.new txs = .error (.duplicateOutputNote i t₁ t₂)) :
    ∃ pre post o o₀, BatchOutputNoteTracker.outputNoteEntries txs = pre ++ ⟨i, (t₂, o)⟩ :: post ∧
      pre.NodupKeys ∧ pre.dlookup i = some (t₁, o₀) := by
  obtain h | ⟨_, -, h⟩ := bind_eq_error.mp h
  · obtain ⟨pre, ⟨k, t, o⟩, post, ⟨t', o'⟩, hl, hnd, hk, hx⟩ := BTreeMap.new_collectUnique_error h
    obtain ⟨rfl, rfl, rfl⟩ : i = k ∧ t₁ = t' ∧ t₂ = t := by simpa using hx
    exact ⟨pre, post, o, o', hl, hnd, hk⟩
  · cases h

/-- The duplicate errors of `new` name the first repetition in batch order: of a transaction
id; of a nullifier over the (nullifier, transaction) pairs of all input notes, with the
transaction of its first occurrence and of the repeat; and likewise of an output note id. -/
theorem duplicate_errors_name_first_repeat :
    (∀ t, new P L txs bh mmr proofs = .error (.duplicateTransaction t) →
      ∃ pre post, txs.map (·.id) = pre ++ t :: post ∧ pre.Nodup ∧ t ∈ pre) ∧
    (∀ n t₁ t₂, new P L txs bh mmr proofs = .error (.duplicateInputNote n t₁ t₂) →
      ∃ pre post, inputNoteEntries txs = pre ++ ⟨n, t₂⟩ :: post ∧ pre.NodupKeys ∧
        pre.dlookup n = some t₁) ∧
    (∀ i t₁ t₂, new P L txs bh mmr proofs = .error (.duplicateOutputNote i t₁ t₂) →
      ∃ pre post o o₀,
        BatchOutputNoteTracker.outputNoteEntries txs = pre ++ ⟨i, (t₂, o)⟩ :: post ∧
        pre.NodupKeys ∧ pre.dlookup i = some (t₁, o₀)) := by
  refine ⟨fun t h => ?_, fun n t₁ t₂ h => ?_, fun i t₁ t₂ h => ?_⟩
  · exact checkTransactions_duplicate (by simpa [ProposedBatchError.phase] using new_error_cases h)
  · exact checkInputNotes_duplicate (by simpa [ProposedBatchError.phase] using new_error_cases h)
  · exact trackerNew_duplicate (by simpa [ProposedBatchError.phase] using new_error_cases h)

/-- Two transactions on different accounts, both consuming the note of nullifier 9. -/
def doubleSpendTransactions : List ProvenTransaction :=
  [⟨50, 12, 222, 30, [⟨9, none⟩], [], ⟨0, 1, 0⟩⟩, ⟨51, 13, 222, 30, [⟨9, none⟩], [], ⟨0, 1, 0⟩⟩]

/-- A transaction on a third account creating note 4 again. -/
def recreatingTransaction : ProvenTransaction := ⟨6, 13, 222, 30, [], [⟨4, 7⟩], ⟨0, 1, 0⟩⟩

theorem sample_duplicate_errors :
    (new samplePrimitives sampleLimits (sampleTransactions ++ sampleTransactions)
        sampleBlockHeader sampleChainMmr .new = .error (.duplicateTransaction 1) ∧
      ∃ pre post, (sampleTransactions ++ sampleTransactions).map (·.id) = pre ++ 1 :: post ∧
        pre.Nodup ∧ 1 ∈ pre) ∧
    (new samplePrimitives sampleLimits doubleSpendTransactions sampleBlockHeader sampleChainMmr
        .new = .error (.duplicateInputNote 9 50 51) ∧
      ∃ pre post, inputNoteEntries doubleSpendTransactions = pre ++ ⟨9, 51⟩ :: post ∧
        pre.NodupKeys ∧ pre.dlookup 9 = some 50) ∧
    (new samplePrimitives sampleLimits (sampleTransactions ++ [recreatingTransaction])
        sampleBlockHeader sampleChainMmr .new = .error (.duplicateOutputNote 4 2 6) ∧
      ∃ pre post o o₀, BatchOutputNoteTracker.outputNoteEntries
          (sampleTransactions ++ [recreatingTransaction]) = pre ++ ⟨4, (6, o)⟩ :: post ∧
        pre.NodupKeys ∧ pre.dlookup 4 = some (2, o₀)) := by
  have h₁ : new samplePrimitives sampleLimits (sampleTransactions ++ sampleTransactions)
      sampleBlockHeader sampleChainMmr .new = .error (.duplicateTransaction 1) := rfl
  have h₂ : new samplePrimitives sampleLimits doubleSpendTransactions sampleBlockHeader
      sampleChainMmr .new = .error (.duplicateInputNote 9 50 51) := rfl
  have h₃ : new samplePrimitives sampleLimits (sampleTransactions ++ [recreatingTransaction])
      sampleBlockHeader sampleChainMmr .new = .error (.duplicateOutputNote 4 2 6) := rfl
  exact ⟨⟨h₁, duplicate_errors_name_first_repeat.1 1 h₁⟩,
    ⟨h₂, duplicate_errors_name_first_repeat.2.1 9 50 51 h₂⟩,
    ⟨h₃, duplicate_errors_name_first_repeat.2.2 4 2 6 h₃⟩⟩

end ProposedBatch
end MidenBatch
