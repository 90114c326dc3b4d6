import MidenBatch.Batch.Acceptance

/-! What a successful `ProposedBatch::new` builds: per-account chained updates, the earliest
expiration, and the note sets after removing the notes produced and consumed inside the batch. -/
namespace MidenBatch.ProposedBatch
open List BatchOutputNoteTracker

variable {P : Primitives} {L : BatchLimits} {txs : List ProvenTransaction} {bh : BlockHeader}
  {mmr : ChainMmr} {proofs : BTreeMap NoteId NoteInclusionProof} {b : ProposedBatch}

theorem sample_new_ok : ∃ b, new samplePrimitives sampleLimits sampleTransactions
    sampleBlockHeader sampleChainMmr .new = .ok b := ⟨_, rfl⟩

/-- A successful run aggregates all transactions of the batch, which is not empty. -/
theorem new_ok_aggregates (h : new P L txs bh mmr proofs = .ok b) :
    txs ≠ [] ∧ Aggregates P txs (b.accountUpdates, b.batchExpirationBlockNum) := by
  obtain ⟨accs, exp, -, -, -, -, -, h₁, -, -, h₄, -, -, -, -, -, -, rfl⟩ := new_eq_ok.mp h
  exact ⟨(checkTransactions_eq_ok.mp h₁).1, aggregateAccountUpdates_aggregates h₄⟩

/-- A successful run keeps `batchInputNote` of every input note, and drains the output notes
whose ids no input header carries, in increasing id order. -/
theorem new_ok_notes (ha : HeaderNullifiersAgree txs) (h : new P L txs bh mmr proofs = .ok b) :
    b.inputNotes = expectedInputNotes txs proofs ∧ (b.outputNotes.map (·.id)).Sorted (· < ·) ∧
      b.outputNotes.Perm (remainingOutputNotes txs) ∧
      b.outputNotesTree.leaves = b.outputNotes.map (fun n => (n.id, n.metadata)) ∧
      b.outputNotesTree.depth = L.batchNoteTreeDepth := by
  obtain ⟨-, -, nulls, T₀, kept, T', tree, -, -, -, -, -, h₆, h₇, h₈, -, h₁₀, rfl⟩ :=
    new_eq_ok.mp h
  obtain ⟨rfl, -, hT'⟩ := reconcile_batch ha (checkInputNotes_ok_iff.mp ⟨_, h₆⟩) h₇ h₈
  obtain ⟨hs, hp⟩ := intoNotes_of_get ((BatchOutputNoteTracker.new_ok_iff txs).mp ⟨_, h₇⟩) hT'
  obtain ⟨-, hdepth, hleaves⟩ := buildOutputNotesTree_eq_ok.mp h₁₀
  exact ⟨rfl, hs, hp, hleaves, hdepth⟩

/-- Each account's update chains the account's transactions in batch order: it starts where
the first starts, ends where the last ends and lists them all; the keys are exactly the
accounts of the batch. -/
theorem accountUpdates_chain (h : new P L txs bh mmr proofs = .ok b) (a : AccountId) :
    ((b.accountUpdates.get a).isSome ↔ a ∈ txs.map (·.accountId)) ∧
    ∀ t ts, accountTransactions txs a = t :: ts → (t :: ts).Chain' Chained ∧
      ∃ u, b.accountUpdates.get a = some u ∧ u.accountId = a ∧
        u.initialStateCommitment = t.accountUpdate.initialStateCommitment ∧
        u.finalStateCommitment =
          ((t :: ts).getLast (cons_ne_nil t ts)).accountUpdate.finalStateCommitment ∧
        u.transactions = (t :: ts).map (·.id) := by
  obtain ⟨-, hagg⟩ := new_ok_aggregates h
  refine ⟨hagg.get_isSome a, fun t ts hts => ?_⟩
  have hu := hagg.updates a
  rw [hts] at hu
  cases hg : b.accountUpdates.get a with
  | none => rw [hg, chainUpdate_eq_none_iff] at hu; cases hu
  | some u =>
    rw [hg] at hu
    obtain ⟨hid, hi, hf, htx, hc⟩ := chainUpdate_eq_some hu
    have hmem : t ∈ accountTransactions txs a := hts ▸ mem_cons_self t ts
    have hta : t.accountId = a := by simpa [accountTransactions] using (mem_filter.mp hmem).2
    exact ⟨hc, u, rfl, hid.trans hta, hi, hf, htx⟩

theorem sample_accountUpdates_chain :
    ∃ b, new samplePrimitives sampleLimits sampleTransactions sampleBlockHeader sampleChainMmr
      .new = .ok b ∧
    ((b.accountUpdates.get 10).isSome ↔ 10 ∈ sampleTransactions.map (·.accountId)) ∧
    ∀ t ts, accountTransactions sampleTransactions 10 = t :: ts → (t :: ts).Chain' Chained ∧
      ∃ u, b.accountUpdates.get 10 = some u ∧ u.accountId = 10 ∧
        u.initialStateCommitment = t.accountUpdate.initialStateCommitment ∧
        u.finalStateCommitment =
          ((t :: ts).getLast (cons_ne_nil t ts)).accountUpdate.finalStateCommitment ∧
        u.transactions = (t :: ts).map (·.id) :=
  let ⟨b, hb⟩ := sample_new_ok; ⟨b, hb, accountUpdates_chain hb 10⟩

/-- The batch expires at the earliest expiration of its transactions, so at `u32::MAX` only
when all of them do. -/
theorem batchExpirationBlockNum_eq_min (h : new P L txs bh mmr proofs = .ok b) :
    (∀ tx ∈ txs, b.batchExpirationBlockNum ≤ tx.expirationBlockNum) ∧
    (∃ tx ∈ txs, b.batchExpirationBlockNum = tx.expirationBlockNum) ∧
    (b.batchExpirationBlockNum = BlockNumber.u32Max →
      ∀ tx ∈ txs, tx.expirationBlockNum = BlockNumber.u32Max) := by
  obtain ⟨hne, hagg⟩ := new_ok_aggregates h
  have hmax : b.batchExpirationBlockNum = BlockNumber.u32Max →
      ∀ tx ∈ txs, tx.expirationBlockNum = BlockNumber.u32Max := fun he tx htx =>
    le_antisymm (BlockNumber.le_u32Max _) (he ▸ hagg.expiration_le tx htx)
  refine ⟨hagg.expiration_le, ?_, hmax⟩
  rcases hagg.expiration_mem with he | hmem
  · obtain ⟨tx, htx⟩ := exists_mem_of_ne_nil txs hne
    exact ⟨tx, htx, he.trans (hmax he tx htx).symm⟩
  · exact hmem

theorem sample_batchExpirationBlockNum_eq_min :
    ∃ b, new samplePrimitives sampleLimits sampleTransactions sampleBlockHeader sampleChainMmr
      .new = .ok b ∧
    (∀ tx ∈ sampleTransactions, b.batchExpirationBlockNum ≤ tx.expirationBlockNum) ∧
    (∃ tx ∈ sampleTransactions, b.batchExpirationBlockNum = tx.expirationBlockNum) ∧
    (b.batchExpirationBlockNum = BlockNumber.u32Max →
      ∀ tx ∈ sampleTransactions, tx.expirationBlockNum = BlockNumber.u32Max) :=
  let ⟨b, hb⟩ := sample_new_ok; ⟨b, hb, batchExpirationBlockNum_eq_min hb⟩

/-- The note sets of a successful batch: the output notes are those the batch creates and no
input header names, once each in increasing id order; the input notes are `batchInputNote` of
all input notes in batch order. Their nullifiers are distinct and no remaining header names an
output note. -/
theorem note_set_surgery (ha : HeaderNullifiersAgree txs)
    (h : new P L txs bh mmr proofs = .ok b) :
    (b.outputNotes.map (·.id)).Sorted (· < ·) ∧
    (∀ o, o ∈ b.outputNotes ↔
      o ∈ allOutputNotes txs ∧ o.id ∉ headerNoteIds (allInputNotes txs)) ∧
    b.inputNotes = (allInputNotes txs).filterMap (batchInputNote (createdNoteIds txs) proofs) ∧
    (b.inputNotes.map (·.nullifier)).Nodup ∧
    ∀ c ∈ b.inputNotes, ∀ hd, c.header = some hd → hd.id ∉ b.outputNotes.map (·.id) := by
  obtain ⟨hin, hs, hp, -, -⟩ := new_ok_notes ha h
  have hacc := (new_ok_iff_accepts ha).mp ⟨b, h⟩
  refine ⟨hs, fun o => by simp [hp.mem_iff, remainingOutputNotes], hin, ?_, ?_⟩
  · rw [hin]
    exact (filterMap_batchInputNote_nullifiers _ _ _).nodup hacc.nullifiers_nodup
  · intro c hc hd hhd hmem
    rw [hin, expectedInputNotes, mem_filterMap] at hc
    obtain ⟨c₀, -, hc₀⟩ := hc
    obtain ⟨o, ho, hid⟩ := mem_map.mp hmem
    refine (batchInputNote_header hc₀ hhd).2 (mem_map.mpr ⟨o, ?_, hid⟩)
    exact (mem_filter.mp (hp.subset ho)).1

theorem sample_note_set_surgery :
    ∃ b, new samplePrimitives sampleLimits provenTransactions provenBlockHeader provenChainMmr
      provenNoteProofs = .ok b ∧
    b.inputNotes = [⟨6, none⟩, .ofNullifier 7, ⟨9, some ⟨11, 0⟩⟩] ∧ b.outputNotes = [⟨4, 0⟩] ∧
    (b.outputNotes.map (·.id)).Sorted (· < ·) ∧
    (∀ o, o ∈ b.outputNotes ↔ o ∈ allOutputNotes provenTransactions ∧
      o.id ∉ headerNoteIds (allInputNotes provenTransactions)) ∧
    b.inputNotes = (allInputNotes provenTransactions).filterMap
      (batchInputNote (createdNoteIds provenTransactions) provenNoteProofs) ∧
    (b.inputNotes.map (·.nullifier)).Nodup ∧
    ∀ c ∈ b.inputNotes, ∀ hd, c.header = some hd → hd.id ∉ b.outputNotes.map (·.id) := by
  obtain ⟨b, hb, hin, hout⟩ : ∃ b, new samplePrimitives sampleLimits provenTransactions
      provenBlockHeader provenChainMmr provenNoteProofs = .ok b ∧
      b.inputNotes = [⟨6, none⟩, .ofNullifier 7, ⟨9, some ⟨11, 0⟩⟩] ∧
      b.outputNotes = [⟨4, 0⟩] := ⟨_, rfl, rfl, rfl⟩
  exact ⟨b, hb, hin, hout, note_set_surgery provenTransactions_agree hb⟩

end MidenBatch.ProposedBatch
