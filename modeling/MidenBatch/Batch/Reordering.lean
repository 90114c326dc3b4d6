import MidenBatch.Batch.Outcome

/-! Reordering a batch's transactions while each account's stay in order changes neither
whether `ProposedBatch::new` accepts it nor what it builds, except the batch id and the order of
the transactions' blocks of input notes. -/
namespace MidenBatch.ProposedBatch
open List

variable {P : Primitives} {L : BatchLimits} {txs txs' : List ProvenTransaction} {bh : BlockHeader}
  {mmr : ChainMmr} {proofs : BTreeMap NoteId NoteInclusionProof}
  {noteBlock : BlockNumber → Option BlockHeader}

theorem batchInputNote_congr {created created' : List NoteId}
    (h : ∀ k, k ∈ created ↔ k ∈ created') (proofs : BTreeMap NoteId NoteInclusionProof) :
    batchInputNote created proofs = batchInputNote created' proofs := by
  funext c
  unfold batchInputNote
  split <;> simp [h]

section Perm

variable (hp : txs.Perm txs')
include hp

theorem allInputNotes_perm : (allInputNotes txs).Perm (allInputNotes txs') := hp.flatMap_right _

theorem allOutputNotes_perm : (allOutputNotes txs).Perm (allOutputNotes txs') :=
  hp.flatMap_right _

theorem mem_createdNoteIds_perm (k : NoteId) : k ∈ createdNoteIds txs ↔ k ∈ createdNoteIds txs' :=
  ((allOutputNotes_perm hp).map _).mem_iff

theorem HeaderNullifiersAgree.of_perm (ha : HeaderNullifiersAgree txs) :
    HeaderNullifiersAgree txs' := fun c hc c' hc' =>
  ha c ((allInputNotes_perm hp).mem_iff.mpr hc) c' ((allInputNotes_perm hp).mem_iff.mpr hc')

theorem expectedInputNotes_perm :
    (expectedInputNotes txs proofs).Perm (expectedInputNotes txs' proofs) := by
  unfold expectedInputNotes
  rw [batchInputNote_congr (mem_createdNoteIds_perm hp)]
  exact (allInputNotes_perm hp).filterMap _

theorem remainingOutputNotes_perm :
    (remainingOutputNotes txs).Perm (remainingOutputNotes txs') := by
  have hhd : ∀ k, k ∈ headerNoteIds (allInputNotes txs) ↔ k ∈ headerNoteIds (allInputNotes txs') :=
    fun _ => ((allInputNotes_perm hp).filterMap _).mem_iff
  unfold remainingOutputNotes
  simp only [hhd]
  exact (allOutputNotes_perm hp).filter _

end Perm

private theorem accepts_of_reorder (hp : txs.Perm txs')
    (hacc : ∀ a, accountTransactions txs' a = accountTransactions txs a)
    (h : Accepts P L noteBlock txs bh mmr proofs) : Accepts P L noteBlock txs' bh mmr proofs := by
  have hin := allInputNotes_perm hp
  have hout := allOutputNotes_perm hp
  exact {
    nonempty := fun he => h.nonempty (he ▸ hp).eq_nil
    ids_nodup := (hp.map _).nodup_iff.mp h.ids_nodup
    chain_length := h.chain_length
    chain_root := h.chain_root
    block_refs := fun tx htx => h.block_refs tx (hp.mem_iff.mpr htx)
    accounts_chain := fun a => hacc a ▸ h.accounts_chain a
    details_merge := fun a => hacc a ▸ h.details_merge a
    accounts_le := (hp.map ProvenTransaction.accountId).dedup.length_eq ▸ h.accounts_le
    nullifiers_nodup := (hin.map _).nodup_iff.mp h.nullifiers_nodup
    output_ids_nodup := (hout.map _).nodup_iff.mp h.output_ids_nodup
    created_hashes := fun c hc hd hh o ho =>
      h.created_hashes c (hin.mem_iff.mpr hc) hd hh o (hout.mem_iff.mpr ho)
    proofs_verify := fun c hc hd hh hn =>
      h.proofs_verify c (hin.mem_iff.mpr hc) hd hh fun hm =>
        hn ((mem_createdNoteIds_perm hp _).mp hm)
    input_notes_le := (expectedInputNotes_perm hp).length_eq ▸ h.input_notes_le
    output_notes_le := (remainingOutputNotes_perm hp).length_eq ▸ h.output_notes_le }

/-- Reordering the transactions, each account's kept in order, preserves acceptance and every
part of the batch but its id; the input notes come in the same per-transaction blocks, in the
new order. -/
theorem new_reorder (ha : HeaderNullifiersAgree txs) (hp : txs.Perm txs')
    (hacc : ∀ a, accountTransactions txs' a = accountTransactions txs a) :
    ((∃ b, new P L txs bh mmr proofs = .ok b) ↔ ∃ b', new P L txs' bh mmr proofs = .ok b') ∧
    ∀ b b', new P L txs bh mmr proofs = .ok b → new P L txs' bh mmr proofs = .ok b' →
      b'.accountUpdates = b.accountUpdates ∧ b'.outputNotes = b.outputNotes ∧
      b'.outputNotesTree = b.outputNotesTree ∧
      b'.batchExpirationBlockNum = b.batchExpirationBlockNum ∧
      b.inputNotes = txs.flatMap (fun tx =>
        tx.inputNotes.filterMap (batchInputNote (createdNoteIds txs) proofs)) ∧
      b'.inputNotes = txs'.flatMap (fun tx =>
        tx.inputNotes.filterMap (batchInputNote (createdNoteIds txs) proofs)) := by
  have ha' := ha.of_perm hp
  refine ⟨by rw [new_ok_iff_accepts ha, new_ok_iff_accepts ha']; exact
    ⟨accepts_of_reorder hp hacc, accepts_of_reorder hp.symm fun a => (hacc a).symm⟩, ?_⟩
  intro b b' h h'
  obtain ⟨-, hagg⟩ := new_ok_aggregates h
  obtain ⟨-, hagg'⟩ := new_ok_aggregates h'
  obtain ⟨hin, hs, hpo, hleaves, hdepth⟩ := new_ok_notes ha h
  obtain ⟨hin', hs', hpo', hleaves', hdepth'⟩ := new_ok_notes ha' h'
  have : IsAntisymm OutputNote (fun o o' => o.id < o'.id) :=
    ⟨fun _ _ hab hba => absurd hab (not_lt.mpr hba.le)⟩
  have hout : b'.outputNotes = b.outputNotes :=
    eq_of_perm_of_sorted (hpo'.trans ((remainingOutputNotes_perm hp).symm.trans hpo.symm))
      (pairwise_map.mp hs') (pairwise_map.mp hs)
  refine ⟨BTreeMap.ext fun a => ?_, hout, BatchNoteTree.ext (hdepth'.trans hdepth.symm)
    (by rw [hleaves, hleaves', hout]), hagg.expiration_eq_of_perm hagg' hp, ?_, ?_⟩
  · exact Except.ok.inj ((hagg'.updates a).symm.trans (hacc a ▸ hagg.updates a))
  · rw [hin, expectedInputNotes, allInputNotes, filterMap_flatMap]
  · rw [hin', expectedInputNotes, allInputNotes, filterMap_flatMap,
      batchInputNote_congr (mem_createdNoteIds_perm hp)]

/-- A transaction on a second account, moved from the end of the sample batch to its front. -/
def otherAccountTransaction : ProvenTransaction := ⟨4, 11, 222, 30, [⟨9, none⟩], [], ⟨5, 6, 0⟩⟩

theorem sample_new_reorder :
    HeaderNullifiersAgree (sampleTransactions ++ [otherAccountTransaction]) ∧
    (sampleTransactions ++ [otherAccountTransaction]).Perm
      (otherAccountTransaction :: sampleTransactions) ∧
    (∀ a, accountTransactions (otherAccountTransaction :: sampleTransactions) a =
      accountTransactions (sampleTransactions ++ [otherAccountTransaction]) a) ∧
    ∃ b', new samplePrimitives sampleLimits (otherAccountTransaction :: sampleTransactions)
      sampleBlockHeader sampleChainMmr .new = .ok b' := by
  have ha : HeaderNullifiersAgree (sampleTransactions ++ [otherAccountTransaction]) := by
    simp [HeaderNullifiersAgree, allInputNotes, sampleTransactions, otherAccountTransaction]
  have hacc : ∀ a, accountTransactions (otherAccountTransaction :: sampleTransactions) a =
      accountTransactions (sampleTransactions ++ [otherAccountTransaction]) a := by
    intro a
    rcases eq_or_ne a 11 with rfl | h
    · simp [accountTransactions, sampleTransactions, otherAccountTransaction]
    · simp [accountTransactions, otherAccountTransaction, Ne.symm h]
  exact ⟨ha, perm_append_comm, hacc, (new_reorder ha perm_append_comm hacc).1.mp ⟨_, rfl⟩⟩

end MidenBatch.ProposedBatch
