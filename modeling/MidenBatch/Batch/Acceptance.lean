import MidenBatch.Batch.Phases

/-! When `ProposedBatch::new` succeeds: exactly on the inputs `Accepts` describes, with the
blocks of inclusion proofs looked up in the chain MMR. -/
namespace MidenBatch.ProposedBatch
open List BatchOutputNoteTracker

variable {P : Primitives} {L : BatchLimits} {txs : List ProvenTransaction} {bh : BlockHeader}
  {mmr : ChainMmr} {proofs : BTreeMap NoteId NoteInclusionProof}

theorem mem_headerNoteIds {l : List InputNoteCommitment} {k : NoteId} :
    k ∈ headerNoteIds l ↔ ∃ c ∈ l, ∃ h, c.header = some h ∧ h.id = k := by
  simp [headerNoteIds]

/-- Distinct nullifiers make distinct header ids, when equal ids mean equal nullifiers. -/
theorem headerNoteIds_nodup {l : List InputNoteCommitment} (hn : (l.map (·.nullifier)).Nodup)
    (ha : ∀ c ∈ l, ∀ c' ∈ l, ∀ h h', c.header = some h → c'.header = some h' → h.id = h'.id →
      c.nullifier = c'.nullifier) : (headerNoteIds l).Nodup := by
  induction l with
  | nil => simp [headerNoteIds]
  | cons c l ih =>
    obtain ⟨hc, hl⟩ := nodup_cons.mp (map_cons _ c l ▸ hn)
    rw [← singleton_append, headerNoteIds_append, headerNoteIds_singleton]
    refine nodup_append.mpr ⟨Option.toList_nodup _,
      ih hl fun c₁ h₁ c₂ h₂ => ha c₁ (mem_cons_of_mem c h₁) c₂ (mem_cons_of_mem c h₂), ?_⟩
    rintro k hk hk'
    obtain ⟨h, hh, rfl⟩ := Option.mem_map.mp (Option.mem_toList.mp hk)
    obtain ⟨c', hc', h', hh', he⟩ := mem_headerNoteIds.mp hk'
    exact hc (mem_map.mpr ⟨c', hc',
      (ha c (mem_cons_self c l) c' (mem_cons_of_mem c hc') h h' hh hh' he.symm).symm⟩)

theorem HeaderNullifiersAgree.headerNoteIds_nodup (ha : HeaderNullifiersAgree txs)
    (hn : ((allInputNotes txs).map (·.nullifier)).Nodup) :
    (headerNoteIds (allInputNotes txs)).Nodup :=
  ProposedBatch.headerNoteIds_nodup hn ha

/-- Against the full tracker, `NoteChecks` are the per-note conditions of `Accepts`. -/
theorem noteChecks_iff {T₀ : BatchOutputNoteTracker} (hnd : (createdNoteIds txs).Nodup)
    (hT₀ : ∀ k, T₀.outputNotes.get k = (outputNoteEntries txs).dlookup k)
    (c : InputNoteCommitment) : NoteChecks P mmr proofs T₀ c ↔ ∀ h, c.header = some h →
      (∀ o ∈ allOutputNotes txs, o.id = h.id → o.hash P = h.hash P) ∧
      (h.id ∉ createdNoteIds txs → ∀ p, proofs.get h.id = some p →
        ∃ b, mmr.getBlock p.location.blockNum = some b ∧
          P.verifyPath p.notePath p.location.nodeIndexInBlock.val (h.hash P) b.noteRoot = .ok ()) := by
  have hlookup : ∀ k i o, T₀.outputNotes.get k = some (i, o) ↔
      ∃ tx ∈ txs, o ∈ tx.outputNotes ∧ o.id = k ∧ tx.id = i := fun k i o => by
    rw [hT₀, dlookup_outputNoteEntries hnd]
  refine forall_congr' fun h => imp_congr_right fun _ => ?_
  cases hg : T₀.outputNotes.get h.id with
  | some e =>
    obtain ⟨i, o⟩ := e
    obtain ⟨tx, htx, ho, hid, -⟩ := (hlookup _ _ _).mp hg
    have hcreated : h.id ∈ createdNoteIds txs := by
      simp only [createdNoteIds, allOutputNotes, mem_map, mem_flatMap]
      exact ⟨o, ⟨tx, htx, ho⟩, hid⟩
    simp only [hcreated, not_true_eq_false, false_implies, and_true]
    constructor
    · rintro he o' ho' hid'
      obtain ⟨tx', htx', ho'⟩ := mem_flatMap.mp ho'
      have he' := Option.some.inj <| ((hlookup _ _ _).mpr ⟨tx', htx', ho', hid', rfl⟩).symm.trans hg
      cases Prod.mk.inj he' |>.2
      exact he
    · exact fun he => he o (mem_flatMap.mpr ⟨tx, htx, ho⟩) hid
  | none =>
    have hcreated : h.id ∉ createdNoteIds txs := by
      simp only [createdNoteIds, allOutputNotes, mem_map, mem_flatMap, not_exists, not_and]
      rintro o ⟨tx, htx, ho⟩ hid
      simpa [hg] using (hlookup _ _ _).mpr ⟨tx, htx, ho, hid, rfl⟩
    simp only [hcreated, not_false_eq_true, true_implies]
    constructor
    · exact fun hv => ⟨fun o ho hid => absurd (mem_map.mpr ⟨o, ho, hid⟩) hcreated, hv⟩
    · exact fun hv => hv.2

/-- The reconciliation loop over the whole batch, from the full tracker. -/
theorem reconcile_batch (ha : HeaderNullifiersAgree txs)
    (hn : ((allInputNotes txs).map (·.nullifier)).Nodup) {T₀ : BatchOutputNoteTracker}
    (hT₀ : BatchOutputNoteTracker.new txs = .ok T₀) {kept : List InputNoteCommitment}
    {T' : BatchOutputNoteTracker}
    (h : reconcileInputNotes P mmr proofs T₀ (allInputNotes txs) = .ok (kept, T')) :
    kept = expectedInputNotes txs proofs ∧ (∀ c ∈ allInputNotes txs, NoteChecks P mmr proofs T₀ c) ∧
      ∀ k, T'.outputNotes.get k = if k ∈ headerNoteIds (allInputNotes txs) then none
        else (outputNoteEntries txs).dlookup k := by
  have hcr : ∀ k, (T₀.outputNotes.get k).isSome ↔ k ∈ createdNoteIds txs := fun k => by
    rw [get_new hT₀, dlookup_isSome, keys_outputNoteEntries]
  obtain ⟨hk, hc, hT'⟩ := reconcileInputNotes_ok (q := []) hcr (by simp [headerNoteIds])
    (by simpa using ha.headerNoteIds_nodup hn) h
  exact ⟨hk, hc, fun k => by simpa [get_new hT₀] using hT' k⟩

/-- `new` succeeds exactly on the inputs `Accepts` describes, with the blocks of inclusion
proofs taken from the chain MMR. -/
theorem new_ok_iff_accepts (ha : HeaderNullifiersAgree txs) :
    (∃ b, new P L txs bh mmr proofs = .ok b) ↔ Accepts P L mmr.getBlock txs bh mmr proofs := by
  constructor
  · rintro ⟨b, h⟩
    obtain ⟨accs, exp, nulls, T₀, kept, T', tree, h₁, h₂, h₃, h₄, h₅, h₆, h₇, h₈, h₉, h₁₀, -⟩ :=
      new_eq_ok.mp h
    obtain ⟨hne, hids⟩ := checkTransactions_eq_ok.mp h₁
    obtain ⟨hlen, hroot⟩ := checkChainMmr_eq_ok.mp h₂
    have hagg := aggregateAccountUpdates_aggregates h₄
    have hchain := fun a => (chainUpdate_ok_iff _).mp ⟨_, hagg.updates a⟩
    have hnull := checkInputNotes_ok_iff.mp ⟨_, h₆⟩
    have hout := (BatchOutputNoteTracker.new_ok_iff txs).mp ⟨_, h₇⟩
    obtain ⟨rfl, hchecks, hT'⟩ := reconcile_batch ha hnull h₇ h₈
    have hnotes := fun c hc => (noteChecks_iff hout (get_new h₇) c).mp (hchecks c hc)
    exact {
      nonempty := hne
      ids_nodup := hids
      chain_length := hlen
      chain_root := hroot
      block_refs := fun tx htx => mem_blockReferences.mp (checkBlockReferences_eq_ok.mp h₃ tx htx)
      accounts_chain := fun a => (hchain a).1
      details_merge := fun a => (hchain a).2
      accounts_le := hagg.len_eq ▸ checkAccountUpdatesLen_eq_ok.mp h₅
      nullifiers_nodup := hnull
      output_ids_nodup := hout
      created_hashes := fun c hc h hh => (hnotes c hc h hh).1
      proofs_verify := fun c hc h hh => (hnotes c hc h hh).2
      input_notes_le := checkInputNotesLen_eq_ok.mp h₉
      output_notes_le :=
        (intoNotes_of_get hout hT').2.length_eq ▸ (buildOutputNotesTree_eq_ok.mp h₁₀).1 }
  · intro hacc
    have hnull := hacc.nullifiers_nodup
    obtain ⟨acc, h₄⟩ := aggregateAccountUpdates_ok_of (P := P) fun a =>
      (chainUpdate_ok_iff _).mpr ⟨hacc.accounts_chain a, hacc.details_merge a⟩
    obtain ⟨nulls, h₆⟩ := checkInputNotes_ok_iff.mpr hnull
    obtain ⟨T₀, h₇⟩ := (BatchOutputNoteTracker.new_ok_iff txs).mpr hacc.output_ids_nodup
    obtain ⟨⟨kept, T'⟩, h₈⟩ := reconcileInputNotes_ok_of
      (show ∀ k, T₀.outputNotes.get k = if k ∈ headerNoteIds [] then none
        else T₀.outputNotes.get k by simp [headerNoteIds])
      (by simpa using ha.headerNoteIds_nodup hnull) fun c hc =>
        (noteChecks_iff hacc.output_ids_nodup (get_new h₇) c).mpr fun h hh =>
          ⟨hacc.created_hashes c hc h hh, hacc.proofs_verify c hc h hh⟩
    obtain ⟨rfl, -, hT'⟩ := reconcile_batch ha hnull h₇ h₈
    have hsize : T'.intoNotes.length ≤ L.maxOutputNotesPerBatch :=
      (intoNotes_of_get hacc.output_ids_nodup hT').2.length_eq ▸ hacc.output_notes_le
    exact ⟨_, new_eq_ok.mpr ⟨acc.1, acc.2, nulls, T₀, _, T',
      ⟨L.batchNoteTreeDepth, T'.intoNotes.map fun n => (n.id, n.metadata),
        by simpa using hsize.trans L.output_fits⟩,
      checkTransactions_eq_ok.mpr ⟨hacc.nonempty, hacc.ids_nodup⟩,
      checkChainMmr_eq_ok.mpr ⟨hacc.chain_length, hacc.chain_root⟩,
      checkBlockReferences_eq_ok.mpr fun tx htx => mem_blockReferences.mpr (hacc.block_refs tx htx),
      h₄, checkAccountUpdatesLen_eq_ok.mpr
        ((aggregateAccountUpdates_aggregates h₄).len_eq ▸ hacc.accounts_le),
      h₆, h₇, h₈, checkInputNotesLen_eq_ok.mpr hacc.input_notes_le,
      buildOutputNotesTree_eq_ok.mpr ⟨hsize, rfl, rfl⟩, rfl⟩⟩

/-- Toy collaborators: sums for hashes, a path that checks when its sum plus the index is the
root, details that always merge. -/
def samplePrimitives : Primitives where
  hashPeaks peaks := peaks.sum
  computeNoteHash id metadata := id + 1000 * metadata
  verifyPath path index leaf root :=
    if path.foldl (· + ·) leaf + index = root then .ok () else .error ⟨0⟩
  mergeDetails d d' := .ok (d + d')
  batchIdFromTransactions txs := (txs.map (·.id)).sum

def sampleLimits : BatchLimits := ⟨4, 4, 4, 2, by decide⟩

/-- The genesis block as reference block, with an empty chain MMR. -/
def sampleBlockHeader : BlockHeader := ⟨0, 0, 17, 222⟩

def sampleChainMmr : ChainMmr := ⟨0, [], BTreeMap.new, by simp⟩

/-- Two transactions on one account: the first consumes note 3, unauthenticated, before the
second creates it. -/
def sampleTransactions : List ProvenTransaction :=
  [⟨1, 10, 222, 50, [⟨5, some ⟨3, 1⟩⟩, ⟨6, none⟩], [], ⟨0, 1, 0⟩⟩,
   ⟨2, 10, 222, 40, [], [⟨3, 1⟩, ⟨4, 0⟩], ⟨1, 2, 0⟩⟩]

theorem sampleTransactions_agree : HeaderNullifiersAgree sampleTransactions := by
  simp [HeaderNullifiersAgree, allInputNotes, sampleTransactions]

/-- A chain MMR holding the genesis block, whose note root is 20. -/
def provenChainMmr : ChainMmr :=
  ⟨1, [5], (BTreeMap.new.insert 0 ⟨0, 0, 20, 111⟩).2, fun n h hg => by
    simp only [BTreeMap.get_insert, BTreeMap.get_new] at hg
    split_ifs at hg with hn
    cases hg
    exact ⟨hn.symm, hn ▸ by decide⟩⟩

/-- The block after genesis, matching `provenChainMmr`. -/
def provenBlockHeader : BlockHeader := ⟨1, 5, 0, 333⟩

/-- A proof of note 8 into the genesis block: the path sums with the note's hash to its root. -/
def provenNoteProofs : BTreeMap NoteId NoteInclusionProof :=
  (BTreeMap.new.insert 8 ⟨⟨0, 0⟩, [12]⟩).2

/-- Two transactions on one account, referencing the reference block and the genesis block. The
first consumes note 3, which the second creates, an authenticated note, and note 8, whose proof
verifies; the second consumes note 11 with no proof. -/
def provenTransactions : List ProvenTransaction :=
  [⟨1, 10, 333, 50, [⟨5, some ⟨3, 1⟩⟩, ⟨6, none⟩, ⟨7, some ⟨8, 0⟩⟩], [], ⟨0, 1, 0⟩⟩,
   ⟨2, 10, 111, 40, [⟨9, some ⟨11, 0⟩⟩], [⟨3, 1⟩, ⟨4, 0⟩], ⟨1, 2, 0⟩⟩]

theorem provenTransactions_agree : HeaderNullifiersAgree provenTransactions := by
  simp [HeaderNullifiersAgree, allInputNotes, provenTransactions]

/-- Every input `new` accepts meets the conditions of its doc comment, with every note proof
verifying in a block of the chain MMR. -/
theorem accepts_of_new_ok (ha : HeaderNullifiersAgree txs) {b : ProposedBatch}
    (h : new P L txs bh mmr proofs = .ok b) : Accepts P L mmr.getBlock txs bh mmr proofs :=
  (new_ok_iff_accepts ha).mp ⟨b, h⟩

theorem sample_new_ok_accepts : HeaderNullifiersAgree provenTransactions ∧
    ∃ b, new samplePrimitives sampleLimits provenTransactions provenBlockHeader provenChainMmr
      provenNoteProofs = .ok b ∧ b.inputNotes = [⟨6, none⟩, .ofNullifier 7, ⟨9, some ⟨11, 0⟩⟩] ∧
      Accepts samplePrimitives sampleLimits provenChainMmr.getBlock provenTransactions
        provenBlockHeader provenChainMmr provenNoteProofs :=
  ⟨provenTransactions_agree, _, rfl, rfl, accepts_of_new_ok provenTransactions_agree rfl⟩

/-- `new` accepts every input meeting the conditions of its doc comment, provided each note
proof verifies in a block the chain MMR holds. -/
theorem new_ok_of_accepts (ha : HeaderNullifiersAgree txs)
    (hacc : Accepts P L mmr.getBlock txs bh mmr proofs) :
    ∃ b, new P L txs bh mmr proofs = .ok b :=
  (new_ok_iff_accepts ha).mpr hacc

theorem provenTransactions_accepts : Accepts samplePrimitives sampleLimits
    provenChainMmr.getBlock provenTransactions provenBlockHeader provenChainMmr provenNoteProofs := by
  refine ⟨by decide, by decide, rfl, rfl, by decide, fun a => ?_, fun a t ts h => ?_, by decide,
    by decide, by decide, ?_, ?_, by decide, by decide⟩
  · by_cases ha : a = 10
    · subst ha; exact .cons rfl .nil
    · rw [show accountTransactions provenTransactions a = [] by
        simp [accountTransactions, provenTransactions, Ne.symm ha]]
      trivial
  · by_cases ha : a = 10
    · subst ha
      simp only [accountTransactions, provenTransactions] at h
      obtain ⟨rfl, rfl⟩ := List.cons_eq_cons.mp h
      exact ⟨_, rfl⟩
    · simp [accountTransactions, provenTransactions, Ne.symm ha] at h
  · simp [allInputNotes, allOutputNotes, provenTransactions, OutputNote.hash, NoteHeader.hash,
      samplePrimitives]
  · simp [allInputNotes, createdNoteIds, allOutputNotes, provenTransactions]
    refine ⟨fun p hp => ?_, fun p hp => ?_⟩
    · obtain rfl : p = ⟨⟨0, 0⟩, [12]⟩ := by simpa [provenNoteProofs] using hp.symm
      exact ⟨⟨0, 0, 20, 111⟩, rfl, rfl⟩
    · simp [provenNoteProofs] at hp

theorem sample_accepts_new_ok : HeaderNullifiersAgree provenTransactions ∧
    Accepts samplePrimitives sampleLimits provenChainMmr.getBlock provenTransactions
      provenBlockHeader provenChainMmr provenNoteProofs ∧
    ∃ b, new samplePrimitives sampleLimits provenTransactions provenBlockHeader provenChainMmr
      provenNoteProofs = .ok b :=
  ⟨provenTransactions_agree, provenTransactions_accepts,
    new_ok_of_accepts provenTransactions_agree provenTransactions_accepts⟩

/-- Proof blocks looked up as the transaction references are: the reference block itself, or
a block of the chain MMR. -/
def referenceOrChainBlock (blockHeader : BlockHeader) (chainMmr : ChainMmr)
    (blockNum : BlockNumber) : Option BlockHeader :=
  if blockNum = blockHeader.blockNum then some blockHeader else chainMmr.getBlock blockNum

/-- A transaction consuming note 8, unauthenticated, with a proof into the reference block. -/
def referenceProofTransaction : ProvenTransaction :=
  ⟨3, 11, 222, 40, [⟨7, some ⟨8, 0⟩⟩], [], ⟨0, 0, 0⟩⟩

def referenceProofs : BTreeMap NoteId NoteInclusionProof :=
  (BTreeMap.new.insert 8 ⟨⟨0, 0⟩, [9]⟩).2

/-- A note proof into the reference block verifies there and meets every other constraint,
yet `new` rejects it: the block is looked up in the chain MMR, which never holds it. -/
theorem reference_block_proof_rejected :
    HeaderNullifiersAgree [referenceProofTransaction] ∧
    Accepts samplePrimitives sampleLimits (referenceOrChainBlock sampleBlockHeader sampleChainMmr)
      [referenceProofTransaction] sampleBlockHeader sampleChainMmr referenceProofs ∧
    new samplePrimitives sampleLimits [referenceProofTransaction] sampleBlockHeader sampleChainMmr
      referenceProofs = .error (.unauthenticatedInputNoteBlockNotInChainMmr 0 8) := by
  refine ⟨by simp [HeaderNullifiersAgree, allInputNotes, referenceProofTransaction], ?_, rfl⟩
  refine ⟨by decide, by decide, rfl, rfl, by decide, fun a => ?_, fun a t ts h => ?_, by decide,
    by decide, by decide, ?_, ?_, by decide, by decide⟩
  · by_cases ha : a = 11
    · subst ha; exact .nil
    · rw [show accountTransactions [referenceProofTransaction] a = [] by
        simp [accountTransactions, referenceProofTransaction, Ne.symm ha]]
      trivial
  · by_cases ha : a = 11
    · subst ha
      simp only [accountTransactions, referenceProofTransaction] at h
      obtain ⟨rfl, rfl⟩ := List.cons_eq_cons.mp h
      exact ⟨_, rfl⟩
    · simp [accountTransactions, referenceProofTransaction, Ne.symm ha] at h
  · simp [allInputNotes, allOutputNotes, referenceProofTransaction]
  · simp [allInputNotes, createdNoteIds, allOutputNotes, referenceProofTransaction]
    intro p hp
    obtain rfl : p = ⟨⟨0, 0⟩, [9]⟩ := by simpa [referenceProofs] using hp.symm
    exact ⟨sampleBlockHeader, rfl, rfl⟩

end MidenBatch.ProposedBatch
