import MidenBatch.Batch.Diagnostics

/-! How the result of `ProposedBatch::new` depends on its inputs: the note proofs it reads, the
batch limits, and the blocks it authenticates against. -/
namespace MidenBatch.ProposedBatch
open List BatchOutputNoteTracker

variable {P : Primitives} {L : BatchLimits} {txs : List ProvenTransaction} {bh : BlockHeader}
  {mmr : ChainMmr} {proofs proofs' : BTreeMap NoteId NoteInclusionProof}

/-- `new` reads the note proofs only at the header ids of the input notes the batch does not
create itself: two proof maps that agree there give the same result, errors included, up to the
map the batch stores. -/
theorem new_proofs_frame (ha : HeaderNullifiersAgree txs)
    (hpr : ∀ k ∈ headerNoteIds (allInputNotes txs), k ∉ createdNoteIds txs →
      proofs'.get k = proofs.get k) :
    new P L txs bh mmr proofs' =
      (fun b => { b with unauthenticatedNoteProofs := proofs' }) <$> new P L txs bh mmr proofs := by
  unfold new
  refine bind_eq_map_bind fun _ _ => ?_
  refine bind_eq_map_bind fun _ _ => ?_
  refine bind_eq_map_bind fun _ _ => ?_
  refine bind_eq_map_bind fun ⟨_, _⟩ _ => ?_
  refine bind_eq_map_bind fun _ _ => ?_
  refine bind_eq_map_bind fun _ h₆ => ?_
  refine bind_eq_map_bind fun T₀ h₇ => ?_
  have hnull := checkInputNotes_ok_iff.mp ⟨_, h₆⟩
  have hcreated : ∀ k, T₀.outputNotes.get k = none → k ∉ createdNoteIds txs := fun k hg => by
    rwa [get_new h₇, dlookup_eq_none, keys_outputNoteEntries] at hg
  rw [reconcileInputNotes_proofs_congr (q := []) (l := txs.flatMap (·.inputNotes))
    (show ∀ k, T₀.outputNotes.get k = if k ∈ headerNoteIds [] then none
      else T₀.outputNotes.get k by simp [headerNoteIds])
    (by simpa [allInputNotes] using ha.headerNoteIds_nodup hnull)
    fun k hk hg => hpr k hk (hcreated k hg)]
  refine bind_eq_map_bind fun ⟨_, _⟩ _ => ?_
  refine bind_eq_map_bind fun _ _ => ?_
  refine bind_eq_map_bind fun _ _ => ?_
  rfl

/-- A proof for note 3, which the sample batch creates itself, into a block the chain MMR does not
hold. -/
def createdNoteProofs : BTreeMap NoteId NoteInclusionProof :=
  (BTreeMap.new.insert 3 ⟨⟨5, 0⟩, []⟩).2

theorem sample_new_proofs_frame :
    HeaderNullifiersAgree sampleTransactions ∧
    (∀ k ∈ headerNoteIds (allInputNotes sampleTransactions), k ∉ createdNoteIds sampleTransactions →
      createdNoteProofs.get k = (BTreeMap.new : BTreeMap NoteId NoteInclusionProof).get k) ∧
    new samplePrimitives sampleLimits sampleTransactions sampleBlockHeader sampleChainMmr
        createdNoteProofs =
      (fun b => { b with unauthenticatedNoteProofs := createdNoteProofs }) <$>
        new samplePrimitives sampleLimits sampleTransactions sampleBlockHeader sampleChainMmr
          .new := by
  have hpr : ∀ k ∈ headerNoteIds (allInputNotes sampleTransactions),
      k ∉ createdNoteIds sampleTransactions →
        createdNoteProofs.get k = (BTreeMap.new : BTreeMap NoteId NoteInclusionProof).get k := by
    simp [headerNoteIds, allInputNotes, createdNoteIds, allOutputNotes, sampleTransactions]
  exact ⟨sampleTransactions_agree, hpr, new_proofs_frame sampleTransactions_agree hpr⟩

/-- Raising the limits, with the note tree depth kept, never rejects a batch `new` accepted, and
`new` builds the same batch. -/
theorem new_limits_mono {L' : BatchLimits}
    (hacc : L.maxAccountsPerBatch ≤ L'.maxAccountsPerBatch)
    (hin : L.maxInputNotesPerBatch ≤ L'.maxInputNotesPerBatch)
    (hout : L.maxOutputNotesPerBatch ≤ L'.maxOutputNotesPerBatch)
    (hdepth : L.batchNoteTreeDepth = L'.batchNoteTreeDepth) {b : ProposedBatch}
    (h : new P L txs bh mmr proofs = .ok b) : new P L' txs bh mmr proofs = .ok b := by
  obtain ⟨acc, exp, nulls, T₀, kept, T', tree, h₁, h₂, h₃, h₄, h₅, h₆, h₇, h₈, h₉, h₁₀, rfl⟩ :=
    new_eq_ok.mp h
  obtain ⟨hlen, hd, hl⟩ := buildOutputNotesTree_eq_ok.mp h₁₀
  exact new_eq_ok.mpr ⟨acc, exp, nulls, T₀, kept, T', tree, h₁, h₂, h₃, h₄,
    checkAccountUpdatesLen_eq_ok.mpr ((checkAccountUpdatesLen_eq_ok.mp h₅).trans hacc), h₆, h₇,
    h₈, checkInputNotesLen_eq_ok.mpr ((checkInputNotesLen_eq_ok.mp h₉).trans hin),
    buildOutputNotesTree_eq_ok.mpr ⟨hlen.trans hout, hd.trans hdepth, hl⟩, rfl⟩

theorem sample_new_limits_mono :
    ∃ b, new samplePrimitives sampleLimits sampleTransactions sampleBlockHeader sampleChainMmr
        .new = .ok b ∧
      new samplePrimitives ⟨8, 16, 4, 2, by decide⟩ sampleTransactions sampleBlockHeader
        sampleChainMmr .new = .ok b :=
  let ⟨b, hb⟩ := sample_new_ok
  ⟨b, hb, new_limits_mono (by decide) (by decide) (by decide) rfl hb⟩

theorem ChainMmr.blockNum_lt_of_mem_blockHeaders {mmr : ChainMmr} {hdr : BlockHeader}
    (h : hdr ∈ mmr.blockHeaders) : hdr.blockNum < mmr.chainLength := by
  obtain ⟨⟨n, h'⟩, he, rfl⟩ := mem_map.mp h
  obtain ⟨rfl, hlt⟩ := mmr.blocks_wf n _ (BTreeMap.mem_entries.mp he)
  exact hlt

/-- On success, no block after the reference block is relied on: every transaction references
the reference block or a chain-MMR block numbered below it, and every note proof `new` checks is
into a block the chain MMR holds, numbered below the reference block. -/
theorem new_ok_blocks_before_reference (ha : HeaderNullifiersAgree txs) {b : ProposedBatch}
    (h : new P L txs bh mmr proofs = .ok b) :
    (∀ tx ∈ txs, tx.blockRef = bh.hash ∨
      ∃ hdr ∈ mmr.blockHeaders, hdr.hash = tx.blockRef ∧ hdr.blockNum < bh.blockNum) ∧
    ∀ c ∈ allInputNotes txs, ∀ hd, c.header = some hd → hd.id ∉ createdNoteIds txs →
      ∀ p, proofs.get hd.id = some p →
        ∃ blk, mmr.getBlock p.location.blockNum = some blk ∧ p.location.blockNum < bh.blockNum := by
  have hacc := (new_ok_iff_accepts ha).mp ⟨b, h⟩
  refine ⟨fun tx htx => ?_, fun c hc hd hhd hnc p hp => ?_⟩
  · rcases hacc.block_refs tx htx with heq | ⟨hdr, hmem, hh⟩
    · exact .inl heq
    · exact .inr ⟨hdr, hmem, hh,
        hacc.chain_length ▸ ChainMmr.blockNum_lt_of_mem_blockHeaders hmem⟩
  · obtain ⟨blk, hb, -⟩ := hacc.proofs_verify c hc hd hhd hnc p hp
    exact ⟨blk, hb, hacc.chain_length ▸ (mmr.blocks_wf _ _ hb).2⟩

theorem sample_new_ok_blocks_before_reference :
    HeaderNullifiersAgree provenTransactions ∧
    ∃ b, new samplePrimitives sampleLimits provenTransactions provenBlockHeader provenChainMmr
        provenNoteProofs = .ok b ∧
      (∀ tx ∈ provenTransactions, tx.blockRef = provenBlockHeader.hash ∨
        ∃ hdr ∈ provenChainMmr.blockHeaders, hdr.hash = tx.blockRef ∧
          hdr.blockNum < provenBlockHeader.blockNum) ∧
      ∀ c ∈ allInputNotes provenTransactions, ∀ hd, c.header = some hd →
        hd.id ∉ createdNoteIds provenTransactions → ∀ p, provenNoteProofs.get hd.id = some p →
          ∃ blk, provenChainMmr.getBlock p.location.blockNum = some blk ∧
            p.location.blockNum < provenBlockHeader.blockNum := by
  obtain ⟨b, hb⟩ : ∃ b, new samplePrimitives sampleLimits provenTransactions provenBlockHeader
      provenChainMmr provenNoteProofs = .ok b := ⟨_, rfl⟩
  exact ⟨provenTransactions_agree, b, hb,
    new_ok_blocks_before_reference provenTransactions_agree hb⟩

theorem batchInputNote_congr_at {created created' : List NoteId} {c : InputNoteCommitment}
    (h : ∀ hd, c.header = some hd → (hd.id ∈ created ↔ hd.id ∈ created'))
    (proofs : BTreeMap NoteId NoteInclusionProof) :
    batchInputNote created proofs c = batchInputNote created' proofs c := by
  unfold batchInputNote
  cases hc : c.header with
  | none => rfl
  | some hd => simp only [h hd hc]

section Prefix

variable {txs' : List ProvenTransaction}

@[simp] theorem allInputNotes_append :
    allInputNotes (txs ++ txs') = allInputNotes txs ++ allInputNotes txs' := flatMap_append _ _ _

@[simp] theorem allOutputNotes_append :
    allOutputNotes (txs ++ txs') = allOutputNotes txs ++ allOutputNotes txs' := flatMap_append _ _ _

@[simp] theorem createdNoteIds_append :
    createdNoteIds (txs ++ txs') = createdNoteIds txs ++ createdNoteIds txs' := by
  rw [createdNoteIds, allOutputNotes_append, map_append]; rfl

theorem mem_createdNoteIds_append_of_header
    (hin : ∀ k ∈ headerNoteIds (allInputNotes txs), k ∉ createdNoteIds txs')
    {c : InputNoteCommitment} (hc : c ∈ allInputNotes txs) {hd : NoteHeader}
    (hhd : c.header = some hd) :
    hd.id ∈ createdNoteIds (txs ++ txs') ↔ hd.id ∈ createdNoteIds txs := by
  have := hin hd.id (mem_headerNoteIds.mpr ⟨c, hc, hd, hhd, rfl⟩)
  simp [this]

/-- When no input note of the prefix names a note the rest creates, each input note of the
prefix is kept or dropped as in the whole batch. -/
theorem expectedInputNotes_prefix_le
    (hin : ∀ k ∈ headerNoteIds (allInputNotes txs), k ∉ createdNoteIds txs') :
    (expectedInputNotes txs proofs).length ≤ (expectedInputNotes (txs ++ txs') proofs).length := by
  rw [expectedInputNotes, expectedInputNotes, allInputNotes_append, filterMap_append,
    filterMap_congr fun c hc => batchInputNote_congr_at
      (fun _ => mem_createdNoteIds_append_of_header hin hc) proofs, length_append]
  exact Nat.le_add_right _ _

/-- When no input note of the rest names a note the prefix creates, each output note of the
prefix stays or goes as in the whole batch. -/
theorem remainingOutputNotes_prefix_le
    (hout : ∀ k ∈ headerNoteIds (allInputNotes txs'), k ∉ createdNoteIds txs) :
    (remainingOutputNotes txs).length ≤ (remainingOutputNotes (txs ++ txs')).length := by
  have hkeep : ∀ o ∈ allOutputNotes txs, (o.id ∉ headerNoteIds (allInputNotes (txs ++ txs')) ↔
      o.id ∉ headerNoteIds (allInputNotes txs)) := fun o ho => by
    rw [allInputNotes_append, headerNoteIds_append, mem_append]
    exact not_congr (or_iff_left fun hm => hout _ hm (mem_map_of_mem _ ho))
  rw [remainingOutputNotes, remainingOutputNotes, allOutputNotes_append, filter_append,
    length_append, filter_congr fun o ho => decide_eq_decide.mpr (hkeep o ho)]
  exact Nat.le_add_right _ _

/-- A nonempty prefix of a batch `new` accepts is accepted too, when no note crosses between the
prefix and the rest: no header of an input note of one part names a note the other creates. -/
theorem new_ok_prefix {txs' : List ProvenTransaction} (ha : HeaderNullifiersAgree (txs ++ txs'))
    (hne : txs ≠ [])
    (hin : ∀ k ∈ headerNoteIds (allInputNotes txs), k ∉ createdNoteIds txs')
    (hout : ∀ k ∈ headerNoteIds (allInputNotes txs'), k ∉ createdNoteIds txs)
    (h : ∃ b, new P L (txs ++ txs') bh mmr proofs = .ok b) :
    ∃ b, new P L txs bh mmr proofs = .ok b := by
  have hacc := (new_ok_iff_accepts ha).mp h
  have hmemIn : ∀ c ∈ allInputNotes txs, c ∈ allInputNotes (txs ++ txs') := fun c hc =>
    allInputNotes_append ▸ mem_append_left _ hc
  have haccts := accountTransactions_append txs txs'
  refine (new_ok_iff_accepts fun c hc c' hc' => ha c (hmemIn c hc) c' (hmemIn c' hc')).mpr {
    nonempty := hne
    ids_nodup := (nodup_append.mp (by simpa using hacc.ids_nodup)).1
    chain_length := hacc.chain_length
    chain_root := hacc.chain_root
    block_refs := fun tx htx => hacc.block_refs tx (mem_append_left _ htx)
    accounts_chain := fun a => (haccts a ▸ hacc.accounts_chain a).left_of_append
    details_merge := fun a t ts hts => by
      obtain ⟨d, hd⟩ := hacc.details_merge a t (ts ++ accountTransactions txs' a)
        (by rw [haccts, hts, cons_append])
      obtain ⟨d', hd', -⟩ := bind_eq_ok.mp (by simpa [mergeDetailsAll] using hd)
      exact ⟨d', hd'⟩
    accounts_le := le_trans ((nodup_dedup _).subperm fun x hx => by
      simp only [mem_dedup, map_append, mem_append] at hx ⊢; exact .inl hx).length_le
      hacc.accounts_le
    nullifiers_nodup := (nodup_append.mp (by simpa using hacc.nullifiers_nodup)).1
    output_ids_nodup := (nodup_append.mp (createdNoteIds_append ▸ hacc.output_ids_nodup)).1
    created_hashes := fun c hc hd hh o ho =>
      hacc.created_hashes c (hmemIn c hc) hd hh o (allOutputNotes_append ▸ mem_append_left _ ho)
    proofs_verify := fun c hc hd hh hnc => hacc.proofs_verify c (hmemIn c hc) hd hh
      fun hm => hnc ((mem_createdNoteIds_append_of_header hin hc hh).mp hm)
    input_notes_le := (expectedInputNotes_prefix_le hin).trans hacc.input_notes_le
    output_notes_le := (remainingOutputNotes_prefix_le hout).trans hacc.output_notes_le }

end Prefix

theorem sample_new_ok_prefix :
    HeaderNullifiersAgree (sampleTransactions ++ [otherAccountTransaction]) ∧
    (∃ b, new samplePrimitives sampleLimits (sampleTransactions ++ [otherAccountTransaction])
      sampleBlockHeader sampleChainMmr .new = .ok b) ∧
    ∃ b, new samplePrimitives sampleLimits sampleTransactions sampleBlockHeader sampleChainMmr
      .new = .ok b := by
  have ha : HeaderNullifiersAgree (sampleTransactions ++ [otherAccountTransaction]) := by
    simp [HeaderNullifiersAgree, allInputNotes, sampleTransactions, otherAccountTransaction]
  have h : ∃ b, new samplePrimitives sampleLimits (sampleTransactions ++ [otherAccountTransaction])
      sampleBlockHeader sampleChainMmr .new = .ok b := ⟨_, rfl⟩
  refine ⟨ha, h, new_ok_prefix ha (by simp [sampleTransactions]) ?_ ?_ h⟩ <;>
    simp [headerNoteIds, allInputNotes, createdNoteIds, allOutputNotes, sampleTransactions,
      otherAccountTransaction]


theorem batchInputNote_map_nullifier (created : List NoteId)
    (proofs proofs' : BTreeMap NoteId NoteInclusionProof) (c : InputNoteCommitment) :
    (batchInputNote created proofs c).map (·.nullifier) =
      (batchInputNote created proofs' c).map (·.nullifier) := by
  unfold batchInputNote
  split
  · rfl
  · split_ifs <;> rfl

/-- Which notes keep their header depends on the proof map; their nullifiers do not. -/
theorem expectedInputNotes_map_nullifier (proofs proofs' : BTreeMap NoteId NoteInclusionProof) :
    (expectedInputNotes txs proofs).map (·.nullifier) =
      (expectedInputNotes txs proofs').map (·.nullifier) := by
  simp only [expectedInputNotes, map_filterMap, batchInputNote_map_nullifier _ proofs proofs']

/-- Note proofs are optional: dropping some never makes `new` reject a batch it accepted. The
batch differs only in the proof map and in the input notes, which `batchInputNote` reads off the
smaller map and which keep their nullifiers. -/
theorem new_ok_of_fewer_proofs {proofs' : BTreeMap NoteId NoteInclusionProof}
    (ha : HeaderNullifiersAgree txs)
    (hsub : ∀ k p, proofs'.get k = some p → proofs.get k = some p) {b : ProposedBatch}
    (h : new P L txs bh mmr proofs = .ok b) :
    new P L txs bh mmr proofs' = .ok { b with
      unauthenticatedNoteProofs := proofs', inputNotes := expectedInputNotes txs proofs' } ∧
    (expectedInputNotes txs proofs').map (·.nullifier) = b.inputNotes.map (·.nullifier) := by
  have hacc := (new_ok_iff_accepts ha).mp ⟨b, h⟩
  have hnull : (expectedInputNotes txs proofs').map (·.nullifier) =
      (expectedInputNotes txs proofs).map (·.nullifier) :=
    expectedInputNotes_map_nullifier proofs' proofs
  obtain ⟨b', h'⟩ := (new_ok_iff_accepts ha).mpr
    { hacc with
      proofs_verify := fun c hc hd hh hn p hp => hacc.proofs_verify c hc hd hh hn p (hsub _ _ hp)
      input_notes_le := by rw [← length_map, hnull, length_map]; exact hacc.input_notes_le }
  obtain ⟨acc, exp, nulls, T₀, kept, T', tree, -, -, -, h₄, -, h₆, h₇, h₈, -, h₁₀, rfl⟩ :=
    new_eq_ok.mp h
  obtain ⟨acc', exp', -, T₀', kept', T'', tree', -, -, -, h₄', -, -, h₇', h₈', -, h₁₀', rfl⟩ :=
    new_eq_ok.mp h'
  cases h₄.symm.trans h₄'
  cases h₇.symm.trans h₇'
  have hn := checkInputNotes_ok_iff.mp ⟨_, h₆⟩
  obtain ⟨rfl, -, hT'⟩ := reconcile_batch ha hn h₇ h₈
  obtain ⟨rfl, -, hT''⟩ := reconcile_batch ha hn h₇ h₈'
  have hT : T''.intoNotes = T'.intoNotes := congrArg (fun m => intoNotes ⟨m⟩)
    (BTreeMap.ext fun k => (hT'' k).trans (hT' k).symm)
  rw [hT, h₁₀] at h₁₀'
  cases h₁₀'
  exact ⟨hT ▸ h', hnull⟩

/-- A transaction consuming note 8, unauthenticated, with a proof of it into the genesis
block. -/
def provenNoteTransaction : ProvenTransaction := ⟨3, 11, 333, 40, [⟨7, some ⟨8, 0⟩⟩], [], ⟨0, 0, 0⟩⟩

theorem sample_new_ok_of_fewer_proofs :
    HeaderNullifiersAgree [provenNoteTransaction] ∧
    ∃ b, new samplePrimitives sampleLimits [provenNoteTransaction] provenBlockHeader
        provenChainMmr provenNoteProofs = .ok b ∧ b.inputNotes = [.ofNullifier 7] ∧
      new samplePrimitives sampleLimits [provenNoteTransaction] provenBlockHeader provenChainMmr
        .new = .ok { b with
          unauthenticatedNoteProofs := .new,
          inputNotes := expectedInputNotes [provenNoteTransaction] .new } := by
  have ha : HeaderNullifiersAgree [provenNoteTransaction] := by
    simp [HeaderNullifiersAgree, allInputNotes, provenNoteTransaction]
  obtain ⟨b, hb, hin⟩ : ∃ b, new samplePrimitives sampleLimits [provenNoteTransaction]
      provenBlockHeader provenChainMmr provenNoteProofs = .ok b ∧
      b.inputNotes = [.ofNullifier 7] := ⟨_, rfl, rfl⟩
  exact ⟨ha, b, hb, hin, (new_ok_of_fewer_proofs ha (fun k p hp => by simp at hp) hb).1⟩


theorem ChainMmr.mem_blockHeaders {mmr : ChainMmr} {hdr : BlockHeader} :
    hdr ∈ mmr.blockHeaders ↔ ∃ n, mmr.getBlock n = some hdr := by
  simp only [ChainMmr.blockHeaders, BTreeMap.values, mem_map, ChainMmr.getBlock,
    ← BTreeMap.mem_entries]
  exact ⟨fun ⟨⟨n, _⟩, he, hv⟩ => ⟨n, hv ▸ he⟩, fun ⟨n, he⟩ => ⟨_, he, rfl⟩⟩

/-- A chain MMR with the same length and peaks that holds more blocks never makes `new` reject a
batch it accepted, and `new` builds the same batch but for the MMR it stores: `new` reads the
blocks only to resolve block references and to find the block of each note proof. -/
theorem new_ok_of_more_blocks {mmr' : ChainMmr} (hlen : mmr'.chainLength = mmr.chainLength)
    (hpeaks : mmr'.peaks = mmr.peaks)
    (hb : ∀ n blk, mmr.getBlock n = some blk → mmr'.getBlock n = some blk) {b : ProposedBatch}
    (h : new P L txs bh mmr proofs = .ok b) :
    new P L txs bh mmr' proofs = .ok { b with chainMmr := mmr' } := by
  obtain ⟨acc, exp, nulls, T₀, kept, T', tree, h₁, h₂, h₃, h₄, h₅, h₆, h₇, h₈, h₉, h₁₀, rfl⟩ :=
    new_eq_ok.mp h
  have hmem : ∀ hdr ∈ mmr.blockHeaders, hdr ∈ mmr'.blockHeaders := fun hdr hh =>
    let ⟨n, hn⟩ := ChainMmr.mem_blockHeaders.mp hh
    ChainMmr.mem_blockHeaders.mpr ⟨n, hb n hdr hn⟩
  have h₂' : checkChainMmr P bh mmr' = .ok () := by
    unfold checkChainMmr at h₂ ⊢; rwa [hlen, hpeaks]
  have h₃' : checkBlockReferences (blockReferences bh mmr') txs = .ok () :=
    checkBlockReferences_eq_ok.mpr fun tx htx =>
      match mem_blockReferences.mp (checkBlockReferences_eq_ok.mp h₃ tx htx) with
      | .inl he => mem_blockReferences.mpr (.inl he)
      | .inr ⟨hdr, hh, he⟩ => mem_blockReferences.mpr (.inr ⟨hdr, hmem hdr hh, he⟩)
  exact new_eq_ok.mpr ⟨acc, exp, nulls, T₀, kept, T', tree, h₁, h₂', h₃', h₄, h₅, h₆, h₇,
    reconcileInputNotes_of_more_blocks hb h₈, h₉, h₁₀, rfl⟩

/-- A chain of length two holding only its genesis block, whose note root is 20. -/
def genesisOnlyChainMmr : ChainMmr :=
  ⟨2, [7], (BTreeMap.new.insert 0 ⟨0, 0, 20, 111⟩).2, fun n h hg => by
    simp only [BTreeMap.get_insert, BTreeMap.get_new] at hg
    split_ifs at hg with hn
    cases hg
    exact ⟨hn.symm, hn ▸ by decide⟩⟩

/-- The same chain holding block 1 too. -/
def twoBlockChainMmr : ChainMmr :=
  ⟨2, [7], ((BTreeMap.new.insert 0 ⟨0, 0, 20, 111⟩).2.insert 1 provenBlockHeader).2,
    fun n h hg => by
      simp only [BTreeMap.get_insert, BTreeMap.get_new] at hg
      split_ifs at hg with h₁ h₀ <;> cases hg
      · exact ⟨h₁.symm, h₁ ▸ by decide⟩
      · exact ⟨h₀.symm, h₀ ▸ by decide⟩⟩

/-- The reference block closing the chain of length two. -/
def secondReferenceHeader : BlockHeader := ⟨2, 7, 0, 444⟩

/-- A transaction referencing the genesis block and consuming note 8, unauthenticated, with a
proof of it into the genesis block. -/
def genesisReferenceTransaction : ProvenTransaction :=
  ⟨3, 11, 111, 40, [⟨7, some ⟨8, 0⟩⟩], [], ⟨0, 0, 0⟩⟩

theorem sample_new_ok_of_more_blocks :
    ∃ b, new samplePrimitives sampleLimits [genesisReferenceTransaction] secondReferenceHeader
        genesisOnlyChainMmr provenNoteProofs = .ok b ∧
      new samplePrimitives sampleLimits [genesisReferenceTransaction] secondReferenceHeader
        twoBlockChainMmr provenNoteProofs = .ok { b with chainMmr := twoBlockChainMmr } := by
  obtain ⟨b, hb⟩ : ∃ b, new samplePrimitives sampleLimits [genesisReferenceTransaction]
      secondReferenceHeader genesisOnlyChainMmr provenNoteProofs = .ok b := ⟨_, rfl⟩
  refine ⟨b, hb, new_ok_of_more_blocks (by rfl) (by rfl) (fun n blk hn => ?_) hb⟩
  simp only [ChainMmr.getBlock, genesisOnlyChainMmr, twoBlockChainMmr, BTreeMap.get_insert,
    BTreeMap.get_new] at hn ⊢
  by_cases h₀ : n = 0
  · subst h₀; simpa using hn
  · simp [h₀] at hn

end MidenBatch.ProposedBatch
