import MidenBatch.Batch.Precedence

/-! What the errors of `ProposedBatch::new` name: the first transaction or input note in batch
order that fails its step, and the sizes after note surgery. -/
namespace MidenBatch.ProposedBatch
open List BatchOutputNoteTracker

variable {P : Primitives} {L : BatchLimits} {txs : List ProvenTransaction} {bh : BlockHeader}
  {mmr : ChainMmr} {proofs : BTreeMap NoteId NoteInclusionProof} {e : ProposedBatchError}

theorem aggregateStep_eq_error {acc : BTreeMap AccountId BatchAccountUpdate × BlockNumber}
    {tx : ProvenTransaction} : aggregateStep P acc tx = .error e ↔
      ∃ u s, acc.1.get tx.accountId = some u ∧ u.mergeProvenTx P tx = .error s ∧
        e = .accountUpdateError tx.accountId s := by
  unfold aggregateStep
  cases hg : acc.1.get tx.accountId with
  | none => simp
  | some u =>
    cases hm : u.mergeProvenTx P tx with
    | ok merged => simp [hm]
    | error s => simp [hm, eq_comm]

/-- `AccountUpdateError` names the account of the first transaction, in batch order, that does
not merge into the aggregate of its account's earlier transactions, with the merge's error; every
account's transactions before it aggregate. -/
theorem accountUpdateError_names_first_failing_merge :
    ∀ a s, new P L txs bh mmr proofs = .error (.accountUpdateError a s) →
      ∃ pre tx post u, txs = pre ++ tx :: post ∧ tx.accountId = a ∧
        (∀ b, ∃ o, chainUpdate P (accountTransactions pre b) = .ok o) ∧
        chainUpdate P (accountTransactions pre a) = .ok (some u) ∧
        u.mergeProvenTx P tx = .error s := by
  intro a s h
  obtain ⟨pre, tx, post, acc, rfl, hpre, hs⟩ := foldlM_eq_error (new_error_stepFails h)
  obtain ⟨u, s', hu, hm, he⟩ := aggregateStep_eq_error.mp hs
  cases he
  have hinv : Aggregates P pre acc := by simpa using aggregates_run aggregates_nil hpre
  exact ⟨pre, tx, post, u, rfl, rfl, fun b => ⟨_, hinv.updates b⟩, hu ▸ hinv.updates _, hm⟩


/-- A third transaction on the sample account, starting from a state the second does not end in. -/
def unchainedTransaction : ProvenTransaction := ⟨9, 10, 222, 30, [], [], ⟨5, 6, 0⟩⟩

theorem sample_accountUpdateError :
    new samplePrimitives sampleLimits (sampleTransactions ++ [unchainedTransaction])
        sampleBlockHeader sampleChainMmr .new =
      .error (.accountUpdateError 10 (.accountUpdateInitialStateMismatch 9)) ∧
    ∃ pre tx post u, sampleTransactions ++ [unchainedTransaction] = pre ++ tx :: post ∧
      tx.accountId = 10 ∧
      (∀ b, ∃ o, chainUpdate samplePrimitives (accountTransactions pre b) = .ok o) ∧
      chainUpdate samplePrimitives (accountTransactions pre 10) = .ok (some u) ∧
      u.mergeProvenTx samplePrimitives tx = .error (.accountUpdateInitialStateMismatch 9) := by
  have h : new samplePrimitives sampleLimits (sampleTransactions ++ [unchainedTransaction])
      sampleBlockHeader sampleChainMmr .new =
        .error (.accountUpdateError 10 (.accountUpdateInitialStateMismatch 9)) := rfl
  exact ⟨h, accountUpdateError_names_first_failing_merge _ _ h⟩

/-- How an input note fails its check against the batch, with the error `new` raises for it:
its header names a note the batch creates, with another hash; or the batch does not create it
and its proof's block is not in the chain MMR, or the proof does not verify there. -/
def InputNoteFails (P : Primitives) (mmr : ChainMmr) (proofs : BTreeMap NoteId NoteInclusionProof)
    (txs : List ProvenTransaction) (c : InputNoteCommitment) (e : ProposedBatchError) : Prop :=
  ∃ h, c.header = some h ∧
    ((∃ o ∈ allOutputNotes txs, o.id = h.id ∧ o.hash P ≠ h.hash P ∧
        e = .noteHashesMismatch h.id (h.hash P) (o.hash P)) ∨
     (h.id ∉ createdNoteIds txs ∧ ∃ p, proofs.get h.id = some p ∧
        ((mmr.getBlock p.location.blockNum = none ∧
            e = .unauthenticatedInputNoteBlockNotInChainMmr p.location.blockNum h.id) ∨
         ∃ b s, mmr.getBlock p.location.blockNum = some b ∧
           P.verifyPath p.notePath p.location.nodeIndexInBlock.val (h.hash P) b.noteRoot =
             .error s ∧
           e = .unauthenticatedNoteAuthenticationFailed h.id p.location.blockNum s)))

theorem inputNoteFails_of_noteFailure {T₀ : BatchOutputNoteTracker} {c : InputNoteCommitment}
    (hnd : (createdNoteIds txs).Nodup)
    (hT₀ : ∀ k, T₀.outputNotes.get k = (outputNoteEntries txs).dlookup k)
    (hf : NoteFailure P mmr proofs T₀ c e) : InputNoteFails P mmr proofs txs c e := by
  obtain ⟨h, hc, hf⟩ := hf
  refine ⟨h, hc, ?_⟩
  cases hg : T₀.outputNotes.get h.id with
  | some entry =>
    obtain ⟨i, o⟩ := entry
    rw [hg] at hf
    obtain ⟨hne, rfl⟩ := hf
    obtain ⟨tx, htx, ho, hid, -⟩ := (dlookup_outputNoteEntries hnd).mp ((hT₀ h.id).symm.trans hg)
    exact .inl ⟨o, mem_flatMap.mpr ⟨tx, htx, ho⟩, hid, hne, rfl⟩
  | none =>
    rw [hg] at hf
    obtain ⟨p, hp, hf⟩ := hf
    have hcr : h.id ∉ createdNoteIds txs := fun hm => by
      have : (T₀.outputNotes.get h.id).isSome := by
        rw [hT₀, dlookup_isSome, keys_outputNoteEntries]; exact hm
      simp [hg] at this
    refine .inr ⟨hcr, p, hp, ?_⟩
    cases hb : mmr.getBlock p.location.blockNum with
    | none => rw [hb] at hf; exact .inl ⟨rfl, hf⟩
    | some b =>
      rw [hb] at hf
      obtain ⟨s, hs, rfl⟩ := hf
      exact .inr ⟨b, s, rfl, hs, rfl⟩

/-- An error of the note reconciliation step (`NoteHashesMismatch`,
`UnauthenticatedInputNoteBlockNotInChainMmr`, `UnauthenticatedNoteAuthenticationFailed`) names
the first input note, in batch order, that fails its check; every input note before it passes. -/
theorem note_errors_name_first_failing_note (ha : HeaderNullifiersAgree txs)
    (h : new P L txs bh mmr proofs = .error e) (hk : e.phase = 7) :
    ∃ pre c post, allInputNotes txs = pre ++ c :: post ∧
      (∀ c' ∈ pre, InputNoteOk P mmr proofs txs c') ∧ InputNoteFails P mmr proofs txs c e := by
  obtain ⟨hb, -⟩ := new_error_passes ha h
  have hnull : PhaseOk P L txs bh mmr proofs 5 := hb 5 (by omega)
  have hout : PhaseOk P L txs bh mmr proofs 6 := hb 6 (by omega)
  have hstep := new_error_stepFails h
  rw [hk] at hstep
  obtain ⟨T₀, hT₀, hr⟩ := hstep
  obtain ⟨pre, c, post, hl, hpre, hf⟩ := reconcileInputNotes_error (q := [])
    (show ∀ k, T₀.outputNotes.get k = if k ∈ headerNoteIds [] then none
      else T₀.outputNotes.get k by simp [headerNoteIds])
    (by simpa using ha.headerNoteIds_nodup hnull) hr
  exact ⟨pre, c, post, hl, fun c' hc' => (noteChecks_iff hout (get_new hT₀) c').mp (hpre c' hc'),
    inputNoteFails_of_noteFailure hout (get_new hT₀) hf⟩

/-- A transaction on a third account consuming note 4, unauthenticated, with metadata other than
the note the sample batch creates. -/
def mismatchedHeaderTransaction : ProvenTransaction :=
  ⟨7, 14, 222, 30, [⟨8, some ⟨4, 5⟩⟩], [], ⟨0, 1, 0⟩⟩

theorem sample_note_errors :
    HeaderNullifiersAgree (sampleTransactions ++ [mismatchedHeaderTransaction]) ∧
    new samplePrimitives sampleLimits (sampleTransactions ++ [mismatchedHeaderTransaction])
      sampleBlockHeader sampleChainMmr .new = .error (.noteHashesMismatch 4 5004 4) ∧
    ∃ pre c post, allInputNotes (sampleTransactions ++ [mismatchedHeaderTransaction]) =
        pre ++ c :: post ∧
      (∀ c' ∈ pre, InputNoteOk samplePrimitives sampleChainMmr .new
        (sampleTransactions ++ [mismatchedHeaderTransaction]) c') ∧
      InputNoteFails samplePrimitives sampleChainMmr .new
        (sampleTransactions ++ [mismatchedHeaderTransaction]) c (.noteHashesMismatch 4 5004 4) := by
  have ha : HeaderNullifiersAgree (sampleTransactions ++ [mismatchedHeaderTransaction]) := by
    simp [HeaderNullifiersAgree, allInputNotes, sampleTransactions, mismatchedHeaderTransaction]
  have h : new samplePrimitives sampleLimits (sampleTransactions ++ [mismatchedHeaderTransaction])
      sampleBlockHeader sampleChainMmr .new = .error (.noteHashesMismatch 4 5004 4) := rfl
  exact ⟨ha, h, note_errors_name_first_failing_note ha h rfl⟩

/-- The size errors report the sizes after note surgery, each over its limit: the number of
distinct accounts, the input notes left at the batch boundary, and the output notes the batch
does not consume itself. -/
theorem limit_errors_report_sizes (ha : HeaderNullifiersAgree txs) :
    (∀ n, new P L txs bh mmr proofs = .error (.tooManyAccountUpdates n) →
      n = (txs.map (·.accountId)).dedup.length ∧ L.maxAccountsPerBatch < n) ∧
    (∀ n, new P L txs bh mmr proofs = .error (.tooManyInputNotes n) →
      n = (expectedInputNotes txs proofs).length ∧ L.maxInputNotesPerBatch < n) ∧
    (∀ n, new P L txs bh mmr proofs = .error (.tooManyOutputNotes n) →
      n = (remainingOutputNotes txs).length ∧ L.maxOutputNotesPerBatch < n) := by
  refine ⟨fun n h => ?_, fun n h => ?_, fun n h => ?_⟩
  · obtain ⟨acc, hacc, hlen⟩ := new_error_stepFails h
    obtain ⟨hlt, he⟩ := checkAccountUpdatesLen_eq_error.mp hlen
    cases he
    exact ⟨(aggregateAccountUpdates_aggregates hacc).len_eq, hlt⟩
  · have hnull : PhaseOk P L txs bh mmr proofs 5 :=
      (new_error_passes ha h).1 5 (by simp [ProposedBatchError.phase])
    obtain ⟨T, ⟨kept, T'⟩, hT, hr, hlen⟩ := new_error_stepFails h
    obtain ⟨rfl, -, -⟩ := reconcile_batch ha hnull hT hr
    obtain ⟨hlt, he⟩ := checkInputNotesLen_eq_error.mp hlen
    cases he
    exact ⟨rfl, hlt⟩
  · have hb := (new_error_passes ha h).1
    have hnull : PhaseOk P L txs bh mmr proofs 5 := hb 5 (by simp [ProposedBatchError.phase])
    have hout : PhaseOk P L txs bh mmr proofs 6 := hb 6 (by simp [ProposedBatchError.phase])
    obtain ⟨T, ⟨kept, T'⟩, hT, hr, htree⟩ := new_error_stepFails h
    obtain ⟨-, -, hT'⟩ := reconcile_batch ha hnull hT hr
    have hlen := (intoNotes_of_get hout hT').2.length_eq
    obtain ⟨hlt, he⟩ := buildOutputNotesTree_eq_error.mp htree
    cases he
    exact ⟨hlen, hlt⟩

/-- A transaction on a fourth account creating four more notes: with the sample batch, six notes
are created and one is consumed in the batch. -/
def manyNotesTransaction : ProvenTransaction :=
  ⟨8, 15, 222, 30, [], [⟨5, 0⟩, ⟨6, 0⟩, ⟨7, 0⟩, ⟨8, 0⟩], ⟨0, 1, 0⟩⟩

theorem sample_limit_errors :
    HeaderNullifiersAgree (sampleTransactions ++ [manyNotesTransaction]) ∧
    new samplePrimitives sampleLimits (sampleTransactions ++ [manyNotesTransaction])
      sampleBlockHeader sampleChainMmr .new = .error (.tooManyOutputNotes 5) ∧
    5 = (remainingOutputNotes (sampleTransactions ++ [manyNotesTransaction])).length ∧
    sampleLimits.maxOutputNotesPerBatch < 5 := by
  have ha : HeaderNullifiersAgree (sampleTransactions ++ [manyNotesTransaction]) := by
    simp [HeaderNullifiersAgree, allInputNotes, sampleTransactions, manyNotesTransaction]
  have h : new samplePrimitives sampleLimits (sampleTransactions ++ [manyNotesTransaction])
      sampleBlockHeader sampleChainMmr .new = .error (.tooManyOutputNotes 5) := rfl
  exact ⟨ha, h, (limit_errors_report_sizes ha).2.2 5 h⟩

end MidenBatch.ProposedBatch
