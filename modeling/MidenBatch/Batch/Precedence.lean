import MidenBatch.Batch.Errors

/-! The checks of `ProposedBatch::new` in the order it runs them. An error of step `k` means
every earlier check passed and check `k` failed, and conversely: the first failing check is the
one reported. -/
namespace MidenBatch.ProposedBatch
open List BatchOutputNoteTracker

variable {P : Primitives} {L : BatchLimits} {txs : List ProvenTransaction} {bh : BlockHeader}
  {mmr : ChainMmr} {proofs : BTreeMap NoteId NoteInclusionProof} {e : ProposedBatchError}

/-- The check of one input note against the batch: a header naming a note the batch creates
carries that note's hash, and a supplied proof of a note it does not create verifies in a block
of the chain MMR. -/
def InputNoteOk (P : Primitives) (mmr : ChainMmr) (proofs : BTreeMap NoteId NoteInclusionProof)
    (txs : List ProvenTransaction) (c : InputNoteCommitment) : Prop :=
  ∀ h, c.header = some h →
    (∀ o ∈ allOutputNotes txs, o.id = h.id → o.hash P = h.hash P) ∧
    (h.id ∉ createdNoteIds txs → ∀ p, proofs.get h.id = some p →
      ∃ b, mmr.getBlock p.location.blockNum = some b ∧
        P.verifyPath p.notePath p.location.nodeIndexInBlock.val (h.hash P) b.noteRoot = .ok ())

/-- The condition step `k` of `new` checks, stated on the inputs, with the steps numbered as
`ProposedBatchError.phase` numbers their errors. -/
def PhaseOk (P : Primitives) (L : BatchLimits) (txs : List ProvenTransaction) (bh : BlockHeader)
    (mmr : ChainMmr) (proofs : BTreeMap NoteId NoteInclusionProof) : Nat → Prop
  | 0 => txs ≠ [] ∧ (txs.map (·.id)).Nodup
  | 1 => mmr.chainLength = bh.blockNum ∧ P.hashPeaks mmr.peaks = bh.chainRoot
  | 2 => ∀ tx ∈ txs, tx.blockRef = bh.hash ∨ ∃ h ∈ mmr.blockHeaders, h.hash = tx.blockRef
  | 3 => ∀ a, ∃ o, chainUpdate P (accountTransactions txs a) = .ok o
  | 4 => (txs.map (·.accountId)).dedup.length ≤ L.maxAccountsPerBatch
  | 5 => ((allInputNotes txs).map (·.nullifier)).Nodup
  | 6 => (createdNoteIds txs).Nodup
  | 7 => ∀ c ∈ allInputNotes txs, InputNoteOk P mmr proofs txs c
  | 8 => (expectedInputNotes txs proofs).length ≤ L.maxInputNotesPerBatch
  | _ => (remainingOutputNotes txs).length ≤ L.maxOutputNotesPerBatch

/-- How step `k` of `new` fails with `e`, given the values the steps before it computed. -/
def StepFails (P : Primitives) (L : BatchLimits) (txs : List ProvenTransaction) (bh : BlockHeader)
    (mmr : ChainMmr) (proofs : BTreeMap NoteId NoteInclusionProof) (e : ProposedBatchError) :
    Nat → Prop
  | 0 => checkTransactions txs = .error e
  | 1 => checkChainMmr P bh mmr = .error e
  | 2 => checkBlockReferences (blockReferences bh mmr) txs = .error e
  | 3 => aggregateAccountUpdates P txs = .error e
  | 4 => ∃ acc, aggregateAccountUpdates P txs = .ok acc ∧ checkAccountUpdatesLen L acc.1 = .error e
  | 5 => checkInputNotes txs = .error e
  | 6 => BatchOutputNoteTracker.new txs = .error e
  | 7 => ∃ T, BatchOutputNoteTracker.new txs = .ok T ∧
      reconcileInputNotes P mmr proofs T (allInputNotes txs) = .error e
  | 8 => ∃ T r, BatchOutputNoteTracker.new txs = .ok T ∧
      reconcileInputNotes P mmr proofs T (allInputNotes txs) = .ok r ∧
      checkInputNotesLen L r.1 = .error e
  | _ => ∃ T r, BatchOutputNoteTracker.new txs = .ok T ∧
      reconcileInputNotes P mmr proofs T (allInputNotes txs) = .ok r ∧
      buildOutputNotesTree L r.2.intoNotes = .error e

/-- An error of `new` is how the step of its phase fails. -/
theorem new_error_stepFails (h : new P L txs bh mmr proofs = .error e) :
    StepFails P L txs bh mmr proofs e e.phase := by
  rcases new_error_cases h with ⟨hk, h⟩ | ⟨hk, h⟩ | ⟨hk, h⟩ | ⟨hk, h⟩ | ⟨hk, h⟩ | ⟨hk, h⟩ |
    ⟨hk, h⟩ | ⟨hk, h⟩ | ⟨hk, h⟩ | ⟨hk, h⟩ <;> rw [hk] <;> exact h

theorem ProposedBatchError.phase_le (e : ProposedBatchError) : e.phase ≤ 9 := by
  cases e <;> simp [ProposedBatchError.phase]

/-- `Accepts` is the conjunction of the ten checks. -/
theorem accepts_iff_phaseOk :
    Accepts P L mmr.getBlock txs bh mmr proofs ↔ ∀ k ≤ 9, PhaseOk P L txs bh mmr proofs k := by
  constructor
  · intro h k hk
    interval_cases k
    exacts [⟨h.nonempty, h.ids_nodup⟩, ⟨h.chain_length, h.chain_root⟩, h.block_refs,
      fun a => (chainUpdate_ok_iff _).mpr ⟨h.accounts_chain a, h.details_merge a⟩, h.accounts_le,
      h.nullifiers_nodup, h.output_ids_nodup,
      fun c hc hd hh => ⟨h.created_hashes c hc hd hh, h.proofs_verify c hc hd hh⟩,
      h.input_notes_le, h.output_notes_le]
  · intro h
    have h3 : PhaseOk P L txs bh mmr proofs 3 := h 3 (by omega)
    have h7 : PhaseOk P L txs bh mmr proofs 7 := h 7 (by omega)
    exact {
      nonempty := (h 0 (by omega)).1
      ids_nodup := (h 0 (by omega)).2
      chain_length := (h 1 (by omega)).1
      chain_root := (h 1 (by omega)).2
      block_refs := h 2 (by omega)
      accounts_chain := fun a => ((chainUpdate_ok_iff _).mp (h3 a)).1
      details_merge := fun a => ((chainUpdate_ok_iff _).mp (h3 a)).2
      accounts_le := h 4 (by omega)
      nullifiers_nodup := h 5 (by omega)
      output_ids_nodup := h 6 (by omega)
      created_hashes := fun c hc hd hh => (h7 c hc hd hh).1
      proofs_verify := fun c hc hd hh => (h7 c hc hd hh).2
      input_notes_le := h 8 (by omega)
      output_notes_le := h 9 (by omega) }

theorem checkAccountUpdatesLen_eq_error {m : BTreeMap AccountId BatchAccountUpdate} :
    checkAccountUpdatesLen L m = .error e ↔
      L.maxAccountsPerBatch < m.len ∧ e = .tooManyAccountUpdates m.len := by
  unfold checkAccountUpdatesLen; split_ifs with h <;> simp [h, eq_comm]

theorem checkInputNotesLen_eq_error {notes : List InputNoteCommitment} :
    checkInputNotesLen L notes = .error e ↔
      L.maxInputNotesPerBatch < notes.length ∧ e = .tooManyInputNotes notes.length := by
  unfold checkInputNotesLen; split_ifs with h <;> simp [h, eq_comm]

theorem buildOutputNotesTree_eq_error {notes : List OutputNote} :
    buildOutputNotesTree L notes = .error e ↔
      L.maxOutputNotesPerBatch < notes.length ∧ e = .tooManyOutputNotes notes.length := by
  unfold buildOutputNotesTree; split_ifs with h <;> simp [h, eq_comm]

/-- The reconciliation loop over the batch's input notes succeeds once the notes pass the
note checks, as `new_ok_iff_accepts` runs it. -/
theorem reconcile_batch_ok_of (ha : HeaderNullifiersAgree txs)
    (hnull : ((allInputNotes txs).map (·.nullifier)).Nodup) (hout : (createdNoteIds txs).Nodup)
    {T₀ : BatchOutputNoteTracker} (hT₀ : BatchOutputNoteTracker.new txs = .ok T₀)
    (hchecks : PhaseOk P L txs bh mmr proofs 7) :
    ∃ r, reconcileInputNotes P mmr proofs T₀ (allInputNotes txs) = .ok r :=
  reconcileInputNotes_ok_of (q := [])
    (show ∀ k, T₀.outputNotes.get k = if k ∈ headerNoteIds [] then none
      else T₀.outputNotes.get k by simp [headerNoteIds])
    (by simpa using ha.headerNoteIds_nodup hnull) fun c hc =>
      (noteChecks_iff hout (get_new hT₀) c).mpr (hchecks c hc)

private theorem passes_succ {Q : Nat → Prop} {j : Nat} (h : ∀ i < j, Q i) (hj : Q j) :
    ∀ i < j + 1, Q i :=
  fun i hi => (Nat.lt_succ_iff_lt_or_eq.mp hi).elim (h i) (· ▸ hj)

private theorem fails_at {Q : Nat → Prop} {j : Nat} (hb : ∀ i < j, Q i) (he : e.phase = j)
    (hf : ¬ Q j) : (∀ i < e.phase, Q i) ∧ ¬ Q e.phase :=
  he ▸ ⟨hb, hf⟩

/-- An error of `new` certifies every check before its step, and its own step's check fails. -/
theorem new_error_passes (ha : HeaderNullifiersAgree txs)
    (h : new P L txs bh mmr proofs = .error e) :
    (∀ i < e.phase, PhaseOk P L txs bh mmr proofs i) ∧ ¬ PhaseOk P L txs bh mmr proofs e.phase := by
  have hb₀ : ∀ i < 0, PhaseOk P L txs bh mmr proofs i := by simp
  obtain h₀ | ⟨⟨⟩, h₁, h⟩ := bind_eq_error.mp h
  · exact fails_at hb₀ (checkTransactions_error_phase h₀) fun hok => by
      rw [checkTransactions_eq_ok.mpr hok] at h₀; cases h₀
  have hb₁ := passes_succ hb₀ (checkTransactions_eq_ok.mp h₁)
  obtain h₀ | ⟨⟨⟩, h₂, h⟩ := bind_eq_error.mp h
  · exact fails_at hb₁ (checkChainMmr_error_phase h₀) fun hok => by
      rw [checkChainMmr_eq_ok.mpr hok] at h₀; cases h₀
  have hb₂ := passes_succ hb₁ (checkChainMmr_eq_ok.mp h₂)
  obtain h₀ | ⟨⟨⟩, h₃, h⟩ := bind_eq_error.mp h
  · exact fails_at hb₂ (checkBlockReferences_error_phase h₀) fun hok => by
      rw [checkBlockReferences_eq_ok.mpr fun tx htx => mem_blockReferences.mpr (hok tx htx)]
        at h₀
      cases h₀
  have hb₃ := passes_succ hb₂ fun tx htx =>
    mem_blockReferences.mp (checkBlockReferences_eq_ok.mp h₃ tx htx)
  obtain h₀ | ⟨⟨accountUpdates, expiration⟩, h₄, h⟩ := bind_eq_error.mp h
  · exact fails_at hb₃ (aggregateAccountUpdates_error_phase h₀) fun hok => by
      obtain ⟨acc, hacc⟩ := aggregateAccountUpdates_ok_of hok
      rw [hacc] at h₀; cases h₀
  have hagg := aggregateAccountUpdates_aggregates h₄
  have hb₄ := passes_succ hb₃ fun a => ⟨_, hagg.updates a⟩
  obtain h₀ | ⟨⟨⟩, h₅, h⟩ := bind_eq_error.mp h
  · exact fails_at hb₄ (checkAccountUpdatesLen_error_phase h₀) fun hok => by
      rw [checkAccountUpdatesLen_eq_ok.mpr (hagg.len_eq ▸ hok)] at h₀; cases h₀
  have h₅' : (txs.map (·.accountId)).dedup.length ≤ L.maxAccountsPerBatch :=
    hagg.len_eq ▸ checkAccountUpdatesLen_eq_ok.mp h₅
  have hb₅ := passes_succ hb₄ h₅'
  obtain h₀ | ⟨_, h₆, h⟩ := bind_eq_error.mp h
  · exact fails_at hb₅ (checkInputNotes_error_phase h₀) fun hok => by
      obtain ⟨m, hm⟩ := checkInputNotes_ok_iff.mpr hok
      rw [hm] at h₀; cases h₀
  have hnull := checkInputNotes_ok_iff.mp ⟨_, h₆⟩
  have hb₆ := passes_succ hb₅ hnull
  obtain h₀ | ⟨T₀, h₇, h⟩ := bind_eq_error.mp h
  · exact fails_at hb₆ (trackerNew_error_phase h₀) fun hok => by
      obtain ⟨T, hT⟩ := (BatchOutputNoteTracker.new_ok_iff txs).mpr hok
      rw [hT] at h₀; cases h₀
  have hout := (BatchOutputNoteTracker.new_ok_iff txs).mp ⟨_, h₇⟩
  have hb₇ := passes_succ hb₆ hout
  obtain h₀ | ⟨⟨kept, T'⟩, h₈, h⟩ := bind_eq_error.mp h
  · exact fails_at hb₇ (reconcileInputNotes_error_phase h₀) fun hok => by
      obtain ⟨r, hr⟩ := reconcile_batch_ok_of ha hnull hout h₇ hok
      rw [allInputNotes] at hr
      rw [hr] at h₀; cases h₀
  obtain ⟨rfl, hchecks, hT'⟩ := reconcile_batch ha hnull h₇ h₈
  have hb₈ := passes_succ hb₇ fun c hc => (noteChecks_iff hout (get_new h₇) c).mp (hchecks c hc)
  obtain h₀ | ⟨⟨⟩, h₉, h⟩ := bind_eq_error.mp h
  · exact fails_at hb₈ (checkInputNotesLen_error_phase h₀) fun hok => by
      rw [checkInputNotesLen_eq_ok.mpr hok] at h₀; cases h₀
  have hb₉ := passes_succ hb₈ (checkInputNotesLen_eq_ok.mp h₉)
  obtain h₀ | ⟨_, -, h⟩ := bind_eq_error.mp h
  · refine fails_at hb₉ (buildOutputNotesTree_error_phase h₀) fun hok => ?_
    have hlen := (intoNotes_of_get hout hT').2.length_eq
    exact absurd (buildOutputNotesTree_eq_error.mp h₀).1 (not_lt.mpr (hlen ▸ hok))
  · cases h

/-- When the checks before step `k` pass and check `k` fails, `new` fails at step `k`. -/
theorem new_error_of_first_failure (ha : HeaderNullifiersAgree txs) {k : Nat} (hk : k ≤ 9)
    (hb : ∀ i < k, PhaseOk P L txs bh mmr proofs i) (hf : ¬ PhaseOk P L txs bh mmr proofs k) :
    ∃ e, new P L txs bh mmr proofs = .error e ∧ e.phase = k := by
  cases h : new P L txs bh mmr proofs with
  | ok b => exact absurd (accepts_iff_phaseOk.mp ((new_ok_iff_accepts ha).mp ⟨b, h⟩) k hk) hf
  | error e =>
    obtain ⟨hb', hf'⟩ := new_error_passes ha h
    refine ⟨e, rfl, ?_⟩
    rcases lt_trichotomy e.phase k with hlt | heq | hgt
    · exact absurd (hb _ hlt) hf'
    · exact heq
    · exact absurd (hb' _ hgt) hf

/-- `new` fails with an error of step `k` exactly when the checks of all earlier steps pass
and the check of step `k` fails: the steps run in order and the first failing one reports. -/
theorem new_error_phase_iff (ha : HeaderNullifiersAgree txs) {k : Nat} (hk : k ≤ 9) :
    (∃ e, new P L txs bh mmr proofs = .error e ∧ e.phase = k) ↔
      (∀ i < k, PhaseOk P L txs bh mmr proofs i) ∧ ¬ PhaseOk P L txs bh mmr proofs k :=
  ⟨fun ⟨_, h, hk'⟩ => hk' ▸ new_error_passes ha h,
    fun ⟨hb, hf⟩ => new_error_of_first_failure ha hk hb hf⟩

theorem sample_new_error_phase :
    HeaderNullifiersAgree doubleSpendTransactions ∧
    (∀ i < 5, PhaseOk samplePrimitives sampleLimits doubleSpendTransactions sampleBlockHeader
      sampleChainMmr .new i) ∧
    ¬ PhaseOk samplePrimitives sampleLimits doubleSpendTransactions sampleBlockHeader
      sampleChainMmr .new 5 := by
  have ha : HeaderNullifiersAgree doubleSpendTransactions := by
    simp [HeaderNullifiersAgree, allInputNotes, doubleSpendTransactions]
  have h : new samplePrimitives sampleLimits doubleSpendTransactions sampleBlockHeader
      sampleChainMmr .new = .error (.duplicateInputNote 9 50 51) := rfl
  exact ⟨ha, (new_error_phase_iff ha (by decide)).mp ⟨_, h, rfl⟩⟩

theorem phaseOk_of_reorder {txs' : List ProvenTransaction} (hp : txs.Perm txs')
    (hacc : ∀ a, accountTransactions txs' a = accountTransactions txs a) :
    ∀ k, PhaseOk P L txs bh mmr proofs k → PhaseOk P L txs' bh mmr proofs k
  | 0, h => ⟨fun he => h.1 (he ▸ hp).eq_nil, (hp.map _).nodup_iff.mp h.2⟩
  | 1, h => ⟨h.1, h.2⟩
  | 2, h => fun tx htx => h tx (hp.mem_iff.mpr htx)
  | 3, h => fun a => hacc a ▸ h a
  | 4, h => (hp.map ProvenTransaction.accountId).dedup.length_eq.symm.trans_le h
  | 5, h => ((allInputNotes_perm hp).map _).nodup_iff.mp h
  | 6, h => ((allOutputNotes_perm hp).map _).nodup_iff.mp h
  | 7, h => fun c hc hd hhd =>
    have hc' := h c ((allInputNotes_perm hp).mem_iff.mpr hc) hd hhd
    ⟨fun o ho => hc'.1 o ((allOutputNotes_perm hp).mem_iff.mpr ho),
      fun hn => hc'.2 fun hm => hn ((mem_createdNoteIds_perm hp _).mp hm)⟩
  | 8, h => (expectedInputNotes_perm hp).length_eq.symm.trans_le h
  | _ + 9, h => (remainingOutputNotes_perm hp).length_eq.symm.trans_le h

/-- Reordering the transactions, each account's kept in order, keeps the step at which `new`
fails: the other order fails too, with an error of the same kind of check. -/
theorem new_error_reorder {txs' : List ProvenTransaction} (ha : HeaderNullifiersAgree txs)
    (hp : txs.Perm txs') (hacc : ∀ a, accountTransactions txs' a = accountTransactions txs a)
    (h : new P L txs bh mmr proofs = .error e) :
    ∃ e', new P L txs' bh mmr proofs = .error e' ∧ e'.phase = e.phase := by
  obtain ⟨hb, hf⟩ := new_error_passes ha h
  exact new_error_of_first_failure (ha.of_perm hp) (ProposedBatchError.phase_le e)
    (fun i hi => phaseOk_of_reorder hp hacc i (hb i hi))
    fun hok => hf (phaseOk_of_reorder hp.symm (fun a => (hacc a).symm) _ hok)

theorem sample_new_error_reorder :
    HeaderNullifiersAgree (doubleSpendTransactions ++ sampleTransactions) ∧
    new samplePrimitives sampleLimits (doubleSpendTransactions ++ sampleTransactions)
      sampleBlockHeader sampleChainMmr .new = .error (.duplicateInputNote 9 50 51) ∧
    ∃ e', new samplePrimitives sampleLimits (sampleTransactions ++ doubleSpendTransactions)
      sampleBlockHeader sampleChainMmr .new = .error e' ∧ e'.phase = 5 := by
  have ha : HeaderNullifiersAgree (doubleSpendTransactions ++ sampleTransactions) := by
    simp [HeaderNullifiersAgree, allInputNotes, sampleTransactions, doubleSpendTransactions]
  have hacc : ∀ a, accountTransactions (sampleTransactions ++ doubleSpendTransactions) a =
      accountTransactions (doubleSpendTransactions ++ sampleTransactions) a := by
    intro a
    by_cases h₁₀ : a = 10
    · subst h₁₀; simp [accountTransactions, sampleTransactions, doubleSpendTransactions]
    · simp [accountTransactions, sampleTransactions, Ne.symm h₁₀]
  have h : new samplePrimitives sampleLimits (doubleSpendTransactions ++ sampleTransactions)
      sampleBlockHeader sampleChainMmr .new = .error (.duplicateInputNote 9 50 51) := rfl
  exact ⟨ha, h, new_error_reorder ha perm_append_comm hacc h⟩

end MidenBatch.ProposedBatch
