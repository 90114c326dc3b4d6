import MidenBatch.Batch.ProposedBatch

/-! What `ProposedBatch::new` is for, stated without its loops and maps: the inputs it accepts
(the conditions its doc comment lists under `# Inputs` and `# Errors`, lines 60-111) and the
batch it should build from them. -/
namespace MidenBatch.ProposedBatch

/-- The input notes of all transactions, in batch order. -/
def allInputNotes (transactions : List ProvenTransaction) : List InputNoteCommitment :=
  transactions.flatMap (·.inputNotes)

/-- The output notes of all transactions, in batch order. -/
def allOutputNotes (transactions : List ProvenTransaction) : List OutputNote :=
  transactions.flatMap (·.outputNotes)

/-- The ids of the notes the batch creates. -/
def createdNoteIds (transactions : List ProvenTransaction) : List NoteId :=
  (allOutputNotes transactions).map (·.id)

/-- The ids carried by the headers of the batch's unauthenticated input notes. -/
def headerNoteIds (notes : List InputNoteCommitment) : List NoteId :=
  notes.filterMap fun c => c.header.map (·.id)

/-- A note's nullifier is determined by the note: input notes whose headers carry the same
id have the same nullifier. -/
def HeaderNullifiersAgree (transactions : List ProvenTransaction) : Prop :=
  ∀ c ∈ allInputNotes transactions, ∀ c' ∈ allInputNotes transactions, ∀ h h',
    c.header = some h → c'.header = some h' → h.id = h'.id → c.nullifier = c'.nullifier

/-- What an input note becomes at the batch boundary: dropped when the batch creates it, its
header erased when a proof is supplied, and kept unchanged otherwise. -/
def batchInputNote (created : List NoteId) (proofs : BTreeMap NoteId NoteInclusionProof)
    (c : InputNoteCommitment) : Option InputNoteCommitment :=
  match c.header with
  | none => some c
  | some h =>
    if h.id ∈ created then none
    else if (proofs.get h.id).isSome then some (.ofNullifier c.nullifier)
    else some c

theorem batchInputNote_nullifier {created : List NoteId} {proofs : BTreeMap NoteId NoteInclusionProof}
    {c c' : InputNoteCommitment} (h : batchInputNote created proofs c = some c') :
    c'.nullifier = c.nullifier := by
  unfold batchInputNote at h
  split at h
  · cases h; rfl
  · split_ifs at h <;> cases h <;> rfl

theorem batchInputNote_header {created : List NoteId} {proofs : BTreeMap NoteId NoteInclusionProof}
    {c c' : InputNoteCommitment} {hd : NoteHeader} (h : batchInputNote created proofs c = some c')
    (hc : c'.header = some hd) : c.header = some hd ∧ hd.id ∉ created := by
  unfold batchInputNote at h
  split at h
  · cases h; simp_all
  · rename_i h' hh
    split_ifs at h with h₁ h₂ <;> cases h
    · simp [InputNoteCommitment.ofNullifier] at hc
    · obtain rfl := Option.some.inj (hc.symm.trans hh)
      exact ⟨hh, h₁⟩

/-- Dropping notes and erasing headers keeps the remaining nullifiers, in order. -/
theorem filterMap_batchInputNote_nullifiers (created : List NoteId)
    (proofs : BTreeMap NoteId NoteInclusionProof) (l : List InputNoteCommitment) :
    ((l.filterMap (batchInputNote created proofs)).map (·.nullifier)).Sublist
      (l.map (·.nullifier)) := by
  induction l with
  | nil => simp
  | cons c l ih =>
    rw [List.filterMap_cons]
    cases hc : batchInputNote created proofs c with
    | none => exact ih.cons _
    | some c' => simpa [batchInputNote_nullifier hc] using ih

/-- The batch's input notes. -/
def expectedInputNotes (transactions : List ProvenTransaction)
    (proofs : BTreeMap NoteId NoteInclusionProof) : List InputNoteCommitment :=
  (allInputNotes transactions).filterMap (batchInputNote (createdNoteIds transactions) proofs)

/-- The notes the batch creates and does not consume itself. -/
def remainingOutputNotes (transactions : List ProvenTransaction) : List OutputNote :=
  (allOutputNotes transactions).filter fun o => o.id ∉ headerNoteIds (allInputNotes transactions)

/-- The aggregate of one account's transactions in order: none for no transaction, an error
when two consecutive ones do not merge. -/
def chainUpdate (P : Primitives) :
    List ProvenTransaction → Except BatchAccountUpdateError (Option BatchAccountUpdate)
  | [] => .ok none
  | t :: ts => some <$> ts.foldlM (BatchAccountUpdate.mergeProvenTx P) (.fromTransaction t)

/-- The transactions of the batch on account `a`, in batch order. -/
def accountTransactions (transactions : List ProvenTransaction) (a : AccountId) :
    List ProvenTransaction :=
  transactions.filter fun t => t.accountId = a

/-- The inputs `ProposedBatch::new` accepts. The block of a note's inclusion proof is looked
up with `noteBlock`; the code looks it up in the chain MMR. -/
structure Accepts (P : Primitives) (L : BatchLimits) (noteBlock : BlockNumber → Option BlockHeader)
    (transactions : List ProvenTransaction) (blockHeader : BlockHeader) (chainMmr : ChainMmr)
    (proofs : BTreeMap NoteId NoteInclusionProof) : Prop where
  nonempty : transactions ≠ []
  ids_nodup : (transactions.map (·.id)).Nodup
  chain_length : chainMmr.chainLength = blockHeader.blockNum
  chain_root : P.hashPeaks chainMmr.peaks = blockHeader.chainRoot
  block_refs : ∀ tx ∈ transactions,
    tx.blockRef = blockHeader.hash ∨ ∃ h ∈ chainMmr.blockHeaders, h.hash = tx.blockRef
  accounts_chain : ∀ a, (accountTransactions transactions a).Chain' Chained
  details_merge : ∀ a t ts, accountTransactions transactions a = t :: ts →
    ∃ d, mergeDetailsAll P t.accountUpdate.details ts = .ok d
  accounts_le : (transactions.map (·.accountId)).dedup.length ≤ L.maxAccountsPerBatch
  nullifiers_nodup : ((allInputNotes transactions).map (·.nullifier)).Nodup
  output_ids_nodup : (createdNoteIds transactions).Nodup
  created_hashes : ∀ c ∈ allInputNotes transactions, ∀ h, c.header = some h →
    ∀ o ∈ allOutputNotes transactions, o.id = h.id → o.hash P = h.hash P
  proofs_verify : ∀ c ∈ allInputNotes transactions, ∀ h, c.header = some h →
    h.id ∉ createdNoteIds transactions → ∀ p, proofs.get h.id = some p →
      ∃ b, noteBlock p.location.blockNum = some b ∧
        P.verifyPath p.notePath p.location.nodeIndexInBlock.val (h.hash P) b.noteRoot = .ok ()
  input_notes_le : (expectedInputNotes transactions proofs).length ≤ L.maxInputNotesPerBatch
  output_notes_le : (remainingOutputNotes transactions).length ≤ L.maxOutputNotesPerBatch

end MidenBatch.ProposedBatch
