import MidenBatch.Objects.AccountUpdate

/-! `ProposedBatch::new` with the output-note tracker and the note authentication helper,
phase by phase as in `proposed_batch.rs`. Nested loops over transactions and their notes
are single loops over the flattened list, in the same order. -/
namespace MidenBatch

inductive ProposedBatchError
  | emptyTransactionBatch
  | duplicateTransaction (transactionId : TransactionId)
  | inconsistentChainLength (expected actual : BlockNumber)
  | inconsistentChainRoot (expected actual : Digest)
  | missingTransactionBlockReference (blockReference : Digest) (transactionId : TransactionId)
  | accountUpdateError (accountId : AccountId) (source : BatchAccountUpdateError)
  | tooManyAccountUpdates (n : Nat)
  | duplicateInputNote (noteNullifier : Nullifier)
      (firstTransactionId secondTransactionId : TransactionId)
  | duplicateOutputNote (noteId : NoteId) (firstTransactionId secondTransactionId : TransactionId)
  | noteHashesMismatch (id : NoteId) (inputHash outputHash : Digest)
  | unauthenticatedInputNoteBlockNotInChainMmr (blockNumber : BlockNumber) (noteId : NoteId)
  | unauthenticatedNoteAuthenticationFailed (noteId : NoteId) (blockNum : BlockNumber)
      (source : MerkleError)
  | tooManyInputNotes (n : Nat)
  | tooManyOutputNotes (n : Nat)
  deriving DecidableEq, Repr

/-- The output notes of a batch by id, each with the transaction that creates it. -/
structure BatchOutputNoteTracker where
  outputNotes : BTreeMap NoteId (TransactionId × OutputNote)

namespace BatchOutputNoteTracker

/-- Every output note of every transaction, keyed by note id, in batch order. -/
def outputNoteEntries (txs : List ProvenTransaction) :
    List (Σ _ : NoteId, TransactionId × OutputNote) :=
  txs.flatMap fun tx => tx.outputNotes.map fun note => ⟨note.id, (tx.id, note)⟩

/-- `BatchOutputNoteTracker::new`: a note created twice is an error. -/
def new (txs : List ProvenTransaction) : Except ProposedBatchError BatchOutputNoteTracker := do
  let outputNotes ← BTreeMap.new.collectUnique
    (fun noteId first second => .duplicateOutputNote noteId first.1 second.1)
    (outputNoteEntries txs)
  pure ⟨outputNotes⟩

/-- `BatchOutputNoteTracker::remove_note`: whether a note of the header's id was tracked, and
the tracker without it. A tracked note whose hash differs from the header's is an error. -/
def removeNote (P : Primitives) (tracker : BatchOutputNoteTracker) (header : NoteHeader) :
    Except ProposedBatchError (Bool × BatchOutputNoteTracker) :=
  match tracker.outputNotes.remove header.id with
  | (some (_, outputNote), rest) =>
    if outputNote.hash P ≠ header.hash P then
      .error (.noteHashesMismatch header.id (header.hash P) (outputNote.hash P))
    else .ok (true, ⟨rest⟩)
  | (none, _) => .ok (false, tracker)

/-- `BatchOutputNoteTracker::into_notes`: the notes in `NoteId` order. -/
def intoNotes (tracker : BatchOutputNoteTracker) : List OutputNote :=
  tracker.outputNotes.values.map (·.2)

end BatchOutputNoteTracker

/-- `authenticate_unauthenticated_note`: the proof's path leads from the header's hash, at the
proof's index, to the note root of the given block. -/
def authenticateUnauthenticatedNote (P : Primitives) (noteHeader : NoteHeader)
    (proof : NoteInclusionProof) (blockHeader : BlockHeader) : Except ProposedBatchError Unit :=
  match P.verifyPath proof.notePath proof.location.nodeIndexInBlock.val (noteHeader.hash P)
      blockHeader.noteRoot with
  | .ok () => .ok ()
  | .error source =>
    .error (.unauthenticatedNoteAuthenticationFailed noteHeader.id proof.location.blockNum source)

/-- `ProposedBatch`: a validated batch with the data its kernel needs. -/
structure ProposedBatch where
  transactions : List ProvenTransaction
  blockHeader : BlockHeader
  chainMmr : ChainMmr
  unauthenticatedNoteProofs : BTreeMap NoteId NoteInclusionProof
  id : BatchId
  accountUpdates : BTreeMap AccountId BatchAccountUpdate
  batchExpirationBlockNum : BlockNumber
  inputNotes : List InputNoteCommitment
  outputNotesTree : BatchNoteTree
  outputNotes : List OutputNote

namespace ProposedBatch

/-- Lines 120-129: a non-empty list, with every id entered once into the transaction set. -/
def checkTransactions (transactions : List ProvenTransaction) : Except ProposedBatchError Unit :=
  if transactions.isEmpty then .error .emptyTransactionBatch
  else do
    let _ ← BTreeMap.new.collectUnique (fun id _ _ => .duplicateTransaction id)
      (transactions.map fun tx => (⟨tx.id, ()⟩ : Σ _ : TransactionId, Unit))
    pure ()

/-- Lines 134-147: the chain MMR ends just below the reference block, under its chain root. -/
def checkChainMmr (P : Primitives) (blockHeader : BlockHeader) (chainMmr : ChainMmr) :
    Except ProposedBatchError Unit :=
  if chainMmr.chainLength ≠ blockHeader.blockNum then
    .error (.inconsistentChainLength blockHeader.blockNum chainMmr.chainLength)
  else if P.hashPeaks chainMmr.peaks ≠ blockHeader.chainRoot then
    .error (.inconsistentChainRoot blockHeader.chainRoot (P.hashPeaks chainMmr.peaks))
  else .ok ()

/-- Lines 153-158: the hashes of the chain MMR's headers and of the reference block. -/
def blockReferences (blockHeader : BlockHeader) (chainMmr : ChainMmr) : List Digest :=
  chainMmr.blockHeaders.map (·.hash) ++ [blockHeader.hash]

/-- Lines 160-167: every transaction references a known block. -/
def checkBlockReferences (blockReferences : List Digest) :
    List ProvenTransaction → Except ProposedBatchError Unit
  | [] => .ok ()
  | tx :: txs =>
    if tx.blockRef ∈ blockReferences then checkBlockReferences blockReferences txs
    else .error (.missingTransactionBlockReference tx.blockRef tx.id)

/-- One iteration of lines 176-198: insert or merge the transaction's account update, and
lower the expiration to the transaction's. -/
def aggregateStep (P : Primitives)
    (acc : BTreeMap AccountId BatchAccountUpdate × BlockNumber) (tx : ProvenTransaction) :
    Except ProposedBatchError (BTreeMap AccountId BatchAccountUpdate × BlockNumber) :=
  match acc.1.get tx.accountId with
  | none => .ok ((acc.1.insert tx.accountId (.fromTransaction tx)).2,
      min acc.2 tx.expirationBlockNum)
  | some update =>
    match update.mergeProvenTx P tx with
    | .ok merged => .ok ((acc.1.insert tx.accountId merged).2, min acc.2 tx.expirationBlockNum)
    | .error source => .error (.accountUpdateError tx.accountId source)

/-- Lines 174-198, from an empty map and an expiration of `u32::MAX`. -/
def aggregateAccountUpdates (P : Primitives) (transactions : List ProvenTransaction) :
    Except ProposedBatchError (BTreeMap AccountId BatchAccountUpdate × BlockNumber) :=
  transactions.foldlM (aggregateStep P) (BTreeMap.new, BlockNumber.u32Max)

/-- Lines 200-202. -/
def checkAccountUpdatesLen (L : BatchLimits) (accountUpdates : BTreeMap AccountId BatchAccountUpdate) :
    Except ProposedBatchError Unit :=
  if accountUpdates.len > L.maxAccountsPerBatch then
    .error (.tooManyAccountUpdates accountUpdates.len)
  else .ok ()

/-- Every input note's nullifier with its transaction, in batch order. -/
def inputNoteEntries (transactions : List ProvenTransaction) :
    List (Σ _ : Nullifier, TransactionId) :=
  transactions.flatMap fun tx => tx.inputNotes.map fun note => ⟨note.nullifier, tx.id⟩

/-- Lines 210-223: no nullifier is consumed twice, within or across transactions. -/
def checkInputNotes (transactions : List ProvenTransaction) :
    Except ProposedBatchError (BTreeMap Nullifier TransactionId) :=
  BTreeMap.new.collectUnique
    (fun nullifier first second => .duplicateInputNote nullifier first second)
    (inputNoteEntries transactions)

/-- One iteration of lines 234-276: the commitment the note adds to the batch's input notes
(none when the batch creates the note), and the tracker after it. -/
def reconcileInputNote (P : Primitives) (chainMmr : ChainMmr)
    (unauthenticatedNoteProofs : BTreeMap NoteId NoteInclusionProof)
    (tracker : BatchOutputNoteTracker) (inputNote : InputNoteCommitment) :
    Except ProposedBatchError (Option InputNoteCommitment × BatchOutputNoteTracker) :=
  match inputNote.header with
  | none => .ok (some inputNote, tracker)
  | some header => do
    let (removed, tracker) ← tracker.removeNote P header
    if removed then pure (none, tracker)
    else
      match unauthenticatedNoteProofs.get header.id with
      | none => pure (some inputNote, tracker)
      | some proof =>
        match chainMmr.getBlock proof.location.blockNum with
        | none =>
          .error (.unauthenticatedInputNoteBlockNotInChainMmr proof.location.blockNum header.id)
        | some noteBlockHeader => do
          authenticateUnauthenticatedNote P header proof noteBlockHeader
          pure (some (.ofNullifier inputNote.nullifier), tracker)

/-- Lines 231-278 over the batch's input notes in order. -/
def reconcileInputNotes (P : Primitives) (chainMmr : ChainMmr)
    (unauthenticatedNoteProofs : BTreeMap NoteId NoteInclusionProof) :
    BatchOutputNoteTracker → List InputNoteCommitment →
      Except ProposedBatchError (List InputNoteCommitment × BatchOutputNoteTracker)
  | tracker, [] => .ok ([], tracker)
  | tracker, note :: notes => do
    let (kept, tracker) ← reconcileInputNote P chainMmr unauthenticatedNoteProofs tracker note
    let (rest, tracker) ← reconcileInputNotes P chainMmr unauthenticatedNoteProofs tracker notes
    pure (kept.toList ++ rest, tracker)

/-- Lines 282-284. -/
def checkInputNotesLen (L : BatchLimits) (inputNotes : List InputNoteCommitment) :
    Except ProposedBatchError Unit :=
  if inputNotes.length > L.maxInputNotesPerBatch then .error (.tooManyInputNotes inputNotes.length)
  else .ok ()

/-- Lines 289-302: the size check makes the tree's `expect` unreachable. -/
def buildOutputNotesTree (L : BatchLimits) (outputNotes : List OutputNote) :
    Except ProposedBatchError BatchNoteTree :=
  if h : outputNotes.length > L.maxOutputNotesPerBatch then
    .error (.tooManyOutputNotes outputNotes.length)
  else
    .ok (.withContiguousLeaves L.batchNoteTreeDepth (outputNotes.map fun n => (n.id, n.metadata))
      (by simpa using (Nat.le_of_not_lt h).trans L.output_fits))

/-- `ProposedBatch::new`. -/
def new (P : Primitives) (L : BatchLimits) (transactions : List ProvenTransaction)
    (blockHeader : BlockHeader) (chainMmr : ChainMmr)
    (unauthenticatedNoteProofs : BTreeMap NoteId NoteInclusionProof) :
    Except ProposedBatchError ProposedBatch := do
  checkTransactions transactions
  checkChainMmr P blockHeader chainMmr
  checkBlockReferences (blockReferences blockHeader chainMmr) transactions
  let (accountUpdates, batchExpirationBlockNum) ← aggregateAccountUpdates P transactions
  checkAccountUpdatesLen L accountUpdates
  let _ ← checkInputNotes transactions
  let tracker ← BatchOutputNoteTracker.new transactions
  let (inputNotes, tracker) ← reconcileInputNotes P chainMmr unauthenticatedNoteProofs tracker
    (transactions.flatMap (·.inputNotes))
  let outputNotes := tracker.intoNotes
  checkInputNotesLen L inputNotes
  let outputNotesTree ← buildOutputNotesTree L outputNotes
  pure { transactions, blockHeader, chainMmr, unauthenticatedNoteProofs,
         id := P.batchIdFromTransactions transactions, accountUpdates, batchExpirationBlockNum,
         inputNotes, outputNotesTree, outputNotes }

end ProposedBatch
end MidenBatch
