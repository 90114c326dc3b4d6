import MidenBatch.Collections.BTreeMap

/-! The objects the batch constructor reads: identifiers, notes, block headers, the chain MMR
and proven transactions. Hashing and Merkle verification are collaborators (`Primitives`). -/
namespace MidenBatch

/-- A four-element word. Digests are only compared, and ordered as map keys. -/
abbrev Digest := Nat
abbrev TransactionId := Digest
abbrev NoteId := Digest
abbrev Nullifier := Digest
abbrev BatchId := Digest
abbrev AccountId := Nat
/-- Note metadata (sender, type, tag, aux); it is only hashed together with the note id. -/
abbrev NoteMetadata := Nat
/-- Account update details (private, new account or delta); only `mergeDetails` reads them. -/
abbrev AccountUpdateDetails := Nat
abbrev MerklePath := List Digest
abbrev BlockNumber := Fin (2 ^ 32)

/-- `BlockNumber::from(u32::MAX)`. -/
def BlockNumber.u32Max : BlockNumber := ⟨2 ^ 32 - 1, by omega⟩

theorem BlockNumber.le_u32Max (n : BlockNumber) : n ≤ BlockNumber.u32Max :=
  Fin.le_iff_val_le_val.mpr (Nat.le_pred_of_lt n.isLt)

structure NoteHeader where
  id : NoteId
  metadata : NoteMetadata
  deriving DecidableEq, Repr

/-- An input note of a transaction: its nullifier, and its header while it is unauthenticated. -/
structure InputNoteCommitment where
  nullifier : Nullifier
  header : Option NoteHeader
  deriving DecidableEq, Repr

/-- `InputNoteCommitment::from(nullifier)`: the commitment of an authenticated note. -/
def InputNoteCommitment.ofNullifier (nullifier : Nullifier) : InputNoteCommitment :=
  ⟨nullifier, none⟩

/-- An output note, as far as the batch reads it: `id()` and `metadata()`. -/
structure OutputNote where
  id : NoteId
  metadata : NoteMetadata
  deriving DecidableEq, Repr

structure NoteLocation where
  blockNum : BlockNumber
  nodeIndexInBlock : Fin (2 ^ 16)
  deriving DecidableEq, Repr

structure NoteInclusionProof where
  location : NoteLocation
  notePath : MerklePath
  deriving DecidableEq, Repr

structure BlockHeader where
  blockNum : BlockNumber
  chainRoot : Digest
  noteRoot : Digest
  hash : Digest
  deriving DecidableEq, Repr

/-- `ChainMmr` is declared outside src; the model keeps what `new` reads of it: the chain
length and peaks, and the block headers it tracks keyed by number, all below the chain length. -/
structure ChainMmr where
  chainLength : BlockNumber
  peaks : List Digest
  blocks : BTreeMap BlockNumber BlockHeader
  blocks_wf : ∀ n h, blocks.get n = some h → h.blockNum = n ∧ n < chainLength

def ChainMmr.blockHeaders (mmr : ChainMmr) : List BlockHeader := mmr.blocks.values

def ChainMmr.getBlock (mmr : ChainMmr) (blockNum : BlockNumber) : Option BlockHeader :=
  mmr.blocks.get blockNum

structure TxAccountUpdate where
  initialStateCommitment : Digest
  finalStateCommitment : Digest
  details : AccountUpdateDetails
  deriving DecidableEq, Repr

/-- A proven transaction, with the fields the batch constructor reads. -/
structure ProvenTransaction where
  id : TransactionId
  accountId : AccountId
  blockRef : Digest
  expirationBlockNum : BlockNumber
  inputNotes : List InputNoteCommitment
  outputNotes : List OutputNote
  accountUpdate : TxAccountUpdate
  deriving DecidableEq, Repr

structure MerkleError where
  reason : Nat
  deriving DecidableEq, Repr

structure AccountDeltaError where
  reason : Nat
  deriving DecidableEq, Repr

/-- The hash-based collaborators of the constructor, all outside this crate:
`MmrPeaks::hash_peaks`, the note hash `compute_note_hash(id, metadata)`,
`MerklePath::verify(index, node, root)`, `AccountUpdateDetails::merge` and
`BatchId::from_transactions`. -/
structure Primitives where
  hashPeaks : List Digest → Digest
  computeNoteHash : NoteId → NoteMetadata → Digest
  verifyPath : MerklePath → Nat → Digest → Digest → Except MerkleError Unit
  mergeDetails : AccountUpdateDetails → AccountUpdateDetails →
    Except AccountDeltaError AccountUpdateDetails
  batchIdFromTransactions : List ProvenTransaction → BatchId

def NoteHeader.hash (P : Primitives) (h : NoteHeader) : Digest := P.computeNoteHash h.id h.metadata

def OutputNote.hash (P : Primitives) (n : OutputNote) : Digest := P.computeNoteHash n.id n.metadata

/-- The batch limits, constants of the crate outside src. The output-note limit fits the
note tree: at most `2 ^ BATCH_NOTE_TREE_DEPTH` notes. -/
structure BatchLimits where
  maxAccountsPerBatch : Nat
  maxInputNotesPerBatch : Nat
  maxOutputNotesPerBatch : Nat
  batchNoteTreeDepth : Nat
  output_fits : maxOutputNotesPerBatch ≤ 2 ^ batchNoteTreeDepth

/-- `BatchNoteTree` is declared outside src: a sparse Merkle tree of fixed depth whose leaf `i`
is the `i`-th `(note id, metadata)`, so it is determined by its depth and leaves. -/
structure BatchNoteTree where
  depth : Nat
  leaves : List (NoteId × NoteMetadata)
  leaves_fit : leaves.length ≤ 2 ^ depth

theorem BatchNoteTree.ext {t t' : BatchNoteTree} (hd : t.depth = t'.depth)
    (hl : t.leaves = t'.leaves) : t = t' := by
  cases t; cases t'; cases hd; cases hl; rfl

/-- `BatchNoteTree::with_contiguous_leaves(..).expect(..)`: the source's `expect` is the
obligation that the leaves fit the tree. -/
def BatchNoteTree.withContiguousLeaves (depth : Nat) (leaves : List (NoteId × NoteMetadata))
    (h : leaves.length ≤ 2 ^ depth) : BatchNoteTree :=
  ⟨depth, leaves, h⟩

end MidenBatch
