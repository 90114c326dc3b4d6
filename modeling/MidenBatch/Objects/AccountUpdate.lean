import MidenBatch.Objects.Transaction
import MidenBatch.Collections.Except

/-! The batch-level account update and its merge with a further transaction. Both are declared
outside src; the model follows the two errors `ProposedBatch::new` wraps (lines 183-191): a
transaction that does not start where the update ends, and a failed merge of details. -/
namespace MidenBatch

/-- One account's state transition over the batch, with its transactions in order. -/
structure BatchAccountUpdate where
  accountId : AccountId
  initialStateCommitment : Digest
  finalStateCommitment : Digest
  transactions : List TransactionId
  details : AccountUpdateDetails
  deriving DecidableEq, Repr

inductive BatchAccountUpdateError
  | accountUpdateInitialStateMismatch (transactionId : TransactionId)
  | transactionUpdateMergeError (transactionId : TransactionId) (source : AccountDeltaError)
  deriving DecidableEq, Repr

namespace BatchAccountUpdate

/-- `BatchAccountUpdate::from_transaction`: the update of a single transaction. -/
def fromTransaction (tx : ProvenTransaction) : BatchAccountUpdate where
  accountId := tx.accountId
  initialStateCommitment := tx.accountUpdate.initialStateCommitment
  finalStateCommitment := tx.accountUpdate.finalStateCommitment
  transactions := [tx.id]
  details := tx.accountUpdate.details

/-- `BatchAccountUpdate::merge_proven_tx`: the transaction must start where the update ends;
its details are merged, its final commitment becomes the update's and its id is appended. -/
def mergeProvenTx (P : Primitives) (u : BatchAccountUpdate) (tx : ProvenTransaction) :
    Except BatchAccountUpdateError BatchAccountUpdate :=
  if u.finalStateCommitment ≠ tx.accountUpdate.initialStateCommitment then
    .error (.accountUpdateInitialStateMismatch tx.id)
  else
    match P.mergeDetails u.details tx.accountUpdate.details with
    | .error source => .error (.transactionUpdateMergeError tx.id source)
    | .ok details => .ok { u with
        finalStateCommitment := tx.accountUpdate.finalStateCommitment
        transactions := u.transactions ++ [tx.id]
        details := details }

end BatchAccountUpdate

/-- Consecutive transactions chain: each starts from the final commitment of the one before. -/
def Chained (t t' : ProvenTransaction) : Prop :=
  t.accountUpdate.finalStateCommitment = t'.accountUpdate.initialStateCommitment

instance : DecidableRel Chained := fun _ _ => inferInstanceAs (Decidable (_ = _))

/-- The details of `ts` merged, in order, into `d`. -/
def mergeDetailsAll (P : Primitives) (d : AccountUpdateDetails) (ts : List ProvenTransaction) :
    Except AccountDeltaError AccountUpdateDetails :=
  ts.foldlM (fun d t => P.mergeDetails d t.accountUpdate.details) d

/-- Merging `ts` into an update that ends where `t` ends succeeds exactly when `t :: ts` chains
and the details merge; the result ends where the last transaction ends and lists `ts` after
the update's own transactions. -/
theorem foldlM_mergeProvenTx_eq_ok (P : Primitives) {u u' : BatchAccountUpdate}
    {t : ProvenTransaction} {ts : List ProvenTransaction}
    (hu : u.finalStateCommitment = t.accountUpdate.finalStateCommitment) :
    ts.foldlM (BatchAccountUpdate.mergeProvenTx P) u = .ok u' ↔
      ts.Chain Chained t ∧ ∃ d, mergeDetailsAll P u.details ts = .ok d ∧
        u' = { u with
          finalStateCommitment := ((t :: ts).getLast (List.cons_ne_nil t ts)).accountUpdate.finalStateCommitment
          transactions := u.transactions ++ ts.map (·.id)
          details := d } := by
  induction ts generalizing u t with
  | nil =>
    cases u
    simp only [List.foldlM_nil, List.getLast_singleton] at hu ⊢
    simp [mergeDetailsAll, hu, eq_comm]
  | cons t₁ ts ih =>
    simp only [List.foldlM_cons, List.chain_cons, mergeDetailsAll, BatchAccountUpdate.mergeProvenTx]
    by_cases hc : u.finalStateCommitment = t₁.accountUpdate.initialStateCommitment
    · have hc' : Chained t t₁ := hu.symm.trans hc
      cases hd : P.mergeDetails u.details t₁.accountUpdate.details with
      | error e => simp [hc, hd]
      | ok d₁ =>
        simp only [hc, ne_eq, not_true_eq_false, if_false, hd, ok_bind, hc', true_and]
        rw [ih (t := t₁) rfl]
        simp [mergeDetailsAll, List.getLast_cons, List.append_assoc]
    · have hc' : ¬ Chained t t₁ := fun h => hc (hu.trans h)
      simp [hc, hc']

end MidenBatch
