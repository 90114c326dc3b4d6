import MidenBatch.Collections.BTreeMap
import MidenBatch.Collections.Except
import MidenBatch.Objects.Transaction
import MidenBatch.Objects.AccountUpdate
import MidenBatch.Batch.ProposedBatch
import MidenBatch.Batch.Spec
import MidenBatch.Batch.Accounts
import MidenBatch.Batch.OutputNotes
import MidenBatch.Batch.Phases
import MidenBatch.Batch.Acceptance
import MidenBatch.Batch.Outcome
import MidenBatch.Batch.Reordering
import MidenBatch.Batch.Errors
import MidenBatch.Batch.Precedence
import MidenBatch.Batch.Diagnostics
import MidenBatch.Batch.Frames
