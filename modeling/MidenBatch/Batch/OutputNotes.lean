import MidenBatch.Batch.Spec

/-! The output-note tracker and the input-note reconciliation loop. When header ids are
distinct, the loop run against a shrinking tracker gives the same notes as checking each note
against the full tracker, independently of the others. -/
namespace MidenBatch
open List

namespace BatchOutputNoteTracker

theorem keys_outputNoteEntries (txs : List ProvenTransaction) :
    (outputNoteEntries txs).keys = ProposedBatch.createdNoteIds txs := by
  simp [outputNoteEntries, ProposedBatch.createdNoteIds, ProposedBatch.allOutputNotes, keys,
    map_flatMap, Function.comp_def]

theorem mem_outputNoteEntries {txs : List ProvenTransaction} {k : NoteId} {i : TransactionId}
    {o : OutputNote} : ⟨k, (i, o)⟩ ∈ outputNoteEntries txs ↔
      ∃ tx ∈ txs, o ∈ tx.outputNotes ∧ o.id = k ∧ tx.id = i := by
  simp only [outputNoteEntries, mem_flatMap, mem_map, Sigma.mk.inj_iff, Prod.mk.injEq]
  constructor
  · rintro ⟨tx, htx, o', ho', rfl, hi⟩
    obtain ⟨rfl, rfl⟩ := (heq_iff_eq.mp hi) |> Prod.mk.inj
    exact ⟨tx, htx, ho', rfl, rfl⟩
  · rintro ⟨tx, htx, ho, rfl, rfl⟩
    exact ⟨tx, htx, o, ho, rfl, HEq.rfl⟩

theorem new_ok_iff (txs : List ProvenTransaction) :
    (∃ T, new txs = .ok T) ↔ (ProposedBatch.createdNoteIds txs).Nodup := by
  rw [← keys_outputNoteEntries, ← NodupKeys]
  have := BTreeMap.collectUnique_ok_iff
    (fun noteId first second => ProposedBatchError.duplicateOutputNote noteId first.1 second.1)
    BTreeMap.new (outputNoteEntries txs)
  simp only [BTreeMap.get_new, implies_true, and_true] at this
  rw [← this]
  constructor
  · rintro ⟨T, hT⟩
    obtain ⟨m, hm, -⟩ := bind_eq_ok.mp hT
    exact ⟨m, hm⟩
  · rintro ⟨m, hm⟩
    exact ⟨⟨m⟩, by simp [new, hm]⟩

/-- The tracker holds exactly the batch's output notes, each under its id with its creator. -/
theorem get_new {txs : List ProvenTransaction} {T : BatchOutputNoteTracker} (h : new txs = .ok T)
    (k : NoteId) : T.outputNotes.get k = (outputNoteEntries txs).dlookup k := by
  obtain ⟨m, hm, he⟩ := bind_eq_ok.mp h
  cases (Except.ok.inj he)
  simpa using BTreeMap.get_collectUnique hm k

theorem removeNote_of_get_none {P : Primitives} {T : BatchOutputNoteTracker} {h : NoteHeader}
    (hg : T.outputNotes.get h.id = none) : removeNote P T h = .ok (false, T) := by
  simp [removeNote, BTreeMap.remove, hg]

theorem removeNote_of_get_some {P : Primitives} {T : BatchOutputNoteTracker} {h : NoteHeader}
    {i : TransactionId} {o : OutputNote} (hg : T.outputNotes.get h.id = some (i, o)) :
    removeNote P T h = if o.hash P ≠ h.hash P then
      .error (.noteHashesMismatch h.id (h.hash P) (o.hash P))
    else .ok (true, ⟨(T.outputNotes.remove h.id).2⟩) := by
  simp only [removeNote, BTreeMap.remove, hg]

theorem dlookup_outputNoteEntries {txs : List ProvenTransaction}
    (hnd : (ProposedBatch.createdNoteIds txs).Nodup) {k : NoteId} {i : TransactionId}
    {o : OutputNote} : (outputNoteEntries txs).dlookup k = some (i, o) ↔
      ∃ tx ∈ txs, o ∈ tx.outputNotes ∧ o.id = k ∧ tx.id = i := by
  rw [← mem_outputNoteEntries, ← Option.mem_def, mem_dlookup_iff]
  rwa [NodupKeys, keys_outputNoteEntries]

/-- What is left of the batch's output notes once the ids `U` are removed, drained in order:
strictly increasing ids, and the output notes whose id is not in `U`. -/
theorem intoNotes_of_get {txs : List ProvenTransaction} {T : BatchOutputNoteTracker}
    {U : List NoteId} (hnd : (ProposedBatch.createdNoteIds txs).Nodup)
    (hT : ∀ k, T.outputNotes.get k = if k ∈ U then none else (outputNoteEntries txs).dlookup k) :
    (T.intoNotes.map (·.id)).Sorted (· < ·) ∧
      T.intoNotes.Perm ((ProposedBatch.allOutputNotes txs).filter (·.id ∉ U)) := by
  have hmem : ∀ k i o, ⟨k, (i, o)⟩ ∈ T.outputNotes.entries ↔
      k ∉ U ∧ ∃ tx ∈ txs, o ∈ tx.outputNotes ∧ o.id = k ∧ tx.id = i := fun k i o => by
    rw [BTreeMap.mem_entries, hT]
    split_ifs with hk <;> simp [hk, dlookup_outputNoteEntries hnd]
  have hids : T.intoNotes.map (·.id) = T.outputNotes.entries.map (·.1) := by
    simp only [intoNotes, BTreeMap.values, map_map]
    refine map_congr_left fun e he => ?_
    obtain ⟨k, i, o⟩ := e
    exact ((hmem k i o).mp he).2.choose_spec.2.2.1
  have hsorted : (T.intoNotes.map (·.id)).Sorted (· < ·) := by
    rw [hids]; exact pairwise_map.mpr T.outputNotes.sorted
  refine ⟨hsorted, (perm_ext_iff_of_nodup (hsorted.nodup.of_map _)
    (((hnd.of_map _)).filter _)).mpr fun o => ?_⟩
  simp only [intoNotes, BTreeMap.values, map_map, mem_map, Function.comp_def, mem_filter,
    ProposedBatch.allOutputNotes, mem_flatMap, decide_eq_true_eq]
  constructor
  · rintro ⟨⟨k, i, o'⟩, he, rfl⟩
    obtain ⟨hk, tx, htx, ho, rfl, -⟩ := (hmem k i o').mp he
    exact ⟨⟨tx, htx, ho⟩, hk⟩
  · rintro ⟨⟨tx, htx, ho⟩, hk⟩
    exact ⟨⟨o.id, tx.id, o⟩, (hmem _ _ _).mpr ⟨hk, tx, htx, ho, rfl, rfl⟩, rfl⟩

end BatchOutputNoteTracker

namespace ProposedBatch
open BatchOutputNoteTracker

variable {P : Primitives} {chainMmr : ChainMmr} {proofs : BTreeMap NoteId NoteInclusionProof}

/-- The checks an input note must pass against the batch's output notes `T₀`: a note the batch
creates must carry that note's hash, and a supplied proof must verify in a chain-MMR block. -/
def NoteChecks (P : Primitives) (chainMmr : ChainMmr) (proofs : BTreeMap NoteId NoteInclusionProof)
    (T₀ : BatchOutputNoteTracker) (c : InputNoteCommitment) : Prop :=
  ∀ h, c.header = some h →
    match T₀.outputNotes.get h.id with
    | some (_, o) => o.hash P = h.hash P
    | none => ∀ p, proofs.get h.id = some p → ∃ b, chainMmr.getBlock p.location.blockNum = some b ∧
        P.verifyPath p.notePath p.location.nodeIndexInBlock.val (h.hash P) b.noteRoot = .ok ()

theorem authenticateUnauthenticatedNote_eq_ok {h : NoteHeader} {p : NoteInclusionProof}
    {b : BlockHeader} : authenticateUnauthenticatedNote P h p b = .ok () ↔
      P.verifyPath p.notePath p.location.nodeIndexInBlock.val (h.hash P) b.noteRoot = .ok () := by
  unfold authenticateUnauthenticatedNote
  split <;> simp_all

private theorem reconcileInputNote_of_header_none {T : BatchOutputNoteTracker}
    {c : InputNoteCommitment} (hc : c.header = none) :
    reconcileInputNote P chainMmr proofs T c = .ok (some c, T) := by
  simp [reconcileInputNote, hc]

private theorem reconcileInputNote_of_created {T : BatchOutputNoteTracker}
    {c : InputNoteCommitment} {h : NoteHeader} {i : TransactionId} {o : OutputNote}
    (hc : c.header = some h) (hg : T.outputNotes.get h.id = some (i, o)) :
    reconcileInputNote P chainMmr proofs T c = if o.hash P ≠ h.hash P then
      .error (.noteHashesMismatch h.id (h.hash P) (o.hash P))
    else .ok (none, ⟨(T.outputNotes.remove h.id).2⟩) := by
  simp only [reconcileInputNote, hc, removeNote_of_get_some hg]
  split_ifs <;> rfl

private theorem reconcileInputNote_of_not_created {T : BatchOutputNoteTracker}
    {c : InputNoteCommitment} {h : NoteHeader} (hc : c.header = some h)
    (hg : T.outputNotes.get h.id = none) :
    reconcileInputNote P chainMmr proofs T c = match proofs.get h.id with
      | none => .ok (some c, T)
      | some p => match chainMmr.getBlock p.location.blockNum with
        | none => .error (.unauthenticatedInputNoteBlockNotInChainMmr p.location.blockNum h.id)
        | some b => authenticateUnauthenticatedNote P h p b >>= fun _ =>
            .ok (some (.ofNullifier c.nullifier), T) := by
  simp only [reconcileInputNote, hc, removeNote_of_get_none hg, ok_bind, Bool.false_eq_true,
    if_false]
  rfl

/-- One input note, against a tracker that holds the note's entry as `T₀` does: it adds
`batchInputNote`, passes `NoteChecks`, and leaves the tracker without its header id. -/
private theorem reconcileInputNote_ok {T₀ T : BatchOutputNoteTracker} {c : InputNoteCommitment}
    {created : List NoteId} (hcr : ∀ k, (T₀.outputNotes.get k).isSome ↔ k ∈ created)
    (hT : ∀ h, c.header = some h → T.outputNotes.get h.id = T₀.outputNotes.get h.id)
    {r : Option InputNoteCommitment × BatchOutputNoteTracker}
    (hr : reconcileInputNote P chainMmr proofs T c = .ok r) :
    r.1 = batchInputNote created proofs c ∧ NoteChecks P chainMmr proofs T₀ c ∧
      ∀ k, r.2.outputNotes.get k =
        if c.header.map (·.id) = some k then none else T.outputNotes.get k := by
  cases hc : c.header with
  | none =>
    rw [reconcileInputNote_of_header_none hc] at hr
    cases hr
    simp [batchInputNote, NoteChecks, hc]
  | some h =>
    have hg := hT h hc
    have hsame : ∀ h', c.header = some h' → h' = h := fun h' hh' =>
      Option.some.inj (hh'.symm.trans hc)
    cases hg₀ : T₀.outputNotes.get h.id with
    | some e =>
      obtain ⟨i, o⟩ := e
      rw [reconcileInputNote_of_created hc (hg.trans hg₀)] at hr
      split_ifs at hr with hh
      cases hr
      have hmem : h.id ∈ created := (hcr _).mp (by simp [hg₀])
      refine ⟨by simp [batchInputNote, hc, hmem], fun h' hh' => ?_, fun k => by simp [eq_comm]⟩
      cases hsame h' hh'
      simpa [hg₀] using hh
    | none =>
      rw [reconcileInputNote_of_not_created hc (hg.trans hg₀)] at hr
      have hmem : h.id ∉ created := fun hm => by simpa [hg₀] using (hcr _).mpr hm
      have hkeep : ∀ k, T.outputNotes.get k =
          if some h.id = some k then none else T.outputNotes.get k := fun k => by
        by_cases hk : h.id = k
        · subst hk; simp [hg, hg₀]
        · simp [hk]
      cases hp : proofs.get h.id with
      | none =>
        rw [hp] at hr
        cases hr
        refine ⟨by simp [batchInputNote, hc, hmem, hp], fun h' hh' => ?_, hkeep⟩
        cases hsame h' hh'
        simp [hg₀, hp]
      | some p =>
        rw [hp] at hr
        cases hb : chainMmr.getBlock p.location.blockNum with
        | none => simp [hb] at hr
        | some b =>
          simp only [hb] at hr
          obtain ⟨u, hu, hr⟩ := bind_eq_ok.mp hr
          cases hr
          refine ⟨by simp [batchInputNote, hc, hmem, hp], fun h' hh' => ?_, hkeep⟩
          cases hsame h' hh'
          simp only [hg₀, hp, Option.some.injEq]
          rintro p rfl
          exact ⟨b, hb, authenticateUnauthenticatedNote_eq_ok.mp hu⟩

private theorem reconcileInputNote_ok_of {T₀ T : BatchOutputNoteTracker} {c : InputNoteCommitment}
    (hT : ∀ h, c.header = some h → T.outputNotes.get h.id = T₀.outputNotes.get h.id)
    (hn : NoteChecks P chainMmr proofs T₀ c) :
    ∃ r, reconcileInputNote P chainMmr proofs T c = .ok r := by
  cases hc : c.header with
  | none => exact ⟨_, reconcileInputNote_of_header_none hc⟩
  | some h =>
    have hn := hn h hc
    have hg := hT h hc
    cases hg₀ : T₀.outputNotes.get h.id with
    | some e =>
      obtain ⟨i, o⟩ := e
      simp only [hg₀] at hn
      rw [reconcileInputNote_of_created hc (hg.trans hg₀), if_neg (not_not.mpr hn)]
      exact ⟨_, rfl⟩
    | none =>
      simp only [hg₀] at hn
      rw [reconcileInputNote_of_not_created hc (hg.trans hg₀)]
      cases hp : proofs.get h.id with
      | none => exact ⟨_, rfl⟩
      | some p =>
        obtain ⟨b, hb, hv⟩ := hn p hp
        simp only [hb, authenticateUnauthenticatedNote_eq_ok.mpr hv, ok_bind]
        exact ⟨_, rfl⟩

theorem headerNoteIds_append (l l' : List InputNoteCommitment) :
    headerNoteIds (l ++ l') = headerNoteIds l ++ headerNoteIds l' :=
  filterMap_append _ _ _

theorem headerNoteIds_singleton (c : InputNoteCommitment) :
    headerNoteIds [c] = (c.header.map (·.id)).toList := by
  cases h : c.header <;> simp [headerNoteIds, h]

private theorem tracker_after {T₀ T T₁ : BatchOutputNoteTracker} {q : List InputNoteCommitment}
    {c : InputNoteCommitment}
    (hT : ∀ k, T.outputNotes.get k = if k ∈ headerNoteIds q then none else T₀.outputNotes.get k)
    (h₁ : ∀ k, T₁.outputNotes.get k =
      if c.header.map (·.id) = some k then none else T.outputNotes.get k) (k : NoteId) :
    T₁.outputNotes.get k =
      if k ∈ headerNoteIds (q ++ [c]) then none else T₀.outputNotes.get k := by
  rw [h₁, hT, headerNoteIds_append, headerNoteIds_singleton]
  cases c.header.map (·.id) with
  | none => simp
  | some k' =>
    by_cases hk : k = k'
    · simp [hk]
    · simp [hk, Ne.symm hk]

private theorem agrees_at_head {T₀ T : BatchOutputNoteTracker} {q l : List InputNoteCommitment}
    {c : InputNoteCommitment}
    (hT : ∀ k, T.outputNotes.get k = if k ∈ headerNoteIds q then none else T₀.outputNotes.get k)
    (hnd : (headerNoteIds (q ++ c :: l)).Nodup) :
    ∀ h, c.header = some h → T.outputNotes.get h.id = T₀.outputNotes.get h.id := by
  intro h hc
  rw [← singleton_append, headerNoteIds_append, headerNoteIds_append, headerNoteIds_singleton,
    hc] at hnd
  have : h.id ∉ headerNoteIds q := fun hm => by
    simpa using (nodup_append.mp hnd).2.2 hm (by simp)
  simp [hT, this]

/-- The reconciliation loop, run on from a tracker without the header ids of the notes `q`
already done: while header ids stay distinct it adds `batchInputNote` of each note, every note
passes `NoteChecks` against the full tracker, and it ends without all their header ids. -/
theorem reconcileInputNotes_ok {T₀ T : BatchOutputNoteTracker} {q l : List InputNoteCommitment}
    {created : List NoteId} (hcr : ∀ k, (T₀.outputNotes.get k).isSome ↔ k ∈ created)
    (hT : ∀ k, T.outputNotes.get k = if k ∈ headerNoteIds q then none else T₀.outputNotes.get k)
    (hnd : (headerNoteIds (q ++ l)).Nodup) {kept : List InputNoteCommitment}
    {T' : BatchOutputNoteTracker}
    (h : reconcileInputNotes P chainMmr proofs T l = .ok (kept, T')) :
    kept = l.filterMap (batchInputNote created proofs) ∧
      (∀ c ∈ l, NoteChecks P chainMmr proofs T₀ c) ∧
      ∀ k, T'.outputNotes.get k =
        if k ∈ headerNoteIds (q ++ l) then none else T₀.outputNotes.get k := by
  induction l generalizing q T kept T' with
  | nil => cases h; simpa using hT
  | cons c l ih =>
    obtain ⟨⟨o, T₁⟩, h₁, h⟩ := bind_eq_ok.mp h
    obtain ⟨⟨rest, T₂⟩, h₂, h⟩ := bind_eq_ok.mp h
    cases h
    obtain ⟨ho, hc, hT₁⟩ := reconcileInputNote_ok hcr (agrees_at_head hT hnd) h₁
    obtain ⟨hrest, hl, hT₂⟩ := ih (tracker_after hT hT₁) (by simpa using hnd) h₂
    refine ⟨?_, forall_mem_cons.mpr ⟨hc, hl⟩, by simpa using hT₂⟩
    rw [hrest, filterMap_cons, ← ho]
    cases o <;> rfl

theorem reconcileInputNotes_ok_of {T₀ T : BatchOutputNoteTracker} {q l : List InputNoteCommitment}
    (hT : ∀ k, T.outputNotes.get k = if k ∈ headerNoteIds q then none else T₀.outputNotes.get k)
    (hnd : (headerNoteIds (q ++ l)).Nodup) (hn : ∀ c ∈ l, NoteChecks P chainMmr proofs T₀ c) :
    ∃ r, reconcileInputNotes P chainMmr proofs T l = .ok r := by
  induction l generalizing q T with
  | nil => exact ⟨_, rfl⟩
  | cons c l ih =>
    obtain ⟨⟨o, T₁⟩, h₁⟩ := reconcileInputNote_ok_of (agrees_at_head hT hnd) (hn c (by simp))
    obtain ⟨-, -, hT₁⟩ := reconcileInputNote_ok (fun _ => BTreeMap.get_isSome)
      (agrees_at_head hT hnd) h₁
    obtain ⟨⟨rest, T₂⟩, h₂⟩ := ih (tracker_after hT hT₁) (by simpa using hnd)
      fun c' hc' => hn c' (mem_cons_of_mem c hc')
    exact ⟨_, by simp only [reconcileInputNotes, h₁, h₂, ok_bind]; rfl⟩


/-- How an input note fails its checks against the batch's output notes `T₀`, with the error the
reconciliation raises for it: a header naming a tracked note of another hash, or a supplied proof
whose block is not in the chain MMR, or which does not verify there. -/
def NoteFailure (P : Primitives) (chainMmr : ChainMmr)
    (proofs : BTreeMap NoteId NoteInclusionProof) (T₀ : BatchOutputNoteTracker)
    (c : InputNoteCommitment) (e : ProposedBatchError) : Prop :=
  ∃ h, c.header = some h ∧
    match T₀.outputNotes.get h.id with
    | some (_, o) => o.hash P ≠ h.hash P ∧ e = .noteHashesMismatch h.id (h.hash P) (o.hash P)
    | none => ∃ p, proofs.get h.id = some p ∧
      match chainMmr.getBlock p.location.blockNum with
      | none => e = .unauthenticatedInputNoteBlockNotInChainMmr p.location.blockNum h.id
      | some b => ∃ s, P.verifyPath p.notePath p.location.nodeIndexInBlock.val (h.hash P)
          b.noteRoot = .error s ∧ e = .unauthenticatedNoteAuthenticationFailed h.id
            p.location.blockNum s

private theorem reconcileInputNote_error {T₀ T : BatchOutputNoteTracker} {c : InputNoteCommitment}
    {e : ProposedBatchError}
    (hT : ∀ h, c.header = some h → T.outputNotes.get h.id = T₀.outputNotes.get h.id)
    (h : reconcileInputNote P chainMmr proofs T c = .error e) :
    NoteFailure P chainMmr proofs T₀ c e := by
  cases hc : c.header with
  | none => rw [reconcileInputNote_of_header_none hc] at h; cases h
  | some hd =>
    refine ⟨hd, hc, ?_⟩
    have hg := hT hd hc
    cases hg₀ : T₀.outputNotes.get hd.id with
    | some entry =>
      obtain ⟨i, o⟩ := entry
      rw [reconcileInputNote_of_created hc (hg.trans hg₀)] at h
      split_ifs at h with hne
      cases h
      exact ⟨hne, rfl⟩
    | none =>
      rw [reconcileInputNote_of_not_created hc (hg.trans hg₀)] at h
      cases hp : proofs.get hd.id with
      | none => rw [hp] at h; cases h
      | some p =>
        rw [hp] at h
        refine ⟨p, rfl, ?_⟩
        cases hb : chainMmr.getBlock p.location.blockNum with
        | none => simp only [hb] at h; cases h; rfl
        | some b =>
          simp only [hb] at h
          obtain h | ⟨_, -, h⟩ := bind_eq_error.mp h
          · unfold authenticateUnauthenticatedNote at h
            split at h
            · cases h
            · rename_i s hs
              cases h
              exact ⟨s, hs, rfl⟩
          · cases h

/-- The reconciliation loop, run on as in `reconcileInputNotes_ok`, fails at a first note: every
note before it passes `NoteChecks` against the full tracker, and the note fails as
`NoteFailure` says. -/
theorem reconcileInputNotes_error {T₀ T : BatchOutputNoteTracker}
    {q l : List InputNoteCommitment} {e : ProposedBatchError}
    (hT : ∀ k, T.outputNotes.get k = if k ∈ headerNoteIds q then none else T₀.outputNotes.get k)
    (hnd : (headerNoteIds (q ++ l)).Nodup)
    (h : reconcileInputNotes P chainMmr proofs T l = .error e) :
    ∃ pre c post, l = pre ++ c :: post ∧ (∀ c' ∈ pre, NoteChecks P chainMmr proofs T₀ c') ∧
      NoteFailure P chainMmr proofs T₀ c e := by
  induction l generalizing q T with
  | nil => cases h
  | cons c l ih =>
    obtain h₁ | ⟨⟨o, T₁⟩, h₁, h⟩ := bind_eq_error.mp h
    · exact ⟨[], c, l, rfl, by simp, reconcileInputNote_error (agrees_at_head hT hnd) h₁⟩
    obtain h | ⟨_, -, h⟩ := bind_eq_error.mp h
    · obtain ⟨-, hc, hT₁⟩ := reconcileInputNote_ok (fun _ => BTreeMap.get_isSome)
        (agrees_at_head hT hnd) h₁
      obtain ⟨pre, c', post, rfl, hpre, hf⟩ := ih (tracker_after hT hT₁) (by simpa using hnd) h
      exact ⟨c :: pre, c', post, rfl, forall_mem_cons.mpr ⟨hc, hpre⟩, hf⟩
    · cases h

/-- One input note reads the proofs only at its header id, and only when the tracker does not
hold that id. -/
theorem reconcileInputNote_proofs_congr {proofs' : BTreeMap NoteId NoteInclusionProof}
    {T : BatchOutputNoteTracker} {c : InputNoteCommitment}
    (hc : ∀ h, c.header = some h → T.outputNotes.get h.id = none →
      proofs'.get h.id = proofs.get h.id) :
    reconcileInputNote P chainMmr proofs' T c = reconcileInputNote P chainMmr proofs T c := by
  cases hh : c.header with
  | none => rw [reconcileInputNote_of_header_none hh, reconcileInputNote_of_header_none hh]
  | some h =>
    cases hg : T.outputNotes.get h.id with
    | none =>
      rw [reconcileInputNote_of_not_created hh hg, reconcileInputNote_of_not_created hh hg,
        hc h hh hg]
    | some e =>
      obtain ⟨i, o⟩ := e
      rw [reconcileInputNote_of_created hh hg, reconcileInputNote_of_created hh hg]

/-- The reconciliation loop, run on as in `reconcileInputNotes_ok`, reads the proofs only at the
header ids of notes the full tracker does not hold. -/
theorem reconcileInputNotes_proofs_congr {proofs' : BTreeMap NoteId NoteInclusionProof}
    {T₀ T : BatchOutputNoteTracker} {q l : List InputNoteCommitment}
    (hT : ∀ k, T.outputNotes.get k = if k ∈ headerNoteIds q then none else T₀.outputNotes.get k)
    (hnd : (headerNoteIds (q ++ l)).Nodup)
    (hpr : ∀ k ∈ headerNoteIds l, T₀.outputNotes.get k = none → proofs'.get k = proofs.get k) :
    reconcileInputNotes P chainMmr proofs' T l = reconcileInputNotes P chainMmr proofs T l := by
  induction l generalizing q T with
  | nil => rfl
  | cons c l ih =>
    have hsplit : headerNoteIds (c :: l) = headerNoteIds [c] ++ headerNoteIds l := by
      rw [← headerNoteIds_append, singleton_append]
    have hhead : ∀ h, c.header = some h → T.outputNotes.get h.id = none →
        proofs'.get h.id = proofs.get h.id := fun h hc hg =>
      hpr h.id (by rw [hsplit, headerNoteIds_singleton, hc]; simp)
        ((agrees_at_head hT hnd h hc).symm.trans hg)
    simp only [reconcileInputNotes, reconcileInputNote_proofs_congr hhead]
    refine bind_congr_ok fun ⟨o, T₁⟩ h₁ => ?_
    obtain ⟨-, -, hT₁⟩ := reconcileInputNote_ok (fun _ => BTreeMap.get_isSome)
      (agrees_at_head hT hnd) h₁
    rw [ih (tracker_after hT hT₁) (by simpa using hnd)
      fun k hk => hpr k (by rw [hsplit]; exact mem_append_right _ hk)]

/-- A chain MMR holding every block another one holds keeps each step that succeeds with the
other: the step reads the MMR only to look up the block of a proof. -/
theorem reconcileInputNote_of_more_blocks {mmr' : ChainMmr}
    (hb : ∀ n blk, chainMmr.getBlock n = some blk → mmr'.getBlock n = some blk)
    {T : BatchOutputNoteTracker} {c : InputNoteCommitment}
    {r : Option InputNoteCommitment × BatchOutputNoteTracker}
    (h : reconcileInputNote P chainMmr proofs T c = .ok r) :
    reconcileInputNote P mmr' proofs T c = .ok r := by
  cases hh : c.header with
  | none => rwa [reconcileInputNote_of_header_none hh] at h ⊢
  | some hd =>
    cases hg : T.outputNotes.get hd.id with
    | some e => rwa [reconcileInputNote_of_created hh hg] at h ⊢
    | none =>
      rw [reconcileInputNote_of_not_created hh hg] at h ⊢
      cases hp : proofs.get hd.id with
      | none => simpa [hp] using h
      | some p =>
        cases hblk : chainMmr.getBlock p.location.blockNum with
        | none => simp [hp, hblk] at h
        | some blk => simpa [hp, hblk, hb _ _ hblk] using h

theorem reconcileInputNotes_of_more_blocks {mmr' : ChainMmr}
    (hb : ∀ n blk, chainMmr.getBlock n = some blk → mmr'.getBlock n = some blk)
    {T : BatchOutputNoteTracker} {l : List InputNoteCommitment}
    {r : List InputNoteCommitment × BatchOutputNoteTracker}
    (h : reconcileInputNotes P chainMmr proofs T l = .ok r) :
    reconcileInputNotes P mmr' proofs T l = .ok r := by
  induction l generalizing T r with
  | nil => exact h
  | cons c l ih =>
    obtain ⟨⟨o, T₁⟩, h₁, h⟩ := bind_eq_ok.mp h
    obtain ⟨⟨rest, T₂⟩, h₂, h⟩ := bind_eq_ok.mp h
    rw [reconcileInputNotes, reconcileInputNote_of_more_blocks hb h₁, ok_bind]
    exact bind_eq_ok.mpr ⟨_, ih h₂, h⟩

end ProposedBatch
end MidenBatch
