import MidenBatch.Batch.Spec

/-! The account-update loop of `ProposedBatch::new`. After any prefix of the batch, each
account's entry is `chainUpdate` of its transactions so far and the expiration is the least
of theirs; the loop fails only when some account's transactions do not chain. -/
namespace MidenBatch.ProposedBatch
open BatchAccountUpdate

variable {P : Primitives}

theorem accountTransactions_append_single (p : List ProvenTransaction) (t : ProvenTransaction)
    (a : AccountId) : accountTransactions (p ++ [t]) a =
      if t.accountId = a then accountTransactions p a ++ [t] else accountTransactions p a := by
  by_cases h : t.accountId = a <;> simp [accountTransactions, List.filter_append, h]

theorem accountTransactions_append (p q : List ProvenTransaction) (a : AccountId) :
    accountTransactions (p ++ q) a = accountTransactions p a ++ accountTransactions q a := by
  simp [accountTransactions, List.filter_append]

theorem chainUpdate_cons (t : ProvenTransaction) (ts : List ProvenTransaction) :
    chainUpdate P (t :: ts) = some <$> ts.foldlM (mergeProvenTx P) (fromTransaction t) := rfl

theorem chainUpdate_append_single_of_none {l : List ProvenTransaction}
    (h : chainUpdate P l = .ok none) (t : ProvenTransaction) :
    chainUpdate P (l ++ [t]) = .ok (some (fromTransaction t)) := by
  cases l with
  | nil => rfl
  | cons x xs =>
    rw [chainUpdate_cons] at h
    cases hf : xs.foldlM (mergeProvenTx P) (fromTransaction x) <;> simp [hf] at h

/-- Appending a transaction to an account's chain merges it into the aggregate so far. -/
theorem chainUpdate_append_single_of_some {l : List ProvenTransaction} {u : BatchAccountUpdate}
    (h : chainUpdate P l = .ok (some u)) (t : ProvenTransaction) :
    chainUpdate P (l ++ [t]) = some <$> mergeProvenTx P u t := by
  cases l with
  | nil => cases h
  | cons x xs =>
    rw [chainUpdate_cons] at h
    cases hf : xs.foldlM (mergeProvenTx P) (fromTransaction x) with
    | error e => simp [hf] at h
    | ok u' =>
      simp only [hf, map_ok, Except.ok.injEq, Option.some.injEq] at h
      subst h
      rw [List.cons_append, chainUpdate_cons, List.foldlM_append, hf, ok_bind]
      simp only [List.foldlM_cons, List.foldlM_nil]
      cases mergeProvenTx P u' t <;> rfl

theorem chainUpdate_ok_of_append {l r : List ProvenTransaction} {o : Option BatchAccountUpdate}
    (h : chainUpdate P (l ++ r) = .ok o) : ∃ o', chainUpdate P l = .ok o' := by
  cases l with
  | nil => exact ⟨none, rfl⟩
  | cons x xs =>
    rw [List.cons_append, chainUpdate_cons, List.foldlM_append] at h
    cases hf : xs.foldlM (mergeProvenTx P) (fromTransaction x) with
    | error e => simp [hf] at h
    | ok u => exact ⟨some u, by simp [chainUpdate_cons, hf]⟩

/-- The loop state after the transactions `p`: each account's entry is the aggregate of its
transactions in `p`, and the expiration is the least of theirs, or `u32::MAX` for none. -/
structure Aggregates (P : Primitives) (p : List ProvenTransaction)
    (acc : BTreeMap AccountId BatchAccountUpdate × BlockNumber) : Prop where
  updates : ∀ a, chainUpdate P (accountTransactions p a) = .ok (acc.1.get a)
  expiration_le : ∀ t ∈ p, acc.2 ≤ t.expirationBlockNum
  expiration_mem : acc.2 = BlockNumber.u32Max ∨ ∃ t ∈ p, acc.2 = t.expirationBlockNum

theorem aggregates_nil : Aggregates P [] (BTreeMap.new, BlockNumber.u32Max) :=
  ⟨fun _ => rfl, by simp, .inl rfl⟩

private theorem aggregates_expiration {p : List ProvenTransaction}
    {acc : BTreeMap AccountId BatchAccountUpdate × BlockNumber} (h : Aggregates P p acc)
    (t : ProvenTransaction) :
    (∀ t' ∈ p ++ [t], min acc.2 t.expirationBlockNum ≤ t'.expirationBlockNum) ∧
      (min acc.2 t.expirationBlockNum = BlockNumber.u32Max ∨
        ∃ t' ∈ p ++ [t], min acc.2 t.expirationBlockNum = t'.expirationBlockNum) := by
  refine ⟨fun t' ht' => ?_, ?_⟩
  · rcases List.mem_append.mp ht' with ht' | ht'
    · exact (min_le_left _ _).trans (h.expiration_le t' ht')
    · rw [List.mem_singleton.mp ht']; exact min_le_right _ _
  · rcases le_total acc.2 t.expirationBlockNum with hm | hm
    · rw [min_eq_left hm]
      exact h.expiration_mem.imp_right fun ⟨t', ht', he⟩ => ⟨t', by simp [ht'], he⟩
    · exact .inr ⟨t, by simp, min_eq_right hm⟩

/-- One iteration keeps the loop state aggregating the transactions seen so far. -/
theorem aggregates_step {p : List ProvenTransaction} {t : ProvenTransaction}
    {acc acc' : BTreeMap AccountId BatchAccountUpdate × BlockNumber}
    (h : Aggregates P p acc) (hs : aggregateStep P acc t = .ok acc') :
    Aggregates P (p ++ [t]) acc' := by
  have hu := h.updates t.accountId
  obtain ⟨hle, hmem⟩ := aggregates_expiration h t
  unfold aggregateStep at hs
  split at hs
  · rename_i hn
    cases hs
    refine ⟨fun a => ?_, hle, hmem⟩
    rw [accountTransactions_append_single]
    by_cases ha : t.accountId = a
    · subst ha; simp [chainUpdate_append_single_of_none (hn ▸ hu)]
    · simp [ha, Ne.symm ha, h.updates a]
  · rename_i u hs'
    split at hs
    · rename_i merged hm
      cases hs
      refine ⟨fun a => ?_, hle, hmem⟩
      rw [accountTransactions_append_single]
      by_cases ha : t.accountId = a
      · subst ha; simp [chainUpdate_append_single_of_some (hs' ▸ hu), hm]
      · simp [ha, Ne.symm ha, h.updates a]
    · cases hs

/-- The loop run on from a state aggregating `p` ends aggregating `p` and the rest. -/
theorem aggregates_run {p txs : List ProvenTransaction}
    {acc acc' : BTreeMap AccountId BatchAccountUpdate × BlockNumber} (h : Aggregates P p acc)
    (hr : txs.foldlM (aggregateStep P) acc = .ok acc') : Aggregates P (p ++ txs) acc' := by
  induction txs generalizing p acc with
  | nil => cases hr; simpa using h
  | cons t ts ih =>
    rw [List.foldlM_cons] at hr
    obtain ⟨acc₁, h₁, hr⟩ := bind_eq_ok.mp hr
    simpa using ih (aggregates_step h h₁) hr

theorem aggregateAccountUpdates_aggregates {txs : List ProvenTransaction}
    {acc : BTreeMap AccountId BatchAccountUpdate × BlockNumber}
    (h : aggregateAccountUpdates P txs = .ok acc) : Aggregates P txs acc := by
  simpa using aggregates_run aggregates_nil h

private theorem aggregateStep_ok_of {p : List ProvenTransaction} {t : ProvenTransaction}
    {acc : BTreeMap AccountId BatchAccountUpdate × BlockNumber} (h : Aggregates P p acc)
    (hc : ∃ o, chainUpdate P (accountTransactions (p ++ [t]) t.accountId) = .ok o) :
    ∃ acc', aggregateStep P acc t = .ok acc' := by
  unfold aggregateStep
  split
  · exact ⟨_, rfl⟩
  · rename_i u hs
    rw [accountTransactions_append_single, if_pos rfl,
      chainUpdate_append_single_of_some (hs ▸ h.updates t.accountId)] at hc
    obtain ⟨o, ho⟩ := hc
    cases hm : mergeProvenTx P u t with
    | ok merged => simp
    | error e => simp [hm] at ho

/-- The loop succeeds when every account's transactions aggregate. -/
theorem aggregates_run_ok_of {p txs : List ProvenTransaction}
    {acc : BTreeMap AccountId BatchAccountUpdate × BlockNumber} (h : Aggregates P p acc)
    (hc : ∀ a, ∃ o, chainUpdate P (accountTransactions (p ++ txs) a) = .ok o) :
    ∃ acc', txs.foldlM (aggregateStep P) acc = .ok acc' := by
  induction txs generalizing p acc with
  | nil => exact ⟨acc, rfl⟩
  | cons t ts ih =>
    have hc₁ : ∃ o, chainUpdate P (accountTransactions (p ++ [t]) t.accountId) = .ok o := by
      obtain ⟨o, ho⟩ := hc t.accountId
      rw [show p ++ t :: ts = (p ++ [t]) ++ ts by simp, accountTransactions_append] at ho
      exact chainUpdate_ok_of_append ho
    obtain ⟨acc₁, h₁⟩ := aggregateStep_ok_of h hc₁
    rw [List.foldlM_cons, h₁, ok_bind]
    exact ih (aggregates_step h h₁) (by simpa using hc)

theorem aggregateAccountUpdates_ok_of {txs : List ProvenTransaction}
    (hc : ∀ a, ∃ o, chainUpdate P (accountTransactions txs a) = .ok o) :
    ∃ acc, aggregateAccountUpdates P txs = .ok acc :=
  aggregates_run_ok_of aggregates_nil (by simpa using hc)

/-- The loop only fails with an account update error. -/
theorem foldlM_aggregateStep_error {txs : List ProvenTransaction}
    {acc : BTreeMap AccountId BatchAccountUpdate × BlockNumber} {e : ProposedBatchError}
    (h : txs.foldlM (aggregateStep P) acc = .error e) : ∃ a s, e = .accountUpdateError a s := by
  induction txs generalizing acc with
  | nil => cases h
  | cons t ts ih =>
    rw [List.foldlM_cons] at h
    cases hs : aggregateStep P acc t with
    | ok acc₁ => exact ih (by simpa [hs] using h)
    | error e' =>
      rw [hs, error_bind, Except.error.injEq] at h
      subst h
      unfold aggregateStep at hs
      split at hs
      · cases hs
      · split at hs
        · cases hs
        · cases hs; exact ⟨_, _, rfl⟩

theorem chainUpdate_eq_none_iff {ts : List ProvenTransaction} :
    chainUpdate P ts = .ok none ↔ ts = [] := by
  cases ts with
  | nil => simp [chainUpdate]
  | cons t ts =>
    rw [chainUpdate_cons]
    cases ts.foldlM (mergeProvenTx P) (fromTransaction t) <;> simp

/-- An account's transactions aggregate exactly when they chain and their details merge. -/
theorem chainUpdate_ok_iff (ts : List ProvenTransaction) :
    (∃ o, chainUpdate P ts = .ok o) ↔ ts.Chain' Chained ∧
      ∀ t rest, ts = t :: rest → ∃ d, mergeDetailsAll P t.accountUpdate.details rest = .ok d := by
  cases ts with
  | nil => exact ⟨fun _ => ⟨trivial, by simp⟩, fun _ => ⟨none, rfl⟩⟩
  | cons t rest =>
    have key := fun u => @foldlM_mergeProvenTx_eq_ok P (fromTransaction t) u t rest rfl
    rw [chainUpdate_cons]
    constructor
    · rintro ⟨o, ho⟩
      cases hf : rest.foldlM (mergeProvenTx P) (fromTransaction t) with
      | error e => simp [hf] at ho
      | ok u =>
        obtain ⟨hc, d, hd, -⟩ := (key u).mp hf
        exact ⟨hc, fun t' rest' he => by cases he; exact ⟨d, hd⟩⟩
    · rintro ⟨hc, hd⟩
      obtain ⟨d, hd⟩ := hd t rest rfl
      exact ⟨_, by rw [(key _).mpr ⟨hc, d, hd, rfl⟩, map_ok]⟩

/-- The aggregate of a chain starts where its first transaction starts, ends where its last
ends, and lists all of them in order. -/
theorem chainUpdate_eq_some {t : ProvenTransaction} {ts : List ProvenTransaction}
    {u : BatchAccountUpdate} (h : chainUpdate P (t :: ts) = .ok (some u)) :
    u.accountId = t.accountId ∧
      u.initialStateCommitment = t.accountUpdate.initialStateCommitment ∧
      u.finalStateCommitment =
        ((t :: ts).getLast (List.cons_ne_nil t ts)).accountUpdate.finalStateCommitment ∧
      u.transactions = (t :: ts).map (·.id) ∧ (t :: ts).Chain' Chained := by
  rw [chainUpdate_cons] at h
  cases hf : ts.foldlM (mergeProvenTx P) (fromTransaction t) with
  | error e => simp [hf] at h
  | ok u' =>
    simp only [hf, map_ok, Except.ok.injEq, Option.some.injEq] at h
    subst h
    obtain ⟨hc, d, -, rfl⟩ := (foldlM_mergeProvenTx_eq_ok P rfl).mp hf
    exact ⟨rfl, rfl, rfl, rfl, hc⟩

theorem Aggregates.get_isSome {txs : List ProvenTransaction}
    {acc : BTreeMap AccountId BatchAccountUpdate × BlockNumber} (h : Aggregates P txs acc)
    (a : AccountId) : (acc.1.get a).isSome ↔ a ∈ txs.map (·.accountId) := by
  have hu := h.updates a
  cases hg : acc.1.get a with
  | none =>
    rw [hg, chainUpdate_eq_none_iff, accountTransactions, List.filter_eq_nil_iff] at hu
    simpa using hu
  | some u =>
    rw [hg] at hu
    have hne : accountTransactions txs a ≠ [] := fun he => by simp [he, chainUpdate] at hu
    obtain ⟨t, ht, hta⟩ := List.exists_mem_of_ne_nil _ hne |>.imp fun t ht =>
      List.mem_filter.mp ht
    simpa using ⟨t, ht, of_decide_eq_true hta⟩

/-- The expiration is the same for any ordering of the same transactions. -/
theorem Aggregates.expiration_eq_of_perm {txs txs' : List ProvenTransaction}
    {acc acc' : BTreeMap AccountId BatchAccountUpdate × BlockNumber} (h : Aggregates P txs acc)
    (h' : Aggregates P txs' acc') (hp : txs.Perm txs') : acc'.2 = acc.2 := by
  have key : ∀ {l l' : List ProvenTransaction} {e e' : BlockNumber},
      (e = BlockNumber.u32Max ∨ ∃ t ∈ l, e = t.expirationBlockNum) →
      (∀ t ∈ l', e' ≤ t.expirationBlockNum) → l.Perm l' → e' ≤ e := by
    rintro l l' e e' (rfl | ⟨t, ht, rfl⟩) hle hp
    · exact BlockNumber.le_u32Max e'
    · exact hle t (hp.mem_iff.mp ht)
  exact le_antisymm (key h.expiration_mem h'.expiration_le hp)
    (key h'.expiration_mem h.expiration_le hp.symm)

/-- The map has one entry per distinct account of the transactions. -/
theorem Aggregates.len_eq {txs : List ProvenTransaction}
    {acc : BTreeMap AccountId BatchAccountUpdate × BlockNumber} (h : Aggregates P txs acc) :
    acc.1.len = (txs.map (·.accountId)).dedup.length := by
  have hp : acc.1.entries.keys.Perm (txs.map (·.accountId)).dedup :=
    (List.perm_ext_iff_of_nodup acc.1.nodupKeys (List.nodup_dedup _)).mpr fun a => by
      rw [List.mem_dedup, ← h.get_isSome, BTreeMap.get_isSome]
  simpa [BTreeMap.len, List.keys] using hp.length_eq

end MidenBatch.ProposedBatch
