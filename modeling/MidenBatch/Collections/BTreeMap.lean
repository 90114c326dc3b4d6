import Mathlib

/-! Rust's `BTreeMap` as the key-sorted list of its entries. `insert` and `remove` return
the previous value as the Rust methods do; maps with equal lookups are equal. -/
namespace MidenBatch
open List

/-- The in-order entries of a `BTreeMap`, strictly increasing by key. -/
structure BTreeMap (K V : Type) [LinearOrder K] where
  entries : List (Σ _ : K, V)
  sorted : entries.Sorted (fun a b => a.1 < b.1)

namespace BTreeMap
variable {K V ε : Type} [LinearOrder K]

/-- Sorted insertion into an entry list, replacing the entry of an equal key. -/
def insertEntry (k : K) (v : V) : List (Σ _ : K, V) → List (Σ _ : K, V)
  | [] => [⟨k, v⟩]
  | e :: es =>
    if k < e.1 then ⟨k, v⟩ :: e :: es
    else if k = e.1 then ⟨k, v⟩ :: es
    else e :: insertEntry k v es

private theorem mem_insertEntry {k : K} {v : V} {a : Σ _ : K, V} {l : List (Σ _ : K, V)}
    (h : a ∈ insertEntry k v l) : a = ⟨k, v⟩ ∨ a ∈ l := by
  induction l with
  | nil => simpa [insertEntry] using h
  | cons e es ih =>
    simp only [insertEntry] at h
    split_ifs at h <;> simp only [mem_cons] at h ⊢ <;> tauto

theorem sorted_insertEntry (k : K) (v : V) {l : List (Σ _ : K, V)}
    (h : l.Sorted (fun a b => a.1 < b.1)) : (insertEntry k v l).Sorted (fun a b => a.1 < b.1) := by
  induction l with
  | nil => simp [insertEntry]
  | cons e es ih =>
    have he : ∀ a ∈ es, e.1 < a.1 := fun _ => rel_of_pairwise_cons h
    simp only [insertEntry]
    split_ifs with hlt heq
    · exact pairwise_cons.mpr ⟨fun a ha => (mem_cons.mp ha).elim (· ▸ hlt) (hlt.trans ∘ he a), h⟩
    · exact pairwise_cons.mpr ⟨fun a ha => heq ▸ he a ha, h.of_cons⟩
    · refine pairwise_cons.mpr
        ⟨fun a ha => (mem_insertEntry ha).elim (fun e' => ?_) (he a), ih h.of_cons⟩
      subst e'
      exact lt_of_le_of_ne (not_lt.mp hlt) (Ne.symm heq)

theorem dlookup_cons_entry (e : Σ _ : K, V) (l : List (Σ _ : K, V)) (k : K) :
    (e :: l).dlookup k = if k = e.1 then some e.2 else l.dlookup k := by
  obtain ⟨k', v⟩ := e
  by_cases h : k = k'
  · subst h; simp [dlookup_cons_eq]
  · simp [h, dlookup_cons_ne l ⟨k', v⟩ h]

theorem dlookup_insertEntry (k k' : K) (v : V) (l : List (Σ _ : K, V)) :
    (insertEntry k v l).dlookup k' = if k' = k then some v else l.dlookup k' := by
  induction l with
  | nil => simp [insertEntry, dlookup_cons_entry]
  | cons e es ih =>
    simp only [insertEntry]
    split_ifs with h1 h2 <;> simp only [dlookup_cons_entry, ih] <;> split_ifs <;> simp_all

def new : BTreeMap K V := ⟨[], sorted_nil⟩

/-- `BTreeMap::get`. -/
def get (m : BTreeMap K V) (k : K) : Option V := m.entries.dlookup k

/-- `BTreeMap::insert`: the value `k` had, and the map with `k ↦ v`. -/
def insert (m : BTreeMap K V) (k : K) (v : V) : Option V × BTreeMap K V :=
  (m.get k, ⟨insertEntry k v m.entries, sorted_insertEntry k v m.sorted⟩)

/-- `BTreeMap::remove`: the value `k` had, and the map without `k`. -/
def remove (m : BTreeMap K V) (k : K) : Option V × BTreeMap K V :=
  (m.get k, ⟨m.entries.kerase k, m.sorted.sublist (kerase_sublist k _)⟩)

/-- `BTreeMap::len`. -/
def len (m : BTreeMap K V) : Nat := m.entries.length

/-- `BTreeMap::values`, in key order. -/
def values (m : BTreeMap K V) : List V := m.entries.map (·.2)

theorem nodupKeys (m : BTreeMap K V) : m.entries.NodupKeys :=
  nodupKeys_iff_pairwise.mpr (m.sorted.imp ne_of_lt)

@[simp] theorem get_new (k : K) : (new : BTreeMap K V).get k = none := rfl

@[simp] theorem insert_fst (m : BTreeMap K V) (k : K) (v : V) : (m.insert k v).1 = m.get k := rfl

@[simp] theorem remove_fst (m : BTreeMap K V) (k : K) : (m.remove k).1 = m.get k := rfl

@[simp] theorem get_insert (m : BTreeMap K V) (k k' : K) (v : V) :
    (m.insert k v).2.get k' = if k' = k then some v else m.get k' :=
  dlookup_insertEntry k k' v m.entries

@[simp] theorem get_remove (m : BTreeMap K V) (k k' : K) :
    (m.remove k).2.get k' = if k' = k then none else m.get k' := by
  by_cases h : k' = k
  · subst h; simp [remove, get, dlookup_kerase k' m.nodupKeys]
  · simp [remove, get, h, dlookup_kerase_ne (Ne.symm h)]

theorem mem_entries {m : BTreeMap K V} {k : K} {v : V} : ⟨k, v⟩ ∈ m.entries ↔ m.get k = some v :=
  (mem_dlookup_iff m.nodupKeys).symm

theorem get_isSome {m : BTreeMap K V} {k : K} : (m.get k).isSome ↔ k ∈ m.entries.keys :=
  dlookup_isSome

/-- A map is determined by its lookups: the entry list is canonical. -/
@[ext] theorem ext {m m' : BTreeMap K V} (h : ∀ k, m.get k = m'.get k) : m = m' := by
  have : IsAntisymm (Σ _ : K, V) (fun a b => a.1 < b.1) :=
    ⟨fun _ _ hab hba => absurd hab (not_lt.mpr hba.le)⟩
  obtain ⟨l, hl⟩ := m
  obtain ⟨l', hl'⟩ := m'
  have hp : l ~ l' := lookup_ext (nodupKeys ⟨l, hl⟩) (nodupKeys ⟨l', hl'⟩)
    fun k v => by rw [show l.dlookup k = l'.dlookup k from h k]
  cases eq_of_perm_of_sorted hp hl hl'
  rfl

/-- Insert `entries` into `m` in order, stopping with `err key first second` at the first key
already present. Every duplicate check of the batch constructor is this loop. -/
def collectUnique (err : K → V → V → ε) (m : BTreeMap K V) :
    List (Σ _ : K, V) → Except ε (BTreeMap K V)
  | [] => .ok m
  | e :: es =>
    match m.insert e.1 e.2 with
    | (some first, _) => .error (err e.1 first e.2)
    | (none, m') => collectUnique err m' es

omit [LinearOrder K] in
theorem not_mem_keys_iff {k : K} {l : List (Σ _ : K, V)} : k ∉ l.keys ↔ ∀ p ∈ l, p.1 ≠ k := by
  simp only [keys, mem_map, not_exists, not_and]

theorem get_insert_eq_none {m : BTreeMap K V} {k k' : K} {v : V} :
    (m.insert k v).2.get k' = none ↔ k' ≠ k ∧ m.get k' = none := by
  by_cases h : k' = k <;> simp [h]

private theorem collectUnique_cons_of_get_none {err : K → V → V → ε} {m : BTreeMap K V}
    {e : Σ _ : K, V} {es : List (Σ _ : K, V)} (h : m.get e.1 = none) :
    collectUnique err m (e :: es) = collectUnique err (m.insert e.1 e.2).2 es := by
  simp [collectUnique, insert, h]

private theorem collectUnique_cons_of_get_some {err : K → V → V → ε} {m : BTreeMap K V}
    {e : Σ _ : K, V} {es : List (Σ _ : K, V)} {first : V} (h : m.get e.1 = some first) :
    collectUnique err m (e :: es) = .error (err e.1 first e.2) := by
  simp [collectUnique, insert, h]

/-- The loop succeeds exactly when the keys are distinct and new to `m`. -/
theorem collectUnique_ok_iff (err : K → V → V → ε) (m : BTreeMap K V) (l : List (Σ _ : K, V)) :
    (∃ m', collectUnique err m l = .ok m') ↔ l.NodupKeys ∧ ∀ e ∈ l, m.get e.1 = none := by
  induction l generalizing m with
  | nil => simp [collectUnique, nodupKeys_nil]
  | cons e es ih =>
    cases hm : m.get e.1 with
    | some first => simp [collectUnique_cons_of_get_some hm, hm]
    | none =>
      rw [collectUnique_cons_of_get_none hm, ih, nodupKeys_cons, not_mem_keys_iff]
      simp only [get_insert_eq_none, mem_cons, forall_eq_or_imp, hm, true_and, forall_and]
      tauto

/-- On success every key is bound to its entry's value, or keeps its value in `m`. -/
theorem get_collectUnique {err : K → V → V → ε} {m m' : BTreeMap K V} {l : List (Σ _ : K, V)}
    (h : collectUnique err m l = .ok m') (k : K) : m'.get k = (l.dlookup k).or (m.get k) := by
  induction l generalizing m with
  | nil => cases h; rfl
  | cons e es ih =>
    cases hm : m.get e.1 with
    | some first => simp [collectUnique_cons_of_get_some hm] at h
    | none =>
      rw [collectUnique_cons_of_get_none hm] at h
      have hfresh : e.1 ∉ es.keys := not_mem_keys_iff.mpr fun p hp =>
        (get_insert_eq_none.mp (((collectUnique_ok_iff err _ _).mp ⟨m', h⟩).2 p hp)).1
      rw [ih h, get_insert, dlookup_cons_entry]
      by_cases hk : k = e.1
      · subst hk; simp [dlookup_eq_none.mpr hfresh]
      · simp [hk]

/-- A failure names the first entry whose key is already bound, in `m` or by an earlier
entry, together with that earlier value. -/
theorem collectUnique_error {err : K → V → V → ε} {m : BTreeMap K V} {l : List (Σ _ : K, V)}
    {x : ε} (h : collectUnique err m l = .error x) :
    ∃ pre e post first, l = pre ++ e :: post ∧ pre.NodupKeys ∧ (∀ p ∈ pre, m.get p.1 = none) ∧
      (pre.dlookup e.1).or (m.get e.1) = some first ∧ x = err e.1 first e.2 := by
  induction l generalizing m with
  | nil => simp [collectUnique] at h
  | cons e es ih =>
    cases hm : m.get e.1 with
    | some first =>
      rw [collectUnique_cons_of_get_some hm] at h
      exact ⟨[], e, es, first, rfl, nodupKeys_nil, by simp, by simp [hm], (Except.error.inj h).symm⟩
    | none =>
      rw [collectUnique_cons_of_get_none hm] at h
      obtain ⟨pre, e', post, first, rfl, hnd, hpre, hfirst, rfl⟩ := ih h
      have hne : ∀ p ∈ pre, p.1 ≠ e.1 := fun p hp => (get_insert_eq_none.mp (hpre p hp)).1
      refine ⟨e :: pre, e', post, first, rfl, nodupKeys_cons.mpr ⟨not_mem_keys_iff.mpr hne, hnd⟩,
        ?_, ?_, rfl⟩
      · simp only [mem_cons, forall_eq_or_imp, hm, true_and]
        exact fun p hp => (get_insert_eq_none.mp (hpre p hp)).2
      · rw [dlookup_cons_entry]
        by_cases hk : e'.1 = e.1
        · rw [hk, dlookup_eq_none.mpr (not_mem_keys_iff.mpr hne), get_insert] at hfirst
          simpa [hk] using hfirst
        · simpa [hk] using hfirst

/-- From an empty map, the loop fails at the first entry whose key is already in the list
before it, naming that key's first value and the entry's own. -/
theorem new_collectUnique_error {err : K → V → V → ε} {l : List (Σ _ : K, V)} {x : ε}
    (h : (new : BTreeMap K V).collectUnique err l = .error x) :
    ∃ pre e post first, l = pre ++ e :: post ∧ pre.NodupKeys ∧ pre.dlookup e.1 = some first ∧
      x = err e.1 first e.2 := by
  obtain ⟨pre, e, post, first, hl, hnd, -, hf, hx⟩ := collectUnique_error h
  exact ⟨pre, e, post, first, hl, hnd, by simpa using hf, hx⟩

end BTreeMap
end MidenBatch
