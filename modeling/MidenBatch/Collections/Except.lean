import Mathlib

/-! Inversion of `Except` binds, so that a run of a fallible loop is peeled one step at a
time without unfolding the monad. -/
namespace MidenBatch
variable {ε α β : Type}

@[simp] theorem except_pure_eq (a : α) : (pure a : Except ε α) = .ok a := rfl

@[simp] theorem ok_bind (a : α) (f : α → Except ε β) : (Except.ok a >>= f) = f a := rfl

@[simp] theorem error_bind (e : ε) (f : α → Except ε β) : (Except.error e >>= f) = .error e := rfl

@[simp] theorem map_ok (f : α → β) (a : α) : (f <$> Except.ok a : Except ε β) = .ok (f a) := rfl

@[simp] theorem map_error (f : α → β) (e : ε) : (f <$> Except.error e : Except ε β) = .error e :=
  rfl

theorem bind_eq_ok {x : Except ε α} {f : α → Except ε β} {b : β} :
    (x >>= f) = .ok b ↔ ∃ a, x = .ok a ∧ f a = .ok b := by
  cases x <;> simp

theorem bind_eq_error {x : Except ε α} {f : α → Except ε β} {e : ε} :
    (x >>= f) = .error e ↔ x = .error e ∨ ∃ a, x = .ok a ∧ f a = .error e := by
  cases x <;> simp

theorem bind_congr_ok {x : Except ε α} {g g' : α → Except ε β}
    (h : ∀ a, x = .ok a → g a = g' a) : x >>= g = x >>= g' := by
  cases x with
  | error e => rfl
  | ok a => exact h a rfl

/-- Two runs that share their first step agree, up to `f` on the result, when their
continuations do on every value the step returns. -/
theorem bind_eq_map_bind {γ : Type} {x : Except ε α} {g : α → Except ε β} {g' : α → Except ε γ}
    {f : γ → β} (h : ∀ a, x = .ok a → g a = f <$> g' a) : x >>= g = f <$> (x >>= g') := by
  cases x with
  | error e => rfl
  | ok a => exact h a rfl

/-- A fallible left fold fails at a first element: the fold over the elements before it
succeeds, and the step on it raises the error. -/
theorem foldlM_eq_error {f : β → α → Except ε β} {b : β} {l : List α} {e : ε}
    (h : l.foldlM f b = .error e) :
    ∃ pre a post b', l = pre ++ a :: post ∧ pre.foldlM f b = .ok b' ∧ f b' a = .error e := by
  induction l generalizing b with
  | nil => cases h
  | cons a l ih =>
    rw [List.foldlM_cons] at h
    obtain h | ⟨b₁, h₁, h⟩ := bind_eq_error.mp h
    · exact ⟨[], a, l, b, rfl, rfl, h⟩
    · obtain ⟨pre, a', post, b', rfl, hpre, h'⟩ := ih h
      exact ⟨a :: pre, a', post, b', rfl, by rw [List.foldlM_cons, h₁, ok_bind, hpre], h'⟩

end MidenBatch
