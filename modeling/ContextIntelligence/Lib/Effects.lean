import Mathlib

/-!
# Computations that change a state and may raise

What a computation did before it raised stays done, so an exception carries the state with it.
`Respects R m` says that `m` moves every state along `R`, whether it returns or raises; for a
reflexive and transitive `R` it composes along the computation.
-/

namespace ContextIntelligence.Lib.Effects

variable {σ ε α β : Type}

/-- A computation over `σ` that returns an `α` or raises an `ε`. -/
def Eff (σ ε α : Type) : Type := σ → Except ε α × σ

namespace Eff

protected def pure (a : α) : Eff σ ε α := fun s => (.ok a, s)

protected def bind (m : Eff σ ε α) (k : α → Eff σ ε β) : Eff σ ε β := fun s =>
  match m s with
  | (.ok a, s') => k a s'
  | (.error e, s') => (.error e, s')

instance : Monad (Eff σ ε) where
  pure := Eff.pure
  bind := Eff.bind

def raise (e : ε) : Eff σ ε α := fun s => (.error e, s)

def get : Eff σ ε σ := fun s => (.ok s, s)

def modify (f : σ → σ) : Eff σ ε Unit := fun s => (.ok (), f s)

/-- A computation that is not allowed to raise: an exception ends it quietly. -/
def quietly (m : Eff σ ε Unit) : Eff σ ε Unit := fun s => (.ok (), (m s).2)

@[simp] theorem pure_apply (a : α) (s : σ) : (pure a : Eff σ ε α) s = (.ok a, s) := rfl

@[simp] theorem raise_apply (e : ε) (s : σ) : (raise e : Eff σ ε α) s = (.error e, s) := rfl

@[simp] theorem get_apply (s : σ) : (get : Eff σ ε σ) s = (.ok s, s) := rfl

@[simp] theorem modify_apply (f : σ → σ) (s : σ) : (modify f : Eff σ ε Unit) s = (.ok (), f s) :=
  rfl

theorem bind_apply (m : Eff σ ε α) (k : α → Eff σ ε β) (s : σ) :
    (m >>= k) s = match m s with
      | (.ok a, s') => k a s'
      | (.error e, s') => (.error e, s') := rfl

theorem bind_of_ok {m : Eff σ ε α} {k : α → Eff σ ε β} {s s' : σ} {a : α}
    (h : m s = (.ok a, s')) : (m >>= k) s = k a s' := by
  rw [bind_apply, h]

theorem bind_of_error {m : Eff σ ε α} {k : α → Eff σ ε β} {s s' : σ} {e : ε}
    (h : m s = (.error e, s')) : (m >>= k) s = (.error e, s') := by
  rw [bind_apply, h]

end Eff

/-! ## Frames -/

/-- The observation `f` is the same in both states. -/
def Keeps {τ : Type} (f : σ → τ) (s s' : σ) : Prop := f s' = f s

instance {τ : Type} (f : σ → τ) : Std.Refl (Keeps f) where
  refl _ := rfl

instance {τ : Type} (f : σ → τ) : IsTrans σ (Keeps f) where
  trans _ _ _ h h' := Eq.trans h' h

/-- The computation moves every state along `R`. -/
def Respects (R : σ → σ → Prop) (m : Eff σ ε α) : Prop := ∀ s, R s (m s).2

namespace Respects

variable {R : σ → σ → Prop}

section

variable [Std.Refl R]

theorem pure (a : α) : Respects R (Pure.pure a : Eff σ ε α) := fun s => refl s

theorem raise (e : ε) : Respects R (Eff.raise e : Eff σ ε α) := fun s => refl s

theorem get : Respects R (Eff.get : Eff σ ε σ) := fun s => refl s

end

theorem modify {f : σ → σ} (h : ∀ s, R s (f s)) : Respects R (Eff.modify f : Eff σ ε Unit) := h

theorem quietly {m : Eff σ ε Unit} (h : Respects R m) : Respects R (Eff.quietly m) := h

/-- What comes after `m` moves the state in which `m` ended. -/
theorem after [Std.Refl R] (m : Eff σ ε α) {k : α → Eff σ ε β} (hk : ∀ a, Respects R (k a))
    (s : σ) : R (m s).2 ((m >>= k) s).2 := by
  rw [Eff.bind_apply]
  rcases m s with ⟨_ | a, s'⟩
  · exact refl s'
  · exact hk a s'

theorem bind [Std.Refl R] [IsTrans σ R] {m : Eff σ ε α} {k : α → Eff σ ε β} (hm : Respects R m)
    (hk : ∀ a, Respects R (k a)) : Respects R (m >>= k) :=
  fun s => IsTrans.trans _ _ _ (hm s) (after m hk s)

theorem ite {c : Prop} [Decidable c] {m n : Eff σ ε α} (hm : Respects R m) (hn : Respects R n) :
    Respects R (if c then m else n) := by
  split
  · exact hm
  · exact hn

end Respects

end ContextIntelligence.Lib.Effects
