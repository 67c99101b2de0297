import ContextIntelligence.Lib.Effects

/-!
# Computations with a record of their calls

A computation with a record of the calls it makes, in order, from each state. `Acts` says that the
observed part of the state is moved by the recorded calls and by nothing else, `Only` that every
recorded call has a property. Both compose.
-/

namespace ContextIntelligence.Lib.Recording

open Lib.Effects

variable {σ ε κ α β τ : Type}

/-- A computation, and the calls it makes when it is started in a state. -/
structure Recorded (σ ε κ α : Type) where
  run : Eff σ ε α
  calls : σ → List κ

namespace Recorded

def lift (m : Eff σ ε α) : Recorded σ ε κ α := ⟨m, fun _ => []⟩

/-- The calls of the second part are those it makes where the first part ended. -/
protected def bind (m : Recorded σ ε κ α) (k : α → Recorded σ ε κ β) : Recorded σ ε κ β where
  run := m.run >>= fun a => (k a).run
  calls s := m.calls s ++
    match m.run s with
    | (.ok a, s') => (k a).calls s'
    | (.error _, _) => []

instance : Monad (Recorded σ ε κ) where
  pure a := lift (pure a)
  bind := Recorded.bind

def quietly (m : Recorded σ ε κ Unit) : Recorded σ ε κ Unit := ⟨Eff.quietly m.run, m.calls⟩

@[simp] theorem run_pure (a : α) : (pure a : Recorded σ ε κ α).run = pure a := rfl

@[simp] theorem run_lift (m : Eff σ ε α) : (lift m : Recorded σ ε κ α).run = m := rfl

@[simp] theorem run_bind (m : Recorded σ ε κ α) (k : α → Recorded σ ε κ β) :
    (m >>= k).run = m.run >>= fun a => (k a).run := rfl

@[simp] theorem run_ite {c : Prop} [Decidable c] (m n : Recorded σ ε κ α) :
    (if c then m else n).run = if c then m.run else n.run := apply_ite run c m n

@[simp] theorem run_quietly (m : Recorded σ ε κ Unit) : (quietly m).run = Eff.quietly m.run := rfl

@[simp] theorem calls_lift (m : Eff σ ε α) (s : σ) : (lift m : Recorded σ ε κ α).calls s = [] := rfl

variable {k : α → Recorded σ ε κ β} {m : Recorded σ ε κ α}

theorem calls_bind_of_ok {s s' : σ} {a : α}
    (h : m.run s = (.ok a, s')) : (m >>= k).calls s = m.calls s ++ (k a).calls s' := by
  change m.calls s ++ _ = _
  rw [h]

theorem calls_bind_of_error {s s' : σ} {e : ε}
    (h : m.run s = (.error e, s')) : (m >>= k).calls s = m.calls s := by
  change m.calls s ++ _ = _
  rw [h, List.append_nil]

theorem mem_calls_bind_left {s : σ} {call : κ} (h : call ∈ m.calls s) : call ∈ (m >>= k).calls s :=
  List.mem_append_left _ h

theorem mem_calls_bind_right {s s' : σ} {a : α}
    {call : κ} (hrun : m.run s = (.ok a, s')) (h : call ∈ (k a).calls s') :
    call ∈ (m >>= k).calls s := by
  rw [calls_bind_of_ok hrun]
  exact List.mem_append_right _ h

end Recorded

open Recorded

/-! ## The observed part moves by the calls -/

/-- `f` of the state is moved by the recorded calls alone. -/
def Acts (f : σ → τ) (act : τ → κ → τ) (m : Recorded σ ε κ α) : Prop :=
  ∀ s, f (m.run s).2 = (m.calls s).foldl act (f s)

namespace Acts

variable {f : σ → τ} {act : τ → κ → τ}

theorem lift {m : Eff σ ε α} (h : Respects (Keeps f) m) : Acts f act (Recorded.lift m) := h

theorem pure (a : α) : Acts f act (Pure.pure a : Recorded σ ε κ α) := fun _ => rfl

theorem bind {m : Recorded σ ε κ α} {k : α → Recorded σ ε κ β} (hm : Acts f act m)
    (hk : ∀ a, Acts f act (k a)) : Acts f act (m >>= k) := by
  intro s
  have hfirst := hm s
  rcases hrun : m.run s with ⟨e | a, s'⟩
  · rw [calls_bind_of_error hrun, run_bind, Eff.bind_of_error hrun, ← hfirst, hrun]
  · rw [calls_bind_of_ok hrun, run_bind, Eff.bind_of_ok hrun, List.foldl_append, ← hfirst, hrun]
    exact hk a s'

theorem ite {c : Prop} [Decidable c] {m n : Recorded σ ε κ α} (hm : Acts f act m)
    (hn : Acts f act n) : Acts f act (if c then m else n) := by
  split
  · exact hm
  · exact hn

theorem quietly {m : Recorded σ ε κ Unit} (h : Acts f act m) : Acts f act (Recorded.quietly m) := h

end Acts

/-! ## Properties of all calls -/

/-- Every recorded call satisfies `P`. -/
def Only (P : κ → Prop) (m : Recorded σ ε κ α) : Prop := ∀ s, ∀ call ∈ m.calls s, P call

namespace Only

variable {P : κ → Prop}

theorem lift (m : Eff σ ε α) : Only P (Recorded.lift m) := nofun

theorem pure (a : α) : Only P (Pure.pure a : Recorded σ ε κ α) := nofun

/-- The calls of a sequence from one state, where those of the first part are known there. -/
theorem bind_at {m : Recorded σ ε κ α} {k : α → Recorded σ ε κ β} {s : σ}
    (hm : ∀ call ∈ m.calls s, P call) (hk : ∀ a, Only P (k a)) :
    ∀ call ∈ (m >>= k).calls s, P call := by
  intro call hcall
  rcases hrun : m.run s with ⟨e | a, s'⟩
  · rw [calls_bind_of_error hrun] at hcall
    exact hm call hcall
  · rw [calls_bind_of_ok hrun] at hcall
    rcases List.mem_append.1 hcall with hcall | hcall
    · exact hm call hcall
    · exact hk a s' call hcall

theorem bind {m : Recorded σ ε κ α} {k : α → Recorded σ ε κ β} (hm : Only P m)
    (hk : ∀ a, Only P (k a)) : Only P (m >>= k) :=
  fun s => bind_at (hm s) hk

theorem ite {c : Prop} [Decidable c] {m n : Recorded σ ε κ α} (hm : Only P m) (hn : Only P n) :
    Only P (if c then m else n) := by
  split
  · exact hm
  · exact hn

theorem quietly {m : Recorded σ ε κ Unit} (h : Only P m) : Only P (Recorded.quietly m) := h

theorem mono {Q : κ → Prop} {m : Recorded σ ε κ α} (hm : Only P m) (h : ∀ call, P call → Q call) :
    Only Q m :=
  fun s call hcall => h call (hm s call hcall)

end Only

/-- Where every recorded call moves the observed part along `R`, so does the computation. -/
theorem Acts.related {f : σ → τ} {act : τ → κ → τ} {P : κ → Prop} {m : Recorded σ ε κ α}
    {R : τ → τ → Prop} [Std.Refl R] [IsTrans τ R] (hacts : Acts f act m) (honly : Only P m)
    (hstep : ∀ call, P call → ∀ t, R t (act t call)) (s : σ) : R (f s) (f (m.run s).2) := by
  rw [hacts s]
  have hcalls := honly s
  generalize m.calls s = calls at hcalls
  generalize f s = t
  induction calls generalizing t with
  | nil => exact Std.Refl.refl t
  | cons call rest ih =>
    obtain ⟨hcall, hrest⟩ := List.forall_mem_cons.1 hcalls
    exact IsTrans.trans _ _ _ (hstep call hcall t) (ih hrest _)

end ContextIntelligence.Lib.Recording
