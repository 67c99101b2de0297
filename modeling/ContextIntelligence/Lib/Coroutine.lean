import Mathlib

/-!
# Coroutines under an adversarial scheduler

A coroutine runs alone between two of its awaits. A `Turn` is one resumption: the stimuli that
arrived, the values the awaited operation observes, and its fate: it completes, fails part way, or
the process dies inside it. When the turns are used up the run is observed there, so a statement
about every list of turns is about every interleaving and failure point. `Triple` is the program
logic, with a postcondition for a return, one for an exception, and an assertion for wherever the
run can be cut off.
-/

namespace ContextIntelligence.Lib.Coroutine

/-! ## Turns, outcomes and the monad -/

/-- What becomes of an awaited operation: it completes, it raises after `done` of its atomic
steps took effect, or the process dies after `done` of them. -/
inductive Fate (φ : Type) where
  | ok
  | raise (fault : φ) (done : Nat)
  | die (done : Nat)
  deriving DecidableEq, Repr

inductive Outcome (ε α : Type) where
  | ok (a : α)
  | raise (e : ε)
  | dead
  deriving DecidableEq, Repr

/-- One resumption of a coroutine that awaits an operation of type `ο`, which can fail with a
fault of type `φ`. -/
structure Turn (ο ι ρ φ : Type) where
  env : List ι
  reading : ρ
  fate : ο → Fate φ

/-- An awaited operation: what it returns and does when it completes, and what it leaves behind
when it is cut short. -/
structure Action (σ ρ α : Type) where
  finish : ρ → σ → α × σ
  abort : ρ → Nat → σ → σ

/-- A coroutine over a shared state `σ`, resumed by turns of type `τ`. -/
def Co (σ τ ε α : Type) : Type := σ → List τ → Outcome ε α × σ × List τ

namespace Co

variable {σ τ ε α β : Type}

/-- Return a value without awaiting. -/
protected def pure (a : α) : Co σ τ ε α := fun s ts => (.ok a, s, ts)

/-- Run one coroutine after another. -/
protected def bind (m : Co σ τ ε α) (k : α → Co σ τ ε β) : Co σ τ ε β := fun s ts =>
  match m s ts with
  | (.ok a, s', ts') => k a s' ts'
  | (.raise e, s', ts') => (.raise e, s', ts')
  | (.dead, s', ts') => (.dead, s', ts')

instance : Monad (Co σ τ ε) where
  pure := Co.pure
  bind := Co.bind

def raise (e : ε) : Co σ τ ε α := fun s ts => (.raise e, s, ts)

def get : Co σ τ ε σ := fun s ts => (.ok s, s, ts)

def modify (f : σ → σ) : Co σ τ ε Unit := fun s ts => (.ok (), f s, ts)

/-- Run `m` and hand an exception it raises to `handler`. Death is not an exception. -/
def tryCatch (m : Co σ τ ε α) (handler : ε → Co σ τ ε α) : Co σ τ ε α := fun s ts =>
  match m s ts with
  | (.ok a, s', ts') => (.ok a, s', ts')
  | (.raise e, s', ts') => handler e s' ts'
  | (.dead, s', ts') => (.dead, s', ts')

/-- At most `n` rounds of a loop whose body goes on with a new loop value or leaves. -/
def rounds (body : β → Co σ τ ε (β ⊕ α)) : Nat → β → Co σ τ ε α
  | 0, _ => fun s ts => (.dead, s, ts)
  | n + 1, b => Co.bind (body b) fun r =>
    match r with
    | .inl b' => rounds body n b'
    | .inr a => Co.pure a

/-- An endless loop. Each round of it awaits, so it cannot go round more often than there are
turns. -/
def loop (body : β → Co σ τ ε (β ⊕ α)) (b : β) : Co σ τ ε α := fun s ts =>
  rounds body (ts.length + 1) b s ts

/-- Run `m` under altered turns, for instance with cancellation held back, and give back the
turns it did not use as they were. -/
def masked (mask : τ → τ) (m : Co σ τ ε α) : Co σ τ ε α := fun s ts =>
  let r := m s (ts.map mask)
  (r.1, r.2.1, ts.drop (ts.length - r.2.2.length))

theorem bind_of_ok {m : Co σ τ ε α} {k : α → Co σ τ ε β} {s s' : σ} {ts ts' : List τ} {a : α}
    (h : m s ts = (.ok a, s', ts')) : (m >>= k) s ts = k a s' ts' := by
  simp only [Bind.bind, Co.bind, h]

theorem tryCatch_congr {m m' : Co σ τ ε α} {handler : ε → Co σ τ ε α} {s s' : σ}
    {ts ts' : List τ} (h : m s ts = m' s' ts') :
    Co.tryCatch m handler s ts = Co.tryCatch m' handler s' ts' := by
  simp only [Co.tryCatch, h]

end Co

/-- Await one operation: the other tasks act, then the operation meets its fate. `exn` is the
exception a fault is raised as. -/
def await {σ ο ι ρ φ ε α : Type} (stim : ι → σ → σ) (exn : φ → ε) (o : ο)
    (act : Action σ ρ α) : Co σ (Turn ο ι ρ φ) ε α
  | s, [] => (.dead, s, [])
  | s, t :: ts =>
    let s' := t.env.foldl (fun s i => stim i s) s
    match t.fate o with
    | .ok => (.ok (act.finish t.reading s').1, (act.finish t.reading s').2, ts)
    | .raise f k => (.raise (exn f), act.abort t.reading k s', ts)
    | .die k => (.dead, act.abort t.reading k s', [])

/-! ## The program logic -/

def Post {σ ε α : Type} (D : σ → Prop) (Q : α → σ → Prop) (E : ε → σ → Prop) :
    Outcome ε α → σ → Prop
  | .ok a => Q a
  | .raise e => E e
  | .dead => D

/-- From every state that meets `P`, under turns that all meet `A`, a normal return meets `Q`,
an exception meets `E` and a run cut off anywhere meets `D`. -/
def Triple {σ τ ε α : Type} (A : τ → Prop) (D : σ → Prop) (P : σ → Prop) (m : Co σ τ ε α)
    (Q : α → σ → Prop) (E : ε → σ → Prop) : Prop :=
  ∀ s ts, (∀ t ∈ ts, A t) → P s →
    Post D Q E (m s ts).1 (m s ts).2.1 ∧ ∀ t ∈ (m s ts).2.2, A t

namespace Triple

variable {σ τ ε α β : Type} {A : τ → Prop} {D : σ → Prop} {m : Co σ τ ε α}

theorem conseq {P P' : σ → Prop} {Q Q' : α → σ → Prop} {E E' : ε → σ → Prop}
    (h : Triple A D P' m Q' E') (hP : ∀ s, P s → P' s) (hQ : ∀ a s, Q' a s → Q a s)
    (hE : ∀ e s, E' e s → E e s) : Triple A D P m Q E := by
  intro s ts hts hs
  obtain ⟨hpost, hrest⟩ := h s ts hts (hP s hs)
  refine ⟨?_, hrest⟩
  generalize (m s ts).1 = o at hpost
  cases o with
  | ok a => exact hQ a _ hpost
  | raise e => exact hE e _ hpost
  | dead => exact hpost

variable {E : ε → σ → Prop} {Q : α → σ → Prop} {P : σ → Prop}

theorem pre {P' : σ → Prop} (h : Triple A D P' m Q E) (hP : ∀ s, P s → P' s) : Triple A D P m Q E :=
  h.conseq hP (fun _ _ h => h) (fun _ _ h => h)

theorem raises {E' : ε → σ → Prop} (h : Triple A D P m Q E') (hE : ∀ e s, E' e s → E e s) :
    Triple A D P m Q E :=
  h.conseq (fun _ h => h) (fun _ _ h => h) hE

/-- A computation that never raises meets any condition on exceptions. -/
theorem raisesNever (h : Triple A D P m Q fun _ _ => False) : Triple A D P m Q E :=
  h.raises fun _ _ h => h.elim

theorem pure {a : α} (h : ∀ s, P s → Q a s) : Triple A D P (Pure.pure a : Co σ τ ε α) Q E :=
  fun s _ hts hs => ⟨h s hs, hts⟩

theorem raise {e : ε} (h : ∀ s, P s → E e s) : Triple A D P (Co.raise e : Co σ τ ε α) Q E :=
  fun s _ hts hs => ⟨h s hs, hts⟩

theorem get {Q : σ → σ → Prop} (h : ∀ s, P s → Q s s) : Triple A D P (Co.get : Co σ τ ε σ) Q E :=
  fun s _ hts hs => ⟨h s hs, hts⟩

theorem modify {f : σ → σ} {Q : Unit → σ → Prop}
    (h : ∀ s, P s → Q () (f s)) : Triple A D P (Co.modify f : Co σ τ ε Unit) Q E :=
  fun s _ hts hs => ⟨h s hs, hts⟩

theorem bind {k : α → Co σ τ ε β} {R : α → σ → Prop} {Q : β → σ → Prop} (hm : Triple A D P m R E)
    (hk : ∀ a, Triple A D (R a) (k a) Q E) : Triple A D P (m >>= k) Q E := by
  intro s ts hts hs
  have h := hm s ts hts hs
  rw [show (m >>= k) = Co.bind m k from rfl]
  unfold Co.bind
  rcases hrun : m s ts with ⟨o, s', ts'⟩
  rw [hrun] at h
  cases o with
  | ok a => exact hk a s' ts' h.2 h.1
  | raise e => exact h
  | dead => exact h

theorem tryCatch {handler : ε → Co σ τ ε α} {E R : ε → σ → Prop} (hm : Triple A D P m Q R)
    (hh : ∀ e, Triple A D (R e) (handler e) Q E) : Triple A D P (Co.tryCatch m handler) Q E := by
  intro s ts hts hs
  have h := hm s ts hts hs
  unfold Co.tryCatch
  rcases hrun : m s ts with ⟨o, s', ts'⟩
  rw [hrun] at h
  cases o with
  | ok a => exact h
  | raise e => exact hh e s' ts' h.2 h.1
  | dead => exact h

theorem ite {c : Prop} [Decidable c] {m n : Co σ τ ε α}
    (hm : c → Triple A D P m Q E) (hn : ¬ c → Triple A D P n Q E) :
    Triple A D P (if c then m else n) Q E := by
  split
  · exact hm ‹c›
  · exact hn ‹¬ c›

theorem of_pre (h : ∀ s, P s → Triple A D P m Q E) : Triple A D P m Q E :=
  fun s ts hts hs => h s hs s ts hts hs

theorem exists_pre {γ : Type} {P : γ → σ → Prop} (h : ∀ c, Triple A D (P c) m Q E) :
    Triple A D (fun s => ∃ c, P c s) m Q E :=
  fun s ts hts ⟨c, hs⟩ => h c s ts hts hs

theorem or_pre {P P' : σ → Prop} (h : Triple A D P m Q E) (h' : Triple A D P' m Q E) :
    Triple A D (fun s => P s ∨ P' s) m Q E :=
  fun s ts hts hs => hs.elim (h s ts hts) (h' s ts hts)

theorem and {P P' : σ → Prop} {m : Co σ τ ε α} {Q Q' : α → σ → Prop} {E E' : ε → σ → Prop}
    (h : Triple A D P m Q E) (h' : Triple A (fun _ => True) P' m Q' E') :
    Triple A D (fun s => P s ∧ P' s) m (fun a s => Q a s ∧ Q' a s)
      (fun e s => E e s ∧ E' e s) := by
  intro s ts hts hs
  obtain ⟨hpost, hrest⟩ := h s ts hts hs.1
  have hpost' := (h' s ts hts hs.2).1
  refine ⟨?_, hrest⟩
  generalize (m s ts).1 = o at hpost hpost'
  cases o with
  | ok a => exact ⟨hpost, hpost'⟩
  | raise e => exact ⟨hpost, hpost'⟩
  | dead => exact hpost

theorem masked {mask : τ → τ} (hmask : ∀ t, A t → A (mask t)) (hm : Triple A D P m Q E) :
    Triple A D P (Co.masked mask m) Q E := by
  intro s ts hts hs
  have hmasked : ∀ t ∈ ts.map mask, A t := by
    intro t ht
    obtain ⟨t', ht', rfl⟩ := List.mem_map.1 ht
    exact hmask t' (hts t' ht')
  exact ⟨(hm s (ts.map mask) hmasked hs).1, fun t ht => hts t (List.mem_of_mem_drop ht)⟩

theorem loop {I : β → σ → Prop} {body : β → Co σ τ ε (β ⊕ α)} {Q : α → σ → Prop}
    {E : ε → σ → Prop} (hD : ∀ b s, I b s → D s)
    (hbody : ∀ b, Triple A D (I b) (body b) (fun r => Sum.elim I Q r) E) (b : β) :
    Triple A D (I b) (Co.loop body b) Q E := by
  have hround : ∀ n b, Triple A D (I b) (Co.rounds body n b) Q E := by
    intro n
    induction n with
    | zero => exact fun b s ts hts hs => ⟨hD b s hs, hts⟩
    | succ n ih =>
      intro b
      refine bind (hbody b) fun r => ?_
      cases r with
      | inl b' => exact ih b'
      | inr a => exact pure fun _ h => h
  exact fun s ts hts hs => hround (ts.length + 1) b s ts hts hs

end Triple

section Await

variable {σ ο ι ρ φ ε α : Type} {A : Turn ο ι ρ φ → Prop} {D : σ → Prop}

def Stable (stim : ι → σ → σ) (P : σ → Prop) : Prop := ∀ i s, P s → P (stim i s)

theorem Stable.foldl {stim : ι → σ → σ} {P : σ → Prop} (h : Stable stim P) (is : List ι)
    (s : σ) (hs : P s) : P (is.foldl (fun s i => stim i s) s) := by
  induction is generalizing s with
  | nil => exact hs
  | cons i is ih => exact ih _ (h i s hs)

/-- The rule for one await: the precondition survives what the other tasks do in the turns that
are allowed, and every fate these allow leads where it should. -/
theorem Triple.await_of_env {stim : ι → σ → σ} {exn : φ → ε} {o : ο} {act : Action σ ρ α}
    {P : σ → Prop} {Q : α → σ → Prop} {E : ε → σ → Prop}
    (henv : ∀ t s, A t → P s → P (t.env.foldl (fun s i => stim i s) s)) (hcut : ∀ s, P s → D s)
    (hok : ∀ t s, A t → t.fate o = .ok → P s →
      Q (act.finish t.reading s).1 (act.finish t.reading s).2)
    (hrs : ∀ t f k s, A t → t.fate o = .raise f k → P s →
      E (exn f) (act.abort t.reading k s))
    (hdie : ∀ t k s, A t → t.fate o = .die k → P s → D (act.abort t.reading k s)) :
    Triple A D P (Coroutine.await stim exn o act) Q E := by
  intro s ts hts hs
  cases ts with
  | nil => exact ⟨hcut s hs, hts⟩
  | cons t ts =>
    have ht : A t := hts t (List.mem_cons_self ..)
    have hrest : ∀ t' ∈ ts, A t' := fun t' h => hts t' (List.mem_cons_of_mem _ h)
    have hs' := henv t s ht hs
    unfold Coroutine.await
    cases hfate : t.fate o with
    | ok =>
      simp only [hfate]
      exact ⟨hok t _ ht hfate hs', hrest⟩
    | raise f k =>
      simp only [hfate]
      exact ⟨hrs t f k _ ht hfate hs', hrest⟩
    | die k =>
      simp only [hfate]
      exact ⟨hdie t k _ ht hfate hs', fun _ h => nomatch h⟩

theorem Triple.await {stim : ι → σ → σ} {exn : φ → ε} {o : ο} {act : Action σ ρ α} {P : σ → Prop}
    {Q : α → σ → Prop} {E : ε → σ → Prop} (hstable : Stable stim P) (hcut : ∀ s, P s → D s)
    (hok : ∀ t s, A t → t.fate o = .ok → P s →
      Q (act.finish t.reading s).1 (act.finish t.reading s).2)
    (hrs : ∀ t f k s, A t → t.fate o = .raise f k → P s →
      E (exn f) (act.abort t.reading k s))
    (hdie : ∀ t k s, A t → t.fate o = .die k → P s → D (act.abort t.reading k s)) :
    Triple A D P (Coroutine.await stim exn o act) Q E :=
  Triple.await_of_env (fun t s _ hs => hstable.foldl t.env s hs) hcut hok hrs hdie

end Await

end ContextIntelligence.Lib.Coroutine
