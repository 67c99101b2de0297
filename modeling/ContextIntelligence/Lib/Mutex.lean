import ContextIntelligence.Lib.Runs

/-!
# Critical sections under one lock

Tasks share a state and one lock: a task waits, enters, passes through the phases of its critical
section and leaves, while the surroundings act without the lock. `Protocol.held` is the rule for
such a system: an assertion `K` about the phase of a task only has to survive the surroundings.
-/

namespace ContextIntelligence.Lib.Mutex

open Lib.Runs

universe u

variable {σ ρ π ω ι : Type u}

/-- What the critical sections do: `enter` is what happens when the lock is taken, `advance` what
happens when a task is resumed in a phase, with no next phase when it leaves. A task may give up in
the phases that `yields` names; elsewhere it is shielded. After `restart` no task is left. -/
structure Protocol (σ ρ π ω ι : Type u) where
  enter : ρ → σ → π × σ
  advance : π → ω → σ → Option π × σ
  yields : π → Bool
  outside : ι → σ → σ
  restart : σ → σ

inductive Task (ρ π : Type u) where
  | idle
  | waiting (request : ρ)
  | inside (phase : π)

structure System (σ ρ π : Type u) where
  shared : σ
  holder : Option ℕ
  tasks : ℕ → Task ρ π

def System.start (s : σ) : System σ ρ π := ⟨s, none, fun _ => .idle⟩

inductive Action (ρ ω ι : Type u) where
  | call (task : ℕ) (request : ρ)
  | resume (task : ℕ) (answer : ω)
  | cancel (task : ℕ)
  | outside (event : ι)
  | restart

namespace System

def proceed (s : System σ ρ π) (task : ℕ) : Option π × σ → System σ ρ π
  | (some phase, shared) =>
    ⟨shared, s.holder, Function.update s.tasks task (.inside phase)⟩
  | (none, shared) => ⟨shared, none, Function.update s.tasks task .idle⟩

def call (s : System σ ρ π) (task : ℕ) (request : ρ) : System σ ρ π :=
  match s.tasks task with
  | .idle => { s with tasks := Function.update s.tasks task (.waiting request) }
  | .waiting _ => s
  | .inside _ => s

end System

namespace Protocol

variable (P : Protocol σ ρ π ω ι)

def resume (s : System σ ρ π) (task : ℕ) (answer : ω) : System σ ρ π :=
  match s.tasks task with
  | .idle => s
  | .waiting request =>
    if s.holder = none then
      let (phase, shared) := P.enter request s.shared
      ⟨shared, some task, Function.update s.tasks task (.inside phase)⟩
    else s
  | .inside phase => s.proceed task (P.advance phase answer s.shared)

def cancel (s : System σ ρ π) (task : ℕ) : System σ ρ π :=
  match s.tasks task with
  | .idle => s
  | .waiting _ => { s with tasks := Function.update s.tasks task .idle }
  | .inside phase => if P.yields phase then s.proceed task (none, s.shared) else s

def step (s : System σ ρ π) : Action ρ ω ι → System σ ρ π
  | .call task request => s.call task request
  | .resume task answer => P.resume s task answer
  | .cancel task => P.cancel s task
  | .outside event => { s with shared := P.outside event s.shared }
  | .restart => System.start (P.restart s.shared)

/-- The events of the surroundings meet `C` and the resumptions inside the lock meet `A`. -/
def Meets (C : σ → ι → Prop) (A : σ → π → ω → Prop) (s : System σ ρ π) : Action ρ ω ι → Prop
  | .outside event => C s.shared event
  | .resume task answer =>
    match s.tasks task with
    | .inside phase => A s.shared phase answer
    | _ => True
  | _ => True

instance Meets.decidable {C : σ → ι → Prop} {A : σ → π → ω → Prop}
    [hC : ∀ s event, Decidable (C s event)] [hA : ∀ s phase answer, Decidable (A s phase answer)]
    (s : System σ ρ π) (a : Action ρ ω ι) : Decidable (Meets C A s a) := by
  cases a with
  | outside event => exact hC s.shared event
  | resume task answer =>
    unfold Meets
    dsimp only
    split
    · exact hA _ _ _
    · exact isTrue trivial
  | call => exact isTrue trivial
  | cancel => exact isTrue trivial
  | restart => exact isTrue trivial

abbrev Outside (C : σ → ι → Prop) : System σ ρ π → Action ρ ω ι → Prop :=
  Meets C fun _ _ _ => True

end Protocol

/-- `J` holds of the shared state, and every task that is inside holds the lock and meets `K`. -/
structure Held (J : σ → Prop) (K : π → σ → Prop) (s : System σ ρ π) : Prop where
  shared : J s.shared
  holder : ∀ task phase, s.tasks task = .inside phase → s.holder = some task
  phase : ∀ task phase, s.tasks task = .inside phase → K phase s.shared

/-- What the parts of a protocol have to do for `J` and `K` to hold in every state. -/
structure Keeps (P : Protocol σ ρ π ω ι) (C : σ → ι → Prop) (A : σ → π → ω → Prop)
    (J : σ → Prop) (K : π → σ → Prop) : Prop where
  enter : ∀ request s, J s → J (P.enter request s).2
    ∧ K (P.enter request s).1 (P.enter request s).2
  advance : ∀ phase answer s, A s phase answer → J s → K phase s →
    J (P.advance phase answer s).2
      ∧ ∀ next, (P.advance phase answer s).1 = some next → K next (P.advance phase answer s).2
  outside : ∀ event s, C s event → J s → J (P.outside event s)
    ∧ ∀ phase, K phase s → K phase (P.outside event s)
  restart : ∀ s, J s → J (P.restart s)

section Rules

variable {P : Protocol σ ρ π ω ι} {C : σ → ι → Prop} {A : σ → π → ω → Prop} {J : σ → Prop}
  {K : π → σ → Prop} {s : System σ ρ π}

theorem Held.start {s : σ} (h : J s) : Held J K (System.start s : System σ ρ π) :=
  ⟨h, nofun, nofun⟩

theorem Held.unique (h : Held J K s) {task task' : ℕ} {phase phase' : π}
    (hin : s.tasks task = .inside phase) (hin' : s.tasks task' = .inside phase') :
    task = task' := by
  have heq := (h.holder _ _ hin).symm.trans (h.holder _ _ hin')
  exact Option.some.inj heq

theorem Held.holder_ne_none (h : Held J K s) {task : ℕ} {phase : π}
    (hin : s.tasks task = .inside phase) : s.holder ≠ none := by
  rw [h.holder _ _ hin]
  exact Option.some_ne_none task

theorem Held.update_outside (h : Held J K s) {task : ℕ} {t : Task ρ π}
    (hout : ∀ phase, s.tasks task ≠ .inside phase) (ht : ∀ phase, t ≠ .inside phase) :
    Held J K { s with tasks := Function.update s.tasks task t } := by
  have hold : ∀ task' phase, Function.update s.tasks task t task' = .inside phase →
      s.tasks task' = .inside phase := by
    intro task' phase hin
    by_cases heq : task' = task
    · subst heq
      rw [Function.update_self] at hin
      exact absurd hin (ht phase)
    · rwa [Function.update_of_ne heq] at hin
  exact ⟨h.shared, fun _ _ hin => h.holder _ _ (hold _ _ hin),
    fun _ _ hin => h.phase _ _ (hold _ _ hin)⟩

theorem Held.put {shared : σ} {task : ℕ} {phase : π} {tasks : ℕ → Task ρ π}
    (hJ : J shared) (hK : K phase shared)
    (hothers : ∀ task' phase', task' ≠ task → tasks task' ≠ .inside phase') :
    Held J K ⟨shared, some task, Function.update tasks task (.inside phase)⟩ := by
  have honly : ∀ task' phase', Function.update tasks task (.inside phase) task' = .inside phase' →
      task' = task ∧ phase' = phase := by
    intro task' phase' hin
    by_cases heq : task' = task
    · subst heq
      rw [Function.update_self] at hin
      cases hin
      exact ⟨rfl, rfl⟩
    · rw [Function.update_of_ne heq] at hin
      exact absurd hin (hothers task' phase' heq)
  refine ⟨hJ, fun task' phase' hin => ?_, fun task' phase' hin => ?_⟩
  · rw [(honly task' phase' hin).1]
  · rw [(honly task' phase' hin).2]
    exact hK

theorem Held.proceed (h : Held J K s) {task : ℕ} {phase : π} (hin : s.tasks task = .inside phase)
    (r : Option π × σ) (hJ : J r.2) (hK : ∀ next, r.1 = some next → K next r.2) :
    Held J K (s.proceed task r) := by
  have hothers : ∀ task' phase', task' ≠ task → s.tasks task' ≠ .inside phase' :=
    fun task' phase' hne hin' => hne (h.unique hin' hin)
  obtain ⟨_ | next, shared⟩ := r
  · refine ⟨hJ, fun task' phase' hin' => ?_, fun task' phase' hin' => ?_⟩
    all_goals
      exfalso
      by_cases heq : task' = task
      · subst heq
        simp only [System.proceed, Function.update_self] at hin'
        cases hin'
      · simp only [System.proceed, Function.update_of_ne heq] at hin'
        exact hothers task' phase' heq hin'
  · simp only [System.proceed, h.holder _ _ hin]
    exact Held.put hJ (hK next rfl) hothers

theorem Held.resume (hP : Keeps P C A J K) (h : Held J K s) (task : ℕ) (answer : ω)
    (hA : Protocol.Meets C A s (.resume task answer)) : Held J K (P.resume s task answer) := by
  unfold Protocol.resume
  cases htask : s.tasks task with
  | idle => exact h
  | waiting request =>
    dsimp only
    split
    · rename_i hfree
      obtain ⟨hJ, hK⟩ := hP.enter request s.shared h.shared
      refine Held.put hJ hK fun task' phase' _ hin => ?_
      exact h.holder_ne_none hin hfree
    · exact h
  | inside phase =>
    simp only [Protocol.Meets, htask] at hA
    obtain ⟨hJ, hK⟩ := hP.advance phase answer s.shared hA h.shared (h.phase _ _ htask)
    exact h.proceed htask _ hJ hK

theorem Held.call (h : Held J K s) (task : ℕ) (request : ρ) : Held J K (s.call task request) := by
  unfold System.call
  cases htask : s.tasks task with
  | idle =>
    refine h.update_outside (fun phase hin => ?_) nofun
    rw [htask] at hin
    cases hin
  | waiting other => exact h
  | inside phase => exact h

theorem Held.cancel (h : Held J K s) (task : ℕ) : Held J K (P.cancel s task) := by
  unfold Protocol.cancel
  cases htask : s.tasks task with
  | idle => exact h
  | waiting request =>
    refine h.update_outside (fun phase hin => ?_) nofun
    rw [htask] at hin
    cases hin
  | inside phase =>
    dsimp only
    split
    · exact h.proceed htask _ h.shared nofun
    · exact h

theorem Held.step (hP : Keeps P C A J K) (h : Held J K s) (a : Action ρ ω ι)
    (ha : Protocol.Meets C A s a) : Held J K (P.step s a) := by
  cases a with
  | call task request => exact h.call task request
  | resume task answer => exact h.resume hP task answer ha
  | cancel task => exact h.cancel task
  | outside event =>
    obtain ⟨hJ, hK⟩ := hP.outside event s.shared ha h.shared
    exact ⟨hJ, h.holder, fun task phase hin => hK phase (h.phase task phase hin)⟩
  | restart => exact Held.start (hP.restart s.shared h.shared)

theorem Held.along (hP : Keeps P C A J K) {Q : System σ ρ π → Action ρ ω ι → Prop}
    (hQ : ∀ s a, Held J K s → Protocol.Meets C A s a → Q s a) (h : Held J K s)
    {actions : List (Action ρ ω ι)} (hC : Along P.step (Protocol.Meets C A) s actions) :
    Along P.step Q s actions :=
  hC.map_of_invariant (fun _ a hs ha => hs.step hP a ha) hQ h

/-- What `J` and `K` imply holds in every state of the run. -/
theorem Held.always (hP : Keeps P C A J K) {Q : System σ ρ π → Prop} (hQ : ∀ s, Held J K s → Q s)
    (h : Held J K s) {actions : List (Action ρ ω ι)}
    (hC : Along P.step (Protocol.Meets C A) s actions) : Always P.step Q s actions :=
  h.along hP (fun _ a hs ha => hQ _ (hs.step hP a ha)) hC

theorem along_outside_true (s : System σ ρ π) (actions : List (Action ρ ω ι)) :
    Along P.step (Protocol.Outside fun _ _ => True) s actions := by
  induction actions generalizing s with
  | nil => trivial
  | cons a actions ih =>
    refine ⟨?_, ih _⟩
    cases a with
    | resume task answer =>
      simp only [Protocol.Outside, Protocol.Meets]
      split <;> trivial
    | _ => trivial

@[simp] theorem System.shared_call (s : System σ ρ π) (task : ℕ) (request : ρ) :
    (s.call task request).shared = s.shared := by
  unfold System.call
  cases s.tasks task <;> rfl

@[simp] theorem Protocol.shared_cancel (P : Protocol σ ρ π ω ι) (s : System σ ρ π) (task : ℕ) :
    (P.cancel s task).shared = s.shared := by
  unfold Protocol.cancel
  cases s.tasks task with
  | idle => rfl
  | waiting request => rfl
  | inside phase =>
    dsimp only
    split <;> rfl

/-- A step changes the shared state only by taking the lock when it is free, by advancing a task
that is inside, or from the outside. -/
theorem shared_step (s : System σ ρ π) (a : Action ρ ω ι) :
    (P.step s a).shared = s.shared
      ∨ (∃ request, s.holder = none ∧ (P.step s a).shared = (P.enter request s.shared).2)
      ∨ (∃ task phase answer, a = .resume task answer ∧ s.tasks task = .inside phase
          ∧ (P.step s a).shared = (P.advance phase answer s.shared).2)
      ∨ (∃ event, a = .outside event ∧ (P.step s a).shared = P.outside event s.shared)
      ∨ a = .restart ∧ (P.step s a).shared = P.restart s.shared := by
  cases a with
  | call task request =>
    exact .inl (s.shared_call task request)
  | resume task answer =>
    cases htask : s.tasks task with
    | idle => exact .inl (by simp only [Protocol.step, Protocol.resume, htask])
    | waiting request =>
      by_cases hfree : s.holder = none
      · exact .inr (.inl ⟨request, hfree, by
          simp only [Protocol.step, Protocol.resume, htask, hfree, if_true]⟩)
      · exact .inl (by simp only [Protocol.step, Protocol.resume, htask, hfree, if_false])
    | inside phase =>
      refine .inr (.inr (.inl ⟨task, phase, answer, rfl, htask, ?_⟩))
      simp only [Protocol.step, Protocol.resume, htask]
      rcases P.advance phase answer s.shared with ⟨_ | next, shared⟩ <;> rfl
  | cancel task =>
    exact .inl (P.shared_cancel s task)
  | outside event => exact .inr (.inr (.inr (.inl ⟨event, rfl, rfl⟩)))
  | restart => exact .inr (.inr (.inr (.inr ⟨rfl, rfl⟩)))

end Rules

end ContextIntelligence.Lib.Mutex
