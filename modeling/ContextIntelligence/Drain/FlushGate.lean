import ContextIntelligence.Lib.Runs

/-!
# The flush gate

`LiveFirstFlushGate.acquire` is suspended only inside `Condition.wait`, which gives up the lock, and
where it yields, outside of it. So what a task does between two suspensions is one step. A task that
is cancelled inside `wait` leaves when it resumes, and nobody is notified.
-/

namespace ContextIntelligence.Drain

open Lib.Runs

/-- A task inside `wait`: whether its future is done, and whether it resumes with an exception. -/
structure Waiter where
  recovery : Bool
  notified : Bool
  cancelled : Bool
  deriving DecidableEq, Repr

def Waiter.woken (w : Waiter) : Bool := w.notified || w.cancelled

/-- `LiveFirstFlushGate` and its tasks: the waiters, and those between a completed entry and the end
of their exit, with their kind. -/
structure FlushGate where
  capacity : ℕ
  active : ℕ
  liveWaiters : ℕ
  waiters : List Waiter
  inside : List Bool
  deriving DecidableEq, Repr

inductive GateStep where
  | enter (recovery : Bool)
  | resume (i : ℕ)
  | cancel (i : ℕ)
  | leave (i : ℕ)
  deriving DecidableEq, Repr

def share (recovery : Bool) : ℕ := if recovery then 0 else 1

namespace FlushGate

def idle (capacity : ℕ) : FlushGate := ⟨capacity, 0, 0, [], []⟩

/-- The predicate of `wait_for`. -/
def admits (g : FlushGate) (recovery : Bool) : Bool :=
  decide (g.active < g.capacity) && (!recovery || g.liveWaiters == 0)

def notifyAll (g : FlushGate) : FlushGate :=
  { g with waiters := g.waiters.map fun w => { w with notified := true } }

/-- One pass of `wait_for`: a counted task enters, or it sleeps. -/
def attempt (recovery : Bool) (g : FlushGate) : FlushGate :=
  if g.admits recovery then
    notifyAll { g with
      active := g.active + 1
      liveWaiters := g.liveWaiters - share recovery
      inside := recovery :: g.inside }
  else { g with waiters := g.waiters ++ [⟨recovery, false, false⟩] }

def step (g : FlushGate) : GateStep → FlushGate
  | .enter recovery => attempt recovery { g with liveWaiters := g.liveWaiters + share recovery }
  | .resume i =>
    match g.waiters[i]? with
    | none => g
    | some w =>
      let g' := { g with waiters := g.waiters.eraseIdx i }
      if w.cancelled then { g' with liveWaiters := g.liveWaiters - share w.recovery }
      else if w.notified then attempt w.recovery g'
      else g
  | .cancel i =>
    match g.waiters[i]? with
    | none => g
    | some w => { g with waiters := g.waiters.set i { w with cancelled := true } }
  | .leave i =>
    if i < g.inside.length then
      notifyAll { g with active := g.active - 1, inside := g.inside.eraseIdx i }
    else g

variable {g : FlushGate}

/-! ## The counts -/

/-- The counts agree with the tasks; `own` live tasks are counted and not yet asleep. -/
structure Accounted (own : ℕ) (g : FlushGate) : Prop where
  active : g.active = g.inside.length
  bound : g.active ≤ g.capacity
  live : g.liveWaiters = g.waiters.countP (!·.recovery) + own

theorem countP_eraseIdx {i : ℕ} {w : Waiter} (h : g.waiters[i]? = some w) :
    g.waiters.countP (!·.recovery)
      = (g.waiters.eraseIdx i).countP (!·.recovery) + share w.recovery := by
  obtain ⟨hi, rfl⟩ := List.getElem?_eq_some_iff.1 h
  rw [← (List.getElem_cons_eraseIdx_perm hi).countP_eq (!·.recovery), List.countP_cons]
  cases g.waiters[i].recovery <;> simp [share]

theorem Accounted.notifyAll (h : Accounted 0 g) : Accounted 0 g.notifyAll where
  active := h.active
  bound := h.bound
  live := h.live.trans (by simp [FlushGate.notifyAll, List.countP_map, Function.comp_def])

theorem Accounted.attempt {recovery : Bool} (h : Accounted (share recovery) g) :
    Accounted 0 (attempt recovery g) := by
  have hlive := h.live
  unfold FlushGate.attempt
  split
  next hadm =>
    rw [admits, Bool.and_eq_true, decide_eq_true_iff] at hadm
    refine Accounted.notifyAll ⟨congrArg (· + 1) h.active, hadm.1, ?_⟩
    dsimp only
    omega
  next =>
    refine ⟨h.active, h.bound, ?_⟩
    rw [List.countP_append]
    cases recovery <;> exact hlive

theorem Accounted.step (h : Accounted 0 g) (a : GateStep) : Accounted 0 (g.step a) := by
  have hlive := h.live
  cases a with
  | enter recovery =>
    exact Accounted.attempt ⟨h.active, h.bound, congrArg (· + share recovery) hlive⟩
  | resume i =>
    dsimp only [FlushGate.step]
    split
    · exact h
    next w hw =>
    have hcount := countP_eraseIdx hw
    split
    · refine ⟨h.active, h.bound, ?_⟩
      dsimp only
      omega
    · split
      · exact Accounted.attempt ⟨h.active, h.bound, by dsimp only; omega⟩
      · exact h
  | cancel i =>
    dsimp only [FlushGate.step]
    split
    · exact h
    next w hw =>
    refine ⟨h.active, h.bound, hlive.trans ?_⟩
    have hset := countP_eraseIdx
      (g := { g with waiters := g.waiters.set i { w with cancelled := true } })
      (List.getElem?_set_self (List.getElem?_eq_some_iff.1 hw).1)
    have hcount := countP_eraseIdx hw
    rw [List.eraseIdx_set_eq] at hset
    dsimp only at hset ⊢
    omega
  | leave i =>
    dsimp only [FlushGate.step]
    split
    next hi =>
      refine Accounted.notifyAll ⟨?_, Nat.le_trans (Nat.sub_le ..) h.bound, hlive⟩
      rw [List.length_eraseIdx_of_lt hi, h.active]
    · exact h

/-! ## Notifications -/

def recoveries (g : FlushGate) : ℕ := g.inside.count true

theorem liveWaiters_of_recoveries (a : GateStep) (h : g.recoveries < (g.step a).recoveries) :
    g.liveWaiters = 0 := by
  have hattempt : ∀ (g' : FlushGate) (recovery : Bool), g'.inside = g.inside →
      g.recoveries < (attempt recovery g').recoveries → g'.liveWaiters = 0 := by
    intro g' recovery hin h
    unfold attempt at h
    split at h
    · cases recovery <;> simp_all [recoveries, notifyAll, admits]
    · simp_all [recoveries]
  cases a with
  | enter recovery =>
    exact Nat.eq_zero_of_add_eq_zero_right (hattempt { g with liveWaiters := _ } recovery rfl h)
  | resume i =>
    dsimp only [step] at h
    repeat' split at h
    case h_2.isFalse.isTrue => exact hattempt { g with waiters := g.waiters.eraseIdx i } _ rfl h
    all_goals exact absurd h (Nat.lt_irrefl _)
  | cancel i =>
    dsimp only [step] at h
    split at h <;> exact absurd h (Nat.lt_irrefl _)
  | leave i =>
    dsimp only [step] at h
    split at h
    · exact absurd h (Nat.not_lt.2 ((List.eraseIdx_sublist _ _).count_le _))
    · exact absurd h (Nat.lt_irrefl _)

def Quiet (g : FlushGate) : Prop :=
  ∀ w ∈ g.waiters, w.woken = false → g.admits w.recovery = false

theorem quiet_notifyAll (g : FlushGate) : Quiet g.notifyAll := by
  intro w hw hsleep
  obtain ⟨v, -, rfl⟩ := List.mem_map.1 hw
  cases hsleep

theorem Quiet.attempt (h : Quiet g) (recovery : Bool) : Quiet (attempt recovery g) := by
  unfold FlushGate.attempt
  split
  · exact quiet_notifyAll _
  next hadm =>
    intro w hw hsleep
    rcases List.mem_append.1 hw with hw | hw
    · exact h w hw hsleep
    · obtain rfl := List.mem_singleton.1 hw
      exact Bool.eq_false_iff.2 hadm

/-- A cancelled live waiter leaves as the last one counted, while a slot is free and a recovery task
sleeps. -/
def Silent (g : FlushGate) : GateStep → Prop
  | .resume i => ∃ w, g.waiters[i]? = some w ∧ w.cancelled = true ∧ w.recovery = false
      ∧ g.liveWaiters = 1 ∧ g.active < g.capacity
      ∧ ∃ r ∈ g.waiters, r.recovery = true ∧ r.woken = false
  | _ => False

theorem Quiet.step (h : Quiet g) (hcount : Accounted 0 g) {a : GateStep} (ha : ¬ Silent g a) :
    Quiet (g.step a) := by
  have hera : ∀ i, Quiet { g with waiters := g.waiters.eraseIdx i } :=
    fun i w hw => h w (List.mem_of_mem_eraseIdx hw)
  cases a with
  | enter recovery =>
    refine Quiet.attempt (fun w hw hsleep => ?_) recovery
    have hno := h w hw hsleep
    simp only [admits, Bool.and_eq_false_iff, Bool.or_eq_false_iff, beq_eq_false_iff_ne] at hno ⊢
    exact hno.imp_right fun hne => ⟨hne.1, by omega⟩
  | resume i =>
    dsimp only [FlushGate.step]
    split
    · exact h
    next w hw =>
    split
    next hcancel =>
      intro r hr hsleep
      have hno := hera i r hr hsleep
      have hmem := List.mem_of_mem_eraseIdx hr
      have hlive := countP_eraseIdx hw
      have hall := hcount.live
      -- the count falls to zero only in a silent step
      by_contra hadm
      refine ha ⟨w, hw, hcancel, ?_⟩
      simp_all only [admits, share]
      cases hkind : w.recovery <;> cases hrec : r.recovery <;> simp_all
      exact ⟨r, hmem, hadm.2 r hr, hsleep⟩
    · split
      · exact (hera i).attempt w.recovery
      · exact h
  | cancel i =>
    dsimp only [FlushGate.step]
    split
    · exact h
    · intro r hr hsleep
      rcases List.mem_or_eq_of_mem_set hr with hr | rfl
      · exact h r hr hsleep
      · simp [Waiter.woken] at hsleep
  | leave i =>
    dsimp only [FlushGate.step]
    split
    · exact quiet_notifyAll _
    · exact h

def Stalled (g : FlushGate) : Prop :=
  (∃ w ∈ g.waiters, g.admits w.recovery = true) ∧ ∀ w ∈ g.waiters, w.woken = false

theorem Quiet.not_stalled (h : Quiet g) : ¬ Stalled g := by
  rintro ⟨⟨w, hw, hadm⟩, hsleep⟩
  rw [h w hw (hsleep w hw)] at hadm
  cases hadm

end FlushGate

open FlushGate

/-- Along every run the counts agree with the tasks and no recovery task enters past a counted live
waiter; and where no step is silent, the gate never stalls. -/
theorem flushGate_accounts (capacity : ℕ) (steps : List GateStep) :
    Along step (fun g a => Accounted 0 (g.step a)
        ∧ (g.recoveries < (g.step a).recoveries → g.liveWaiters = 0)) (idle capacity) steps
      ∧ (Along step (fun g a => ¬ Silent g a) (idle capacity) steps →
        Always step (fun g => ¬ Stalled g) (idle capacity) steps) := by
  have hidle : Accounted 0 (idle capacity) := ⟨rfl, Nat.zero_le _, rfl⟩
  constructor
  · exact along_of_invariant (fun _ a h => h.step a)
      (fun _ a h => ⟨h.step a, liveWaiters_of_recoveries a⟩) hidle steps
  · intro hquiet
    exact hquiet.map_of_invariant (I := fun g => Quiet g ∧ Accounted 0 g)
      (fun _ a h ha => ⟨h.1.step h.2 ha, h.2.step a⟩)
      (fun _ _ h ha => (h.1.step h.2 ha).not_stalled) ⟨nofun, hidle⟩

/-- A recovery task and a live task wait while another live task flushes; the waiting live task is
cancelled and goes, and when the other one leaves the recovery task enters. -/
theorem flushGate_accounts_cancelled :
    let steps : List GateStep :=
      [.enter false, .enter true, .enter false, .cancel 1, .resume 1, .leave 0, .resume 0]
    Along step (fun g a => ¬ Silent g a) (idle 1) steps
      ∧ Always step (fun g => ¬ Stalled g) (idle 1) steps
      ∧ (run step (idle 1) steps).recoveries = 1 := by
  intro steps
  have hloud : Along step (fun g a => ¬ Silent g a) (idle 1) steps := by
    refine ⟨id, id, id, id, ?_, id, ?_, trivial⟩
    · rintro ⟨w, -, -, -, -, hfree, -⟩
      exact absurd hfree (by decide)
    · rintro ⟨w, -, -, -, hlive, -⟩
      exact absurd hlive (by decide)
  exact ⟨hloud, (flushGate_accounts 1 steps).2 hloud, by decide +kernel⟩

/-- One live task flushes, a recovery task and a live task wait. The first one leaves, the second
live task is cancelled, the recovery task sees it still counted and sleeps again, and nobody wakes
it. -/
theorem flushGate_stalls :
    Stalled (run step (idle 1)
      [.enter false, .enter true, .enter false, .leave 0, .cancel 1, .resume 0, .resume 0]) := by
  unfold Stalled
  decide +kernel

end ContextIntelligence.Drain
