import ContextIntelligence.Lib.Runs

/-!
# The guard of a key

Guards are created on demand and dropped by the last holder after a deletion, or by a migration that
holds the only reference. What a coroutine does between two awaits is one step. `wait_for_change`
compares the generations in one step and `Event.wait` starts in another: the `asyncio.wait_for` of
Python 3.11 schedules it as a task. That of Python 3.12 starts it inline, so that there the second
step follows the first at once.
-/

namespace ContextIntelligence.Queue.Guards

open Lib.Runs

/-- `_KeyGuard`. -/
structure KeyGuard where
  waiters : ℕ
  appendEvent : Bool
  appendGeneration : ℕ
  deferredRemoval : Bool

/-- A coroutine that holds a guard: in an operation or between two cycles, behind
`clear_before_read`, with its `Event.wait` scheduled, or inside it with its future done or not.
`seen` is the number of appends that had finished at the snapshot; the code does not keep it. -/
inductive Place where
  | working
  | reading (generation seen : ℕ)
  | scheduled (generation seen : ℕ)
  | waiting (generation seen : ℕ) (woken : Bool)

/-- A coroutine inside `_guard`, with the number of its guard. -/
structure Holder where
  guard : ℕ
  place : Place

/-- All guards of a key by their number, the entry of `_guards`, the coroutines inside `_guard`, and
how many appends have finished. -/
structure KeyState where
  guards : ℕ → KeyGuard
  created : ℕ
  current : Option ℕ
  holders : List Holder
  finished : ℕ

/-- What a holder does in its next step. -/
inductive Action where
  | admitAppend
  | finishAppend
  | finishDelete
  | finishMigration
  | leave
  | clearBeforeRead
  | waitForChange
  | startWait
  | resume

/-- `append_event.set()` completes the futures of the guard. -/
def Holder.wake (g : ℕ) (h : Holder) : Holder :=
  match h.place with
  | .waiting generation seen _ =>
    if h.guard = g then ⟨g, .waiting generation seen true⟩ else h
  | _ => h

namespace KeyState

/-- No guard has been asked for. -/
def initial : KeyState := ⟨fun _ => ⟨0, false, 0, false⟩, 0, none, [], 0⟩

/-- The guard with the number changes. -/
def update (g : ℕ) (f : KeyGuard → KeyGuard) (s : KeyState) : KeyState :=
  { s with guards := Function.update s.guards g (f (s.guards g)) }

/-- The entry of `_guard`. -/
def enter (s : KeyState) : KeyState :=
  match s.current with
  | some g =>
    { s.update g fun k => { k with waiters := k.waiters + 1 } with
      holders := s.holders ++ [⟨g, .working⟩] }
  | none =>
    { s.update s.created fun _ => ⟨1, false, 0, false⟩ with
      created := s.created + 1
      current := some s.created
      holders := s.holders ++ [⟨s.created, .working⟩] }

/-- The `finally` of `_guard`. -/
def release (i g : ℕ) (s : KeyState) : KeyState :=
  let s := { s.update g fun k => { k with waiters := k.waiters - 1 } with
    holders := s.holders.eraseIdx i }
  if (s.guards g).deferredRemoval ∧ (s.guards g).waiters = 0 ∧ s.current = some g then
    { s with current := none }
  else s

/-- The end of an append, successful or not. -/
def notify (g : ℕ) (s : KeyState) : KeyState :=
  { s.update g fun k =>
      { k with appendGeneration := k.appendGeneration + 1, appendEvent := true } with
    holders := s.holders.map (Holder.wake g)
    finished := s.finished + 1 }

/-- The holder goes on to the place. -/
def place (i g : ℕ) (p : Place) (s : KeyState) : KeyState :=
  { s with holders := s.holders.set i ⟨g, p⟩ }

/-- The step of a holder. -/
def act (i : ℕ) (action : Action) (s : KeyState) : KeyState :=
  match s.holders[i]? with
  | none => s
  | some ⟨g, p⟩ =>
    match action with
    | .admitAppend => s.update g fun k => { k with deferredRemoval := false }
    | .finishAppend => (s.notify g).release i g
    | .finishDelete => (s.update g fun k => { k with deferredRemoval := true }).release i g
    | .finishMigration =>
      if (s.guards g).waiters = 1 ∧ s.current = some g then
        { s with current := none }.release i g
      else s.release i g
    | .leave => s.release i g
    | .clearBeforeRead =>
      (s.update g fun k => { k with appendEvent := false }).place i g
        (.reading (s.guards g).appendGeneration s.finished)
    | .waitForChange =>
      match p with
      | .reading generation seen =>
        if (s.guards g).appendGeneration ≠ generation then s.place i g .working
        else s.place i g (.scheduled generation seen)
      | _ => s
    | .startWait =>
      match p with
      | .scheduled generation seen =>
        if (s.guards g).appendEvent then s.place i g .working
        else s.place i g (.waiting generation seen false)
      | _ => s
    | .resume => s.place i g .working

end KeyState

open KeyState

/-- A coroutine enters, or the holder with the number goes on. -/
def step (s : KeyState) : Option (ℕ × Action) → KeyState
  | none => s.enter
  | some (i, action) => s.act i action

/-- No drainer clears the event while the wait of another one is scheduled that an append has
followed. -/
def ClearsApart (s : KeyState) : Option (ℕ × Action) → Prop
  | some (_, .clearBeforeRead) =>
    ∀ h ∈ s.holders, ∀ generation seen, h.place = .scheduled generation seen → s.finished = seen
  | _ => True

/-! ## The invariant -/

/-- What the snapshot of a holder says of its guard. -/
def Counts (s : KeyState) (h : Holder) : Prop :=
  match h.place with
  | .working => True
  | .reading generation seen =>
    (s.guards h.guard).appendGeneration + seen = generation + s.finished
  | .scheduled _ seen => (s.guards h.guard).appendEvent = false → s.finished = seen
  | .waiting _ seen woken => woken = false → s.finished = seen

/-- All holders hold the guard of the map, which counts them.  Where the clears are `apart`, the
snapshots are those of the guard too. -/
structure Inv (apart : Prop) (s : KeyState) : Prop where
  current : ∀ h ∈ s.holders, s.current = some h.guard
  count : ∀ g, s.current = some g → (s.guards g).waiters = s.holders.length
  counts : apart → ∀ h ∈ s.holders, Counts s h

variable {apart : Prop} {s : KeyState} {g i : ℕ} {p : Place}

theorem inv_of_nil (hcur : s.current = none) (hnil : s.holders = []) : Inv apart s :=
  ⟨by simp [hnil], by simp [hcur], by simp [hnil]⟩

theorem Counts.congr {s' : KeyState} {h : Holder} (hs : Counts s h)
    (hguard : ∀ g, (s'.guards g).appendGeneration = (s.guards g).appendGeneration
      ∧ (s'.guards g).appendEvent = (s.guards g).appendEvent)
    (hfin : s'.finished = s.finished) : Counts s' h := by
  unfold Counts at *
  rw [(hguard _).1, (hguard _).2, hfin]
  exact hs

theorem events_update {f : KeyGuard → KeyGuard}
    (hf : ∀ k, (f k).appendGeneration = k.appendGeneration ∧ (f k).appendEvent = k.appendEvent)
    (g' : ℕ) :
    ((s.update g f).guards g').appendGeneration = (s.guards g').appendGeneration
      ∧ ((s.update g f).guards g').appendEvent = (s.guards g').appendEvent := by
  by_cases h : g' = g
  · subst h
    simpa [update] using hf _
  · simp [update, h]

section

variable (h : Inv apart s)
include h

theorem Inv.update {f : KeyGuard → KeyGuard} (hf : ∀ k, (f k).waiters = k.waiters)
    (hc : apart → ∀ x ∈ s.holders, Counts (s.update g f) x) : Inv apart (s.update g f) where
  current := h.current
  count g' hg' := by
    by_cases heq : g' = g
    · subst heq
      simpa [KeyState.update, hf] using h.count g' hg'
    · simpa [KeyState.update, heq] using h.count g' hg'
  counts := hc

/-- The mark for a deferred removal is no business of a snapshot. -/
theorem Inv.defer (deferred : Bool) :
    Inv apart (s.update g fun k => { k with deferredRemoval := deferred }) :=
  h.update (fun _ => rfl) fun ha x hx =>
    (h.counts ha x hx).congr
      (events_update (f := fun k => { k with deferredRemoval := deferred }) fun _ => ⟨rfl, rfl⟩) rfl

theorem Inv.place (hi : s.holders[i]? = some ⟨g, p⟩) {p' : Place}
    (hp : apart → Counts s ⟨g, p'⟩) : Inv apart (s.place i g p') where
  current x hx := by
    rcases List.mem_or_eq_of_mem_set hx with hx | rfl
    · exact h.current x hx
    · exact h.current ⟨g, p⟩ (List.mem_of_getElem? hi)
  count g' hg' := by simpa [KeyState.place] using h.count g' hg'
  counts ha x hx := by
    rcases List.mem_or_eq_of_mem_set hx with hx | rfl
    · exact (h.counts ha x hx).congr (fun _ => ⟨rfl, rfl⟩) rfl
    · exact (hp ha).congr (fun _ => ⟨rfl, rfl⟩) rfl

theorem Inv.enter : Inv apart s.enter := by
  unfold KeyState.enter
  split
  next g hg =>
    refine ⟨fun x hx => ?_, fun g' hg' => ?_, fun ha x hx => ?_⟩
    · rcases List.mem_append.1 hx with hx | hx
      · exact h.current x hx
      · cases List.mem_singleton.1 hx
        exact hg
    · cases hg.symm.trans hg'
      simp [KeyState.update, h.count g hg]
    · rcases List.mem_append.1 hx with hx | hx
      · exact (h.counts ha x hx).congr (events_update
          (f := fun k => { k with waiters := k.waiters + 1 }) fun _ => ⟨rfl, rfl⟩) rfl
      · cases List.mem_singleton.1 hx
        trivial
  next hnone =>
    -- nobody holds a guard that is not in the map
    have hnil : s.holders = [] := List.eq_nil_iff_forall_not_mem.2 fun x hx => by
      cases hnone.symm.trans (h.current x hx)
    rw [hnil]
    refine ⟨fun x hx => ?_, fun g' hg' => ?_, fun _ x hx => ?_⟩
    · cases List.mem_singleton.1 hx
      rfl
    · cases hg'
      simp [KeyState.update]
    · cases List.mem_singleton.1 hx
      trivial

theorem Inv.release (hi : s.holders[i]? = some ⟨g, p⟩) : Inv apart (s.release i g) := by
  have hcur := h.current _ (List.mem_of_getElem? hi)
  have hlen := h.count g hcur
  have hlt : i < s.holders.length := (List.getElem?_eq_some_iff.1 hi).1
  have herase := List.length_eraseIdx_of_lt hlt
  have hinv : Inv apart { s.update g fun k => { k with waiters := k.waiters - 1 } with
      holders := s.holders.eraseIdx i } := by
    refine ⟨fun x hx => h.current x (List.mem_of_mem_eraseIdx hx), fun g' hg' => ?_,
      fun ha x hx => ?_⟩
    · cases hcur.symm.trans hg'
      simp [KeyState.update, hlen, herase]
    · exact (h.counts ha x (List.mem_of_mem_eraseIdx hx)).congr (events_update
        (f := fun k => { k with waiters := k.waiters - 1 }) fun _ => ⟨rfl, rfl⟩) rfl
  unfold KeyState.release
  dsimp only
  split
  next hlast =>
    have hnil := List.eq_nil_of_length_eq_zero ((hinv.count g hcur).symm.trans hlast.2.1)
    exact inv_of_nil rfl hnil
  next => exact hinv

theorem Inv.notify (hcur : s.current = some g) : Inv apart (s.notify g) := by
  refine ⟨fun x hx => ?_, fun g' hg' => ?_, fun ha x hx => ?_⟩
  · obtain ⟨y, hy, rfl⟩ := List.mem_map.1 hx
    have hguard : (Holder.wake g y).guard = y.guard := by
      unfold Holder.wake
      split
      · split <;> simp_all
      · rfl
    rw [hguard]
    exact h.current y hy
  · cases hcur.symm.trans hg'
    simpa [KeyState.notify, KeyState.update] using h.count g hcur
  · obtain ⟨⟨g', p⟩, hy, rfl⟩ := List.mem_map.1 hx
    cases hcur.symm.trans (h.current _ hy)
    have hcounts := h.counts ha _ hy
    cases p with
    | working => trivial
    | reading generation seen =>
      simp only [Counts, Holder.wake, KeyState.notify, KeyState.update,
        Function.update_self] at hcounts ⊢
      omega
    | scheduled generation seen => simp [Counts, Holder.wake, KeyState.notify, KeyState.update]
    | waiting generation seen woken => simp [Counts, Holder.wake]

/-- With the event cleared, a scheduled wait has seen every append. -/
theorem Inv.clear
    (hclear : apart → ∀ h ∈ s.holders, ∀ generation seen,
      h.place = .scheduled generation seen → s.finished = seen) :
    Inv apart (s.update g fun k => { k with appendEvent := false }) := by
  refine h.update (fun _ => rfl) fun ha x hx => ?_
  have hcounts := h.counts ha x hx
  rcases x with ⟨g', working | ⟨generation, seen⟩ | ⟨generation, seen⟩ | ⟨generation, seen, woken⟩⟩
  · trivial
  · by_cases heq : g' = g
    · subst heq
      simpa [Counts, KeyState.update] using hcounts
    · simpa [Counts, KeyState.update, heq] using hcounts
  · exact fun _ => hclear ha _ hx generation seen rfl
  · exact hcounts

theorem Inv.act {action : Action}
    (ha : apart → ClearsApart s (some (i, action))) : Inv apart (s.act i action) := by
  unfold KeyState.act
  split
  · exact h
  next g p hi =>
    have hmem := List.mem_of_getElem? hi
    have hcur := h.current _ hmem
    cases action with
    | admitAppend => exact h.defer false
    | finishAppend =>
      refine (h.notify hcur).release (p := (Holder.wake g ⟨g, p⟩).place) ?_
      cases p <;> simp [KeyState.notify, hi, Holder.wake]
    | finishDelete => exact (h.defer true).release hi
    | finishMigration =>
      dsimp only
      split
      next hone =>
        -- the migration is the only holder, and it leaves in the same step
        have hnil : s.holders.eraseIdx i = [] := by
          have hlt : i < s.holders.length := (List.getElem?_eq_some_iff.1 hi).1
          have hlen := h.count g hcur
          apply List.eq_nil_of_length_eq_zero
          rw [List.length_eraseIdx_of_lt hlt]
          omega
        unfold KeyState.release
        dsimp only
        split
        next hlast => cases hlast.2.2
        next => exact inv_of_nil rfl hnil
      next => exact h.release hi
    | leave => exact h.release hi
    | clearBeforeRead =>
      refine (h.clear ha).place hi fun _ => ?_
      simp [Counts, KeyState.update]
    | waitForChange =>
      cases p with
      | reading generation seen =>
        dsimp only
        split
        next => exact h.place hi fun _ => trivial
        next hsame =>
          refine h.place hi fun ha _ => ?_
          have hcounts := h.counts ha _ hmem
          simp only [Counts] at hcounts
          omega
      | _ => exact h
    | startWait =>
      cases p with
      | scheduled generation seen =>
        dsimp only
        split
        next => exact h.place hi fun _ => trivial
        next hunset =>
          exact h.place hi fun ha _ => h.counts ha _ hmem (Bool.eq_false_iff.2 hunset)
      | _ => exact h
    | resume => exact h.place hi fun _ => trivial

theorem Inv.step {a : Option (ℕ × Action)} (ha : apart → ClearsApart s a) :
    Inv apart (step s a) := by
  cases a with
  | none => exact h.enter
  | some a => exact h.act ha

end

/-- In every interleaving all coroutines inside a guarded section of the key hold the same guard.
Where the clears are apart, no drainer is blocked when an append has finished since its snapshot. -/
theorem one_guard_no_lost_wakeup (steps : List (Option (ℕ × Action))) :
    let s := run step initial steps
    (∀ h ∈ s.holders, ∀ h' ∈ s.holders, h.guard = h'.guard)
      ∧ (Along step ClearsApart initial steps → ∀ h ∈ s.holders, ∀ generation seen,
        h.place = .waiting generation seen false → ¬ seen < s.finished) := by
  have hinitial (apart : Prop) : Inv apart initial := inv_of_nil rfl rfl
  constructor
  · intro h hh h' hh'
    have hinv : Inv False (run step initial steps) :=
      List.foldlRecOn steps step (hinitial _) fun s hs a _ => hs.step False.elim
    exact Option.some.inj ((hinv.current h hh).symm.trans (hinv.current h' hh'))
  · intro halong h hh generation seen hplace
    have hinv : Inv True (run step initial steps) :=
      halong.invariant (fun s a hs ha => hs.step fun _ => ha) (hinitial _)
    have hcounts := hinv.counts trivial h hh
    rw [Counts, hplace] at hcounts
    exact Nat.not_lt.2 (Nat.le_of_eq (hcounts rfl))

/-- Two drainers: the wait of the first is scheduled, an append ends and sets the event, and the
second drainer clears it before the wait starts. -/
def clearedBeforeStart : List (Option (ℕ × Action)) :=
  [none, none, some (0, .clearBeforeRead), some (0, .waitForChange), none, some (2, .finishAppend),
    some (1, .clearBeforeRead), some (0, .startWait)]

/-- The first drainer is blocked although an append has finished since its snapshot. -/
theorem clearedBeforeStart_blocks :
    (run step initial clearedBeforeStart).holders[0]? = some ⟨0, .waiting 0 0 false⟩
      ∧ 0 < (run step initial clearedBeforeStart).finished :=
  ⟨rfl, Nat.one_pos⟩

end ContextIntelligence.Queue.Guards
