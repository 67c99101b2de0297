import ContextIntelligence.Blobs.Coordination
import ContextIntelligence.Lib.Runs

/-!
# Waiting for a lease

The append of the token and each pass of the wait loop, under the lock of the condition, are steps
of their own. Whatever takes an entry from the queue or changes a counter notifies all waiters;
`Sound.quiet` makes this enough: nobody sleeps whose condition holds.
-/

namespace ContextIntelligence.Blobs

open Lib.Runs

/-- One call of `lease`, known by its token; `cancellable` if it was given a `cancel` event, and
then its waits time out. -/
structure Token where
  id : ℕ
  exclusive : Bool
  cancellable : Bool
  deriving DecidableEq, Repr

/-- The coordinator with the waiters that sleep and have not been notified, the requests whose
`cancel` event is set, and all requests in the order in which they were queued. -/
structure Leases where
  coordinator : Coordinator Token
  asleep : Finset Token
  cancelled : Finset Token
  arrived : List Token

namespace Leases

def idle : Leases := ⟨Coordinator.idle, ∅, ∅, []⟩

abbrev queue (s : Leases) : List Token := s.coordinator.queue

abbrev holders (s : Leases) : List Token := s.coordinator.holders

def ready (s : Leases) (r : Token) : Bool :=
  s.coordinator.admissible Token.exclusive (s.queue.idxOf r) r

/-- The `except` branch: the entry is removed and all waiters are notified. -/
def leave (s : Leases) (r : Token) : Leases :=
  { s with coordinator := s.coordinator.withdraw (s.queue.idxOf r), asleep := ∅ }

def attempt (s : Leases) (r : Token) : Leases :=
  if r ∈ s.cancelled then s.leave r
  else if s.ready r then
    { s with
      coordinator := s.coordinator.grant Token.exclusive (s.queue.idxOf r), asleep := ∅ }
  else { s with asleep := insert r s.asleep }

/-- `lease` is called: the token is appended. -/
def join (s : Leases) (r : Token) : Leases :=
  { s with coordinator := s.coordinator.enqueue r, arrived := s.arrived ++ [r] }

end Leases

/-- `interrupt` is any other exception that comes out of a wait; `cancel` is what `filesystem` does
when the coroutine that awaits the operation is cancelled. -/
inductive LeaseAction where
  | request (r : Token)
  | resume (r : Token)
  | interrupt (r : Token)
  | cancel (r : Token)
  | finish (r : Token)
  deriving DecidableEq, Repr

def leaseStep (s : Leases) : LeaseAction → Leases
  | .request r => if r ∈ s.arrived then s else s.join r
  | .resume r => if r ∈ s.queue ∧ (r ∈ s.asleep → r.cancellable) then s.attempt r else s
  | .interrupt r => if r ∈ s.queue then s.leave r else s
  | .cancel r => if r.cancellable then { s with cancelled := insert r s.cancelled } else s
  | .finish r =>
    if r ∈ s.holders then
      { s with
        coordinator := s.coordinator.release Token.exclusive (s.holders.idxOf r), asleep := ∅ }
    else s

/-! ## What every section keeps -/

namespace Leases

structure Sound (s : Leases) : Prop where
  excludes : s.coordinator.Excludes Token.exclusive
  order : s.queue.Sublist s.arrived
  nodup : s.arrived.Nodup
  timed : ∀ r ∈ s.cancelled, r.cancellable = true
  -- a waiter that sleeps has nothing to wake up for
  quiet : ∀ r ∈ s.asleep, r ∈ s.queue ∧ s.ready r = false

variable {s : Leases} {r : Token}

theorem sound_idle : idle.Sound :=
  ⟨Coordinator.excludes_idle, List.Sublist.refl _, List.nodup_nil, nofun, nofun⟩

theorem queue_leave (s : Leases) (r : Token) : (s.leave r).queue = s.queue.erase r :=
  List.eraseIdx_idxOf_eq_erase r s.queue

theorem grant_of_ready (hr : r ∈ s.queue) (hready : s.ready r = true) :
    (s.coordinator.grant Token.exclusive (s.queue.idxOf r)).queue = s.queue.erase r
      ∧ (s.coordinator.grant Token.exclusive (s.queue.idxOf r)).holders = r :: s.holders := by
  have hget : s.coordinator.queue[s.queue.idxOf r]? = some r := List.getElem?_idxOf hr
  unfold ready at hready
  simp only [Coordinator.grant, hget, hready, if_true, and_true]
  exact List.eraseIdx_idxOf_eq_erase r s.queue

theorem Sound.leave (h : s.Sound) (r : Token) : (s.leave r).Sound where
  excludes := h.excludes.withdraw _
  order := by
    rw [queue_leave]
    exact (List.erase_sublist ..).trans h.order
  nodup := h.nodup
  timed := h.timed
  quiet := nofun

theorem Sound.attempt (h : s.Sound) (hr : r ∈ s.queue) : (s.attempt r).Sound := by
  unfold Leases.attempt
  split
  · exact h.leave r
  · split
    case isTrue hready =>
      refine ⟨h.excludes.grant _, ?_, h.nodup, h.timed, nofun⟩
      rw [Leases.queue, (grant_of_ready hr hready).1]
      exact (List.erase_sublist ..).trans h.order
    case isFalse hready =>
      refine ⟨h.excludes, h.order, h.nodup, h.timed, fun u hu => ?_⟩
      rcases Finset.mem_insert.1 hu with rfl | hu
      · exact ⟨hr, Bool.eq_false_iff.2 hready⟩
      · exact h.quiet u hu

theorem ready_join {u : Token} (hu : u ∈ s.queue) : (s.join r).ready u = s.ready u := by
  have hidx : (s.queue ++ [r]).idxOf u = s.queue.idxOf u := List.idxOf_append_of_mem hu
  have htake : (s.queue ++ [r]).take (s.queue.idxOf u) = s.queue.take (s.queue.idxOf u) :=
    List.take_append_of_le_length (List.idxOf_lt_length_of_mem hu).le
  simp only [ready, join, Coordinator.enqueue, Coordinator.admissible, hidx, htake]

theorem Sound.join (h : s.Sound) (hr : r ∉ s.arrived) : (s.join r).Sound where
  excludes := h.excludes.enqueue r
  order := h.order.append (List.Sublist.refl [r])
  nodup := by
    rw [Leases.join, List.nodup_append]
    refine ⟨h.nodup, List.nodup_singleton r, fun u hu v hv => ?_⟩
    rw [List.mem_singleton.1 hv]
    exact ne_of_mem_of_not_mem hu hr
  timed := h.timed
  quiet u hu := by
    obtain ⟨hqueue, hfalse⟩ := h.quiet u hu
    exact ⟨List.mem_append_left _ hqueue, (ready_join hqueue).trans hfalse⟩

theorem coordinator_release (hr : r ∈ s.holders) :
    (s.coordinator.release Token.exclusive (s.holders.idxOf r)).queue = s.queue
      ∧ (s.coordinator.release Token.exclusive (s.holders.idxOf r)).holders
        = s.holders.erase r := by
  have hget : s.coordinator.holders[s.holders.idxOf r]? = some r := List.getElem?_idxOf hr
  simp only [Coordinator.release, hget, true_and]
  exact List.eraseIdx_idxOf_eq_erase r s.holders

theorem Sound.step (h : s.Sound) (a : LeaseAction) : (leaseStep s a).Sound := by
  cases a <;> dsimp only [leaseStep] <;> split
  case request.isFalse r hnew => exact h.join hnew
  case resume.isTrue r hcondemned => exact h.attempt hcondemned.1
  case interrupt.isTrue r hr => exact h.leave r
  case cancel.isTrue r hr =>
    refine ⟨h.excludes, h.order, h.nodup, fun u hu => ?_, h.quiet⟩
    rcases Finset.mem_insert.1 hu with rfl | hu
    · exact hr
    · exact h.timed u hu
  case finish.isTrue r hr =>
    refine ⟨h.excludes.release _, ?_, h.nodup, h.timed, nofun⟩
    rw [Leases.queue, (coordinator_release hr).1]
    exact h.order
  all_goals exact h

/-! ## What a step does -/

/-- A queued request gives up: it runs with its `cancel` event set, or its wait raises. -/
def Gives (s : Leases) (r : Token) (a : LeaseAction) : Prop :=
  a = .resume r ∧ r ∈ s.cancelled ∨ a = .interrupt r

/-- A waiter leaves, a waiter is admitted, a lease ends, or the step is none of these. -/
inductive Section (s t : Leases) : LeaseAction → Prop where
  | left {a : LeaseAction} {r : Token} (ha : a = .resume r ∨ a = .interrupt r)
      (hc : t.coordinator = { s.coordinator with queue := s.queue.erase r }) : Section s t a
  | granted {r : Token} (hr : r ∈ s.queue) (hready : s.ready r = true) (hcancel : r ∉ s.cancelled)
      (hqueue : t.queue = s.queue.erase r) (hholders : t.holders = r :: s.holders)
      (harrived : t.arrived = s.arrived) : Section s t (.resume r)
  | finished {r : Token} (hqueue : t.queue = s.queue)
      (hholders : t.holders = s.holders.erase r) : Section s t (.finish r)
  | still {a : LeaseAction} (hholders : t.holders = s.holders) (hqueue : s.queue ⊆ t.queue)
      (hrun : ∀ r ∈ s.queue, ¬ Gives s r a) : Section s t a

theorem section_leave {a : LeaseAction} (ha : a = .resume r ∨ a = .interrupt r) :
    Section s (s.leave r) a :=
  .left ha (congrArg (fun queue => { s.coordinator with queue := queue }) (queue_leave s r))

theorem section_attempt (hr : r ∈ s.queue) : Section s (s.attempt r) (.resume r) := by
  unfold attempt
  split
  · exact section_leave (.inl rfl)
  · next hcancel =>
    split
    · next hready =>
      obtain ⟨hqueue, hholders⟩ := grant_of_ready hr hready
      exact .granted hr hready hcancel hqueue hholders rfl
    · refine .still rfl (List.Subset.refl _) fun u _ hu => ?_
      rcases hu with ⟨heq, hu⟩ | heq <;> cases heq
      exact hcancel hu

theorem section_step (h : s.Sound) (a : LeaseAction) : Section s (leaseStep s a) a := by
  have hself : s.queue ⊆ s.queue := List.Subset.refl _
  have hother : ∀ {a}, (∀ r, a ≠ .resume r ∧ a ≠ .interrupt r) → ∀ r ∈ s.queue, ¬ Gives s r a :=
    fun hne r _ hgives => hgives.elim (fun hg => (hne r).1 hg.1) (hne r).2
  cases a <;> dsimp only [leaseStep] <;> split
  case request.isFalse => exact .still rfl (List.subset_append_left ..) (hother (by simp))
  case resume.isTrue hcondemned => exact section_attempt hcondemned.1
  case resume.isFalse r hcondemned =>
    refine .still rfl hself fun u hu hgives => ?_
    rcases hgives with ⟨heq, hcancel⟩ | heq <;> cases heq
    exact hcondemned ⟨hu, fun _ => h.timed r hcancel⟩
  case interrupt.isTrue => exact section_leave (.inr rfl)
  case interrupt.isFalse r hr =>
    refine .still rfl hself fun u hu hgives => ?_
    rcases hgives with ⟨heq, -⟩ | heq <;> cases heq
    exact hr hu
  case finish.isTrue hr => exact .finished (coordinator_release hr).1 (coordinator_release hr).2
  all_goals exact .still rfl hself (hother (by simp))

/-! ## Admission in the order of the queue -/

theorem not_sublist_swap {a b : Token} {l : List Token} (h : l.Nodup)
    (hab : [a, b].Sublist l) : ¬ [b, a].Sublist l := by
  have hlt : ∀ {x y : Token}, [x, y].Sublist l → l.idxOf x < l.idxOf y := by
    intro x y hxy
    have hpair : l.Pairwise fun x y => l.idxOf x < l.idxOf y := by
      rw [List.pairwise_iff_getElem]
      intro i j hi hj hij
      rwa [h.idxOf_getElem, h.idxOf_getElem]
    exact List.pairwise_iff_forall_sublist.1 hpair hxy
  exact fun hba => absurd (hlt hab) (hlt hba).not_gt

theorem Sound.not_overtaken (h : s.Sound) (hr : r ∈ s.queue) (hready : s.ready r = true)
    {w : Token} (hw : w ∈ s.queue.erase r) (hex : w.exclusive = true) :
    ¬ [w, r].Sublist s.arrived := by
  have hnodup : s.queue.Nodup := h.order.nodup h.nodup
  obtain ⟨hne, hw⟩ := hnodup.mem_erase_iff.1 hw
  obtain ⟨before, after, hsplit⟩ := List.append_of_mem hr
  have hnot : r ∉ before := fun hmem => by
    rw [hsplit, List.nodup_append] at hnodup
    exact hnodup.2.2 r hmem r (List.mem_cons_self ..) rfl
  have hbefore : s.queue.take (s.queue.idxOf r) = before := by
    rw [hsplit, List.idxOf_append_of_notMem hnot, List.idxOf_cons_self, Nat.add_zero,
      List.take_left]
  have hclear : ∀ u ∈ before, u.exclusive = false := by
    simp only [ready, Coordinator.admissible, hbefore, Bool.and_eq_true, Bool.not_eq_true',
      List.any_eq_false] at hready
    intro u hu
    exact Bool.eq_false_iff.2 (hready.1.2 u hu)
  have hafter : w ∈ after := by
    rw [hsplit, List.mem_append, List.mem_cons] at hw
    rcases hw with hw | hw | hw
    · exact absurd hex (by rw [hclear w hw]; decide)
    · exact absurd hw hne
    · exact hw
  have hlater : [r, w].Sublist s.queue := by
    rw [hsplit]
    exact ((List.singleton_sublist.2 hafter).cons_cons r).trans (List.sublist_append_right ..)
  exact not_sublist_swap h.nodup (hlater.trans h.order)

end Leases

/-! ## Fairness -/

/-- What a step `a` from `s` to `t` guarantees. -/
structure Fair (s : Leases) (a : LeaseAction) (t : Leases) : Prop where
  exclusion : ∀ r ∈ t.holders, r.exclusive = true → t.holders = [r]
  order : ∀ r ∈ t.holders, r ∉ s.holders →
    ∀ w ∈ t.queue, w.exclusive = true → ¬ [w, r].Sublist t.arrived
  traceless : ∀ r ∈ s.queue, s.Gives r a →
    r ∉ t.queue ∧ t.coordinator = { s.coordinator with queue := s.queue.erase r }
  kept : ∀ r ∈ s.holders, a ≠ .finish r → r ∈ t.holders
  awake : ∀ r ∈ t.queue, t.ready r = true → r ∉ t.asleep

namespace Leases

variable {s t : Leases} {a : LeaseAction} {r : Token}

theorem Section.order (hs : Section s t a) (h : s.Sound) (hr : r ∈ t.holders) (hnew : r ∉ s.holders)
    {w : Token} (hw : w ∈ t.queue) (hex : w.exclusive = true) : ¬ [w, r].Sublist t.arrived := by
  cases hs with
  | left _ hc => exact absurd (by rwa [holders, hc] at hr) hnew
  | granted hu hready _ hqueue hholders harrived =>
    rw [hholders, List.mem_cons] at hr
    obtain rfl := hr.resolve_right hnew
    rw [hqueue] at hw
    rw [harrived]
    exact h.not_overtaken hu hready hw hex
  | finished _ hholders =>
    rw [hholders] at hr
    exact absurd (List.mem_of_mem_erase hr) hnew
  | still hholders => exact absurd (hholders ▸ hr) hnew

theorem Section.traceless (hs : Section s t a) (h : s.Sound) (hr : r ∈ s.queue)
    (hgives : s.Gives r a) :
    r ∉ t.queue ∧ t.coordinator = { s.coordinator with queue := s.queue.erase r } := by
  cases hs with
  | left ha hc =>
    have hsame : ∀ u, a = .resume u ∨ a = .interrupt u → u = r := by
      rintro u (rfl | rfl) <;> rcases hgives with ⟨heq, -⟩ | heq <;> cases heq <;> rfl
    obtain rfl := hsame _ ha
    rw [queue, hc]
    exact ⟨(h.order.nodup h.nodup).not_mem_erase, rfl⟩
  | granted _ _ hcancel =>
    rcases hgives with ⟨heq, hmem⟩ | heq <;> cases heq
    exact absurd hmem hcancel
  | finished => rcases hgives with ⟨heq, -⟩ | heq <;> cases heq
  | still _ _ hrun => exact absurd hgives (hrun r hr)

theorem Section.kept (hs : Section s t a) (hr : r ∈ s.holders) (ha : a ≠ .finish r) :
    r ∈ t.holders := by
  cases hs with
  | left _ hc => rwa [holders, hc]
  | granted _ _ _ _ hholders =>
    rw [hholders]
    exact List.mem_cons_of_mem _ hr
  | finished _ hholders =>
    rw [hholders, List.mem_erase_of_ne fun heq => ha (by rw [heq])]
    exact hr
  | still hholders => rwa [hholders]

theorem Sound.fair (h : s.Sound) (a : LeaseAction) : Fair s a (leaseStep s a) where
  exclusion r hr hex := (h.step a).excludes.holders_eq hr hex
  order r hr hnew w hw hex := (section_step h a).order h hr hnew hw hex
  traceless r hr hgives := (section_step h a).traceless h hr hgives
  kept r hr ha := (section_step h a).kept hr ha
  awake r _ hready hasleep := by
    rw [((h.step a).quiet r hasleep).2] at hready
    cases hready

end Leases

/-- The coordinator is a fair readers-writer lock: for any number of requests, however their
passes, cancellations and releases interleave, every step is fair. -/
theorem coordinator_fair (actions : List LeaseAction) :
    Along leaseStep (fun s a => Fair s a (leaseStep s a)) Leases.idle actions :=
  along_of_invariant (fun _ a h => h.step a) (fun _ a h => h.fair a) Leases.sound_idle actions

end ContextIntelligence.Blobs
