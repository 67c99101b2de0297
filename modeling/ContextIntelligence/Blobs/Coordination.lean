import Mathlib

/-!
# Leases on the blob root

A shared operation enters when nobody holds an exclusive lease and no exclusive one is queued before
it; an exclusive one from the head of the queue when nobody holds any. `Coordinator.Excludes` ties
the counters of the source to the operations they count.
-/

namespace ContextIntelligence.Blobs

universe u

/-- The admission queue, the two counters of the source, and the operations that hold a lease. -/
structure Coordinator (α : Type u) where
  queue : List α
  readers : ℕ
  writer : Bool
  holders : List α

namespace Coordinator

variable {α : Type u}

def idle : Coordinator α := ⟨[], 0, false, []⟩

/-- `lease` appends its token to the queue. -/
def enqueue (c : Coordinator α) (a : α) : Coordinator α := { c with queue := c.queue ++ [a] }

def withdraw (c : Coordinator α) (i : ℕ) : Coordinator α := { c with queue := c.queue.eraseIdx i }

def advance (c : Coordinator α) (i : ℕ) (a : α) : Coordinator α :=
  { c with holders := c.holders.set i a }

variable (exclusive : α → Bool)

/-- The condition of the wait loop, for the operation at position `i` of the queue. -/
def admissible (c : Coordinator α) (i : ℕ) (a : α) : Bool :=
  !c.writer && !(c.queue.take i).any exclusive && (!exclusive a || (i == 0 && c.readers == 0))

def grant (c : Coordinator α) (i : ℕ) : Coordinator α :=
  match c.queue[i]? with
  | none => c
  | some a =>
    if c.admissible exclusive i a then
      { queue := c.queue.eraseIdx i
        readers := if exclusive a then c.readers else c.readers + 1
        writer := if exclusive a then true else c.writer
        holders := a :: c.holders }
    else c

/-- The `finally` of `lease`. -/
def release (c : Coordinator α) (i : ℕ) : Coordinator α :=
  match c.holders[i]? with
  | none => c
  | some a =>
    { c with
      readers := if exclusive a then c.readers else c.readers - 1
      writer := if exclusive a then false else c.writer
      holders := c.holders.eraseIdx i }

/-- The counters count the holders, and an exclusive lease is the only one. -/
structure Excludes (c : Coordinator α) : Prop where
  readers : c.readers = c.holders.countP fun a => !exclusive a
  writer : c.holders.countP exclusive = if c.writer then 1 else 0
  alone : c.writer = true → c.readers = 0

variable {exclusive} {c : Coordinator α}

theorem excludes_idle : Excludes exclusive (idle : Coordinator α) :=
  ⟨rfl, rfl, fun _ => rfl⟩

theorem Excludes.holders_eq (h : c.Excludes exclusive) {a : α} (ha : a ∈ c.holders)
    (hex : exclusive a = true) : c.holders = [a] := by
  have hpos : 0 < c.holders.countP exclusive := List.countP_pos_iff.2 ⟨a, ha, hex⟩
  have hwrite : c.writer = true := by
    by_contra hno
    rw [h.writer, if_neg hno] at hpos
    exact Nat.lt_irrefl 0 hpos
  have hlen : c.holders.length = 1 := by
    rw [c.holders.length_eq_countP_add_countP exclusive, h.writer, if_pos hwrite]
    have hread := h.readers
    rw [h.alone hwrite] at hread
    simpa using hread.symm
  obtain ⟨b, hb⟩ := List.length_eq_one_iff.1 hlen
  rw [hb] at ha ⊢
  rw [List.mem_singleton.1 ha]

theorem Excludes.enqueue (h : c.Excludes exclusive) (a : α) : (c.enqueue a).Excludes exclusive :=
  ⟨h.readers, h.writer, h.alone⟩

theorem Excludes.withdraw (h : c.Excludes exclusive) (i : ℕ) : (c.withdraw i).Excludes exclusive :=
  ⟨h.readers, h.writer, h.alone⟩

theorem mem_holders_grant {i : ℕ} {a : α} (h : a ∈ (c.grant exclusive i).holders) :
    a ∈ c.holders ∨ a ∈ c.queue := by
  unfold grant at h
  split at h
  · exact .inl h
  · next b hb =>
      split at h
      · rcases List.mem_cons.1 h with rfl | h
        · exact .inr (List.mem_of_getElem? hb)
        · exact .inl h
      · exact .inl h

theorem mem_queue_grant {i : ℕ} {a : α} (h : a ∈ (c.grant exclusive i).queue) : a ∈ c.queue := by
  unfold grant at h
  split at h
  · exact h
  · split at h
    · exact List.mem_of_mem_eraseIdx h
    · exact h

/-- A grant keeps exclusive holders alone. -/
theorem Excludes.grant (h : c.Excludes exclusive) (i : ℕ) :
    (c.grant exclusive i).Excludes exclusive := by
  unfold Coordinator.grant
  split
  · exact h
  · next a ha =>
      split
      case isFalse => exact h
      case isTrue hadm =>
        simp only [admissible, Bool.and_eq_true, Bool.not_eq_true', Bool.or_eq_true,
          beq_iff_eq] at hadm
        obtain ⟨⟨hwrite, -⟩, hkind⟩ := hadm
        have hnone := h.writer
        rw [hwrite] at hnone
        cases hex : exclusive a
        · exact ⟨by simp [hex, h.readers], by simpa [hex, hwrite] using hnone,
            fun hw => by simp [hwrite] at hw⟩
        · -- nobody holds a lease, so the counters are those of the one new holder
          have hread : c.readers = 0 := by
            rcases hkind with hno | ⟨-, hzero⟩
            · rw [hex] at hno
              exact absurd hno (by decide)
            · exact hzero
          have hcount := h.readers
          exact ⟨by simpa [hex] using hcount, by simpa [hex] using hnone,
            fun _ => by simpa using hread⟩

theorem Excludes.advance (h : c.Excludes exclusive) {i : ℕ} {a b : α} (ha : c.holders[i]? = some a)
    (hsame : exclusive b = exclusive a) : (c.advance i b).Excludes exclusive := by
  obtain ⟨hi, rfl⟩ := List.getElem?_eq_some_iff.1 ha
  have hperm : List.Perm (c.holders.set i b) (b :: c.holders.eraseIdx i) :=
    List.set_perm_cons_eraseIdx hi b
  have hback : List.Perm (c.holders[i] :: c.holders.eraseIdx i) c.holders :=
    List.getElem_cons_eraseIdx_perm hi
  have hcount : ∀ p : α → Bool, p b = p c.holders[i] →
      (c.holders.set i b).countP p = c.holders.countP p := by
    intro p hp
    rw [hperm.countP_eq, ← hback.countP_eq p, List.countP_cons, List.countP_cons, hp]
  exact ⟨h.readers.trans (hcount _ (by rw [hsame])).symm, (hcount _ hsame).trans h.writer, h.alone⟩

theorem Excludes.release (h : c.Excludes exclusive) (i : ℕ) :
    (c.release exclusive i).Excludes exclusive := by
  unfold Coordinator.release
  split
  · exact h
  · next a ha =>
      obtain ⟨hi, rfl⟩ := List.getElem?_eq_some_iff.1 ha
      have hback : List.Perm (c.holders[i] :: c.holders.eraseIdx i) c.holders :=
        List.getElem_cons_eraseIdx_perm hi
      have hread := h.readers
      have hwrite := h.writer
      rw [← hback.countP_eq, List.countP_cons] at hread hwrite
      cases hex : exclusive c.holders[i]
      · simp only [hex, Bool.not_false, if_true, Bool.false_eq_true, if_false] at hread hwrite ⊢
        refine ⟨by rw [hread]; rfl, hwrite, fun hw => ?_⟩
        have := h.alone hw
        omega
      · simp only [hex, Bool.not_true, Bool.false_eq_true, if_false, if_true] at hread hwrite ⊢
        refine ⟨hread, ?_, fun hw => absurd hw Bool.false_ne_true⟩
        split at hwrite <;> simp at hwrite ⊢
        exact hwrite

end Coordinator

end ContextIntelligence.Blobs
