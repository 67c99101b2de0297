import Mathlib

/-!
# Disks that may lose what has not been synced

A cell has the value that is read there now and those it has had since it was last synced; a power
loss may leave any of them. `May` collects what can be found at a place after one, `Sure` says that
there is only one such value, and `Survives` that a property holds whatever a power loss leaves.
-/

namespace ContextIntelligence.Lib.Durable

universe u v

variable {α : Type u} {ρ : Type v}

structure Cell (α : Type u) where
  now : α
  kept : List α
  deriving DecidableEq

namespace Cell

def settled (a : α) : Cell α := ⟨a, []⟩

def set (c : Cell α) (a : α) : Cell α := ⟨a, c.now :: c.kept⟩

def sync (c : Cell α) : Cell α := settled c.now

/-- A power loss that leaves the `k`-th youngest of the values. -/
def lose (c : Cell α) (k : ℕ) : Cell α := settled ((c.now :: c.kept).getD k c.now)

def May (c : Cell α) (a : α) : Prop := a ∈ c.now :: c.kept

def Sure (c : Cell α) (a : α) : Prop := ∀ b, c.May b → b = a

instance Sure.decidable [DecidableEq α] (c : Cell α) (a : α) : Decidable (c.Sure a) :=
  inferInstanceAs (Decidable (∀ b ∈ c.now :: c.kept, b = a))

theorem may_now (c : Cell α) : c.May c.now := List.mem_cons_self

variable {c : Cell α}

theorem Sure.now {a : α} (h : c.Sure a) : c.now = a := h _ c.may_now

@[simp] theorem may_settled {a b : α} : (settled a).May b ↔ b = a := by
  simp [May, settled]

theorem sure_settled (a : α) : (settled a).Sure a := fun _ h => may_settled.1 h

@[simp] theorem may_set {a b : α} : (c.set a).May b ↔ b = a ∨ c.May b := by
  simp [May, set]

@[simp] theorem now_set (c : Cell α) (a : α) : (c.set a).now = a := rfl

@[simp] theorem now_sync (c : Cell α) : c.sync.now = c.now := rfl

theorem may_of_sync {a : α} (h : c.sync.May a) : c.May a := by
  rw [may_settled.1 h]
  exact c.may_now

theorem may_lose (c : Cell α) (k : ℕ) : c.May (c.lose k).now := by
  change (c.now :: c.kept).getD k c.now ∈ c.now :: c.kept
  rw [List.getD_eq_getElem?_getD]
  cases h : (c.now :: c.kept)[k]? with
  | none => exact List.mem_cons_self
  | some a => exact List.mem_of_getElem? h

theorem may_of_lose {k : ℕ} {a : α} (h : (c.lose k).May a) : c.May a := by
  rw [show a = (c.lose k).now from may_settled.1 h]
  exact c.may_lose k

theorem exists_lose {a : α} (h : c.May a) : ∃ k, (c.lose k).now = a := by
  obtain ⟨k, hk, rfl⟩ := List.getElem_of_mem h
  refine ⟨k, ?_⟩
  change (c.now :: c.kept).getD k c.now = _
  rw [List.getD_eq_getElem?_getD, List.getElem?_eq_getElem hk, Option.getD_some]

end Cell

abbrev Disk (ρ : Type v) (α : Type u) := ρ → Cell α

namespace Disk

variable [DecidableEq ρ]

def put (d : Disk ρ α) (place : ρ) (a : α) : Disk ρ α :=
  Function.update d place ((d place).set a)

def sync (d : Disk ρ α) (here : ρ → Bool) : Disk ρ α :=
  fun place => if here place then (d place).sync else d place

omit [DecidableEq ρ] in
def lose (d : Disk ρ α) (choice : ρ → ℕ) : Disk ρ α := fun place => (d place).lose (choice place)

variable {d : Disk ρ α}

@[simp] theorem may_put {place q : ρ} {a b : α} :
    (d.put place a q).May b ↔ q = place ∧ b = a ∨ (d q).May b := by
  by_cases h : q = place
  · subst h
    simp [put]
  · simp [put, h]

@[simp] theorem now_put_self (d : Disk ρ α) (place : ρ) (a : α) :
    (d.put place a place).now = a := by
  simp [put]

theorem put_of_ne (d : Disk ρ α) {place q : ρ} (a : α) (h : q ≠ place) : d.put place a q = d q := by
  simp [put, h]

omit [DecidableEq ρ]

@[simp] theorem now_sync (d : Disk ρ α) (here : ρ → Bool) (q : ρ) :
    (d.sync here q).now = (d q).now := by
  unfold sync
  split <;> rfl

theorem may_of_sync {here : ρ → Bool} {q : ρ} {a : α} (h : (d.sync here q).May a) :
    (d q).May a := by
  unfold sync at h
  split at h
  · exact Cell.may_of_sync h
  · exact h

theorem sure_sync (d : Disk ρ α) {here : ρ → Bool} {q : ρ} (h : here q = true) :
    (d.sync here q).Sure (d q).now := by
  simp only [sync, h, if_true]
  exact Cell.sure_settled _

theorem may_of_lose {choice : ρ → ℕ} {q : ρ} {a : α} (h : (d.lose choice q).May a) : (d q).May a :=
  Cell.may_of_lose h

theorem now_of_may_lose {choice : ρ → ℕ} {q : ρ} {a : α}
    (h : (d.lose choice q).May a) : (d.lose choice q).now = a :=
  (Cell.may_settled.1 h).symm

def Survives (d : Disk ρ α) (P : Disk ρ α → Prop) : Prop := ∀ choice, P (d.lose choice)

theorem survives_of {P : Disk ρ α → Prop}
    (h : ∀ d' : Disk ρ α, (∀ q, (d q).May (d' q).now) → P d') : d.Survives P :=
  fun choice => h _ fun q => (d q).may_lose (choice q)

theorem Survives.elim {P : Disk ρ α → Prop} (h : d.Survives P) (f : ρ → α)
    (hf : ∀ q, (d q).May (f q)) : ∃ d' : Disk ρ α, P d' ∧ ∀ q, (d' q).now = f q := by
  choose choice hchoice using fun q => Cell.exists_lose (hf q)
  exact ⟨d.lose choice, h choice, hchoice⟩

end Disk

end ContextIntelligence.Lib.Durable
