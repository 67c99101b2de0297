import ContextIntelligence.Queue.Spool
import ContextIntelligence.Lib.Runs

/-!
# Interrupted deletions and the records appended after them

`delete_drained` and `delete_session` unlink the log before the offset, and may stop after any
unlink. `_all_worker_keys` never lists a key by its `.offset`, so no boot pass sees an offset whose
log is gone, and a log created later is read from that offset on. `deletionSafe_iff_appendsApart`
says for which commands, stopped after which unlink, this happens.
-/

namespace ContextIntelligence.Queue

open Lib.Lines Lib.Runs

/-! ## Histories of a key -/

/-- The files of a key with its history: how many logs were created, which of them the `.offset`
was committed for, the records appended and the records `read_batch` returned, each with the
number of its log. -/
structure Key where
  spool : Spool
  logNumber : Nat
  offsetOf : Nat
  accepted : List (Nat × Record)
  returned : List (Nat × Record)
  deriving DecidableEq, Repr

def Key.initial : Key := ⟨Spool.empty, 0, 0, [], []⟩

/-- One step of a history. `cut` is the number of unlinks after which the deletion stops, `none`
when it runs to its end; in `restart` it is the deletion that the boot reclaim calls. -/
inductive Command where
  | append (raw : Bytes)
  | drain (maxItems commits : Nat)
  | deleteDrained (cut : Option Nat)
  | deleteSession (cut : Option Nat)
  | restart (cut : Option Nat)
  deriving DecidableEq, Repr

/-- `reclaim_drained_orphans` for one key: it calls `delete_drained` on the keys it can see. -/
def Spool.reclaim (cut : Option Nat) (s : Spool) : Spool :=
  if s.visible then s.deleteDrainedCut cut else s

def Spool.boot (cut : Option Nat) (s : Spool) : Spool := s.reconcileDead.reclaim cut

/-- `append`: the record goes to the current log, or to a new one when there is none. -/
def Key.append (raw : Bytes) (k : Key) : Key :=
  let number := if k.spool.log.isNone then k.logNumber + 1 else k.logNumber
  { k with
    spool := k.spool.append raw
    logNumber := number
    accepted := k.accepted
      ++ (scan newline k.spool.content.length [] (Spool.frame raw)).map fun r => (number, r) }

variable (maxItems commits : Nat)

/-- `read_batch`, and `commit` behind the first `commits` of the records it returned. -/
def Key.drain (k : Key) : Key :=
  let batch := k.spool.readBatch maxItems
  let done := batch.records.take commits
  let read := { k with returned := k.returned ++ batch.records.map fun r => (k.logNumber, r) }
  if done = [] then read
  else { read with
    spool := k.spool.commit (endOf batch.startOffset done)
    offsetOf := k.logNumber }

def keyStep (k : Key) : Command → Key
  | .append raw => k.append raw
  | .drain maxItems commits => k.drain maxItems commits
  | .deleteDrained cut => { k with spool := k.spool.deleteDrainedCut cut }
  | .deleteSession cut => { k with spool := k.spool.deleteSessionCut cut }
  | .restart cut => { k with spool := k.spool.boot cut }

/-! ## The property and its condition -/

/-- The offset file, when there is one beside a log, was committed for this log. -/
def Key.Paired (k : Key) : Prop :=
  k.spool.log ≠ none → k.spool.offset ≠ none → k.offsetOf = k.logNumber

/-- Reading and committing with batches of `maxItems` records, `n` times. -/
def Key.drains (maxItems n : Nat) (k : Key) : Key :=
  run keyStep k (List.replicate n (.drain maxItems maxItems))

/-- A record of the current log that the committed offset has not passed and that draining, with
any batch size, returns whole. -/
def Key.Awaits (k : Key) (a : Nat × Record) : Prop :=
  a.1 = k.logNumber ∧ k.spool.committedOffset ≤ a.2.start
    ∧ ∀ maxItems, 0 < maxItems → ∃ n, a ∈ (k.drains maxItems n).returned

/-- Logs are paired with their own offsets, and every record appended was returned by a
`read_batch` or is still to be returned by one. -/
structure DeletionSafe (k : Key) : Prop where
  paired : k.Paired
  delivered : ∀ a ∈ k.accepted, a ∈ k.returned ∨ k.Awaits a

/-- The condition on one step: an append that creates the log finds no `.offset` file. -/
def CreatesClean (k : Key) : Command → Prop
  | .append _ => k.spool.log = none → k.spool.offset = none
  | _ => True

theorem boot_cases (cut : Option Nat) {s : Spool} (hdead : s.dead = none) :
    s.boot cut = s ∨ Spool.Removed s (s.boot cut) := by
  rw [Spool.boot, Spool.reconcileDead_of_dead_none hdead, Spool.reclaim]
  split
  · exact Spool.deleteDrainedCut_cases cut s
  · exact .inl rfl

/-! ## The invariant of a clean history -/

/-- What holds of a key as long as every log was created clean. Of the current log the committed
offset is a record boundary and no bytes are torn; what was appended and not returned lies above
that offset. -/
structure KeyInv (k : Key) : Prop where
  dead : k.spool.dead = none
  offsetOf_le : k.offsetOf ≤ k.logNumber
  paired : k.Paired
  boundary : k.spool.log ≠ none → Boundary newline k.spool.content k.spool.committedOffset
  whole : torn newline [] k.spool.content = []
  fate : ∀ a ∈ k.accepted, a ∈ k.returned ∨ (a.1 = k.logNumber ∧ a.2 ∈ k.spool.uncommitted)

theorem keyInv_initial : KeyInv Key.initial where
  dead := rfl
  offsetOf_le := Nat.le_refl _
  paired := fun h => absurd rfl h
  boundary := fun h => absurd rfl h
  whole := rfl
  fate := nofun

theorem KeyInv.append {k : Key} (h : KeyInv k) (raw : Bytes)
    (hclean : k.spool.log = none → k.spool.offset = none) : KeyInv (k.append raw) := by
  have hbound : Boundary newline k.spool.content k.spool.committedOffset := by
    cases hlog : k.spool.log with
    | none =>
      rw [Spool.committedOffset, hclean hlog]
      exact boundary_zero _ _
    | some bytes => exact h.boundary (by rw [hlog]; nofun)
  have hgrow : (k.append raw).spool.uncommitted
      = k.spool.uncommitted ++ scan newline k.spool.content.length [] (Spool.frame raw) :=
    recordsFrom_append_of_whole hbound h.whole (Spool.frame raw)
  refine ⟨h.dead, ?_, ?_, fun _ => hbound.append _, ?_, ?_⟩
  · have hle := h.offsetOf_le
    simp only [Key.append]
    split <;> omega
  · intro _ hoffset
    cases hlog : k.spool.log with
    | none => exact absurd (hclean hlog) hoffset
    | some bytes =>
      have hpair := h.paired (by rw [hlog]; nofun) hoffset
      simpa [Key.append, hlog] using hpair
  · obtain ⟨line, hline⟩ := Spool.frame_eq_concat raw
    show torn newline [] (k.spool.content ++ Spool.frame raw) = []
    rw [hline, ← List.append_assoc]
    exact torn_concat_terminator _ _ _
  · intro a ha
    rcases List.mem_append.1 ha with hold | hnew
    · rcases h.fate a hold with hret | ⟨hnumber, hmem⟩
      · exact .inl hret
      · refine .inr ⟨?_, by rw [hgrow]; exact List.mem_append_left _ hmem⟩
        -- a missing log has no uncommitted record, so the log existed and its number stays
        cases hlog : k.spool.log with
        | none =>
          rw [Spool.uncommitted, Spool.content_of_log_none hlog, recordsFrom, List.drop_nil] at hmem
          cases hmem
        | some bytes => simpa [Key.append, hlog] using hnumber
    · obtain ⟨r, hr, rfl⟩ := List.mem_map.1 hnew
      exact .inr ⟨rfl, by rw [hgrow]; exact List.mem_append_right _ hr⟩

theorem Key.drain_cases (k : Key) :
    ((k.spool.readBatch maxItems).records.take commits = []
        ∧ (k.drain maxItems commits).spool = k.spool
        ∧ (k.drain maxItems commits).offsetOf = k.offsetOf)
      ∨ ((k.spool.readBatch maxItems).records.take commits ≠ []
        ∧ (k.drain maxItems commits).spool = k.spool.commit
            (endOf k.spool.committedOffset ((k.spool.readBatch maxItems).records.take commits))
        ∧ (k.drain maxItems commits).offsetOf = k.logNumber) := by
  by_cases hdone : (k.spool.readBatch maxItems).records.take commits = []
  · exact .inl ⟨hdone, by simp [Key.drain, hdone], by simp [Key.drain, hdone]⟩
  · refine .inr ⟨hdone, ?_, ?_⟩
    · simp only [Key.drain, if_neg hdone]
      rfl
    · simp only [Key.drain, if_neg hdone]

theorem Key.drain_logNumber (k : Key) : (k.drain maxItems commits).logNumber = k.logNumber := by
  unfold Key.drain
  dsimp only
  split <;> rfl

theorem Key.drain_accepted (k : Key) : (k.drain maxItems commits).accepted = k.accepted := by
  unfold Key.drain
  dsimp only
  split <;> rfl

theorem Key.drain_returned (k : Key) :
    (k.drain maxItems commits).returned
      = k.returned ++ (k.spool.uncommitted.take maxItems).map fun r => (k.logNumber, r) := by
  unfold Key.drain
  dsimp only
  rw [← Spool.readBatch_records]
  split <;> rfl

theorem uncommitted_split (s : Spool) :
    s.uncommitted = (s.readBatch maxItems).records.take commits
      ++ s.uncommitted.drop (min commits maxItems) := by
  rw [Spool.readBatch_records, List.take_take, List.take_append_drop]

theorem uncommitted_drain (k : Key) :
    (k.drain maxItems commits).spool.uncommitted
      = k.spool.uncommitted.drop (min commits maxItems) := by
  have hsplit := uncommitted_split maxItems commits k.spool
  rcases k.drain_cases maxItems commits with ⟨hnone, hspool, _⟩ | ⟨_, hspool, _⟩
  · rw [hspool]
    rwa [hnone, List.nil_append] at hsplit
  · rw [hspool]
    exact recordsFrom_endOf hsplit

theorem KeyInv.drain {k : Key} (h : KeyInv k) (maxItems commits : Nat) :
    KeyInv (k.drain maxItems commits) := by
  have hfate : ∀ a ∈ (k.drain maxItems commits).accepted,
      a ∈ (k.drain maxItems commits).returned
        ∨ (a.1 = (k.drain maxItems commits).logNumber
            ∧ a.2 ∈ (k.drain maxItems commits).spool.uncommitted) := by
    intro a ha
    rw [Key.drain_accepted] at ha
    rw [Key.drain_returned, Key.drain_logNumber, uncommitted_drain]
    rcases h.fate a ha with hret | ⟨hnumber, hmem⟩
    · exact .inl (List.mem_append_left _ hret)
    · rw [uncommitted_split maxItems commits k.spool, List.mem_append] at hmem
      rcases hmem with hdone | hrest
      · left
        rw [Spool.readBatch_records] at hdone
        apply List.mem_append_right
        apply List.mem_map.2
        exact ⟨a.2, List.mem_of_mem_take hdone, by rw [← hnumber]⟩
      · exact .inr ⟨hnumber, hrest⟩
  rcases k.drain_cases maxItems commits with ⟨_, hspool, hof⟩ | ⟨hsome, hspool, hof⟩
  · constructor
    · rw [hspool]
      exact h.dead
    · rw [hof, Key.drain_logNumber]
      exact h.offsetOf_le
    · intro hlog hoffset
      rw [hof, Key.drain_logNumber]
      rw [hspool] at hlog hoffset
      exact h.paired hlog hoffset
    · rw [hspool]
      exact h.boundary
    · rw [hspool]
      exact h.whole
    · exact hfate
  · have hbound : k.spool.log ≠ none → Boundary newline k.spool.content
        (endOf k.spool.committedOffset ((k.spool.readBatch maxItems).records.take commits)) :=
      fun hlog => boundary_endOf (h.boundary hlog) (uncommitted_split maxItems commits k.spool)
    constructor
    · rw [hspool]
      exact h.dead
    · exact Nat.le_of_eq (hof.trans (Key.drain_logNumber _ _ _).symm)
    · intro _ _
      rw [hof, Key.drain_logNumber]
    · rw [hspool]
      exact hbound
    · rw [hspool]
      exact h.whole
    · exact hfate

theorem KeyInv.removed {k : Key} (h : KeyInv k) {s : Spool} (hs : Spool.Removed k.spool s) :
    KeyInv { k with spool := s } where
  dead := by
    rcases hs.dead with hd | hd
    · exact hd.trans h.dead
    · exact hd
  offsetOf_le := h.offsetOf_le
  paired := fun hlog => absurd hs.log hlog
  boundary := fun hlog => absurd hs.log hlog
  whole := by
    show torn newline [] s.content = []
    rw [Spool.content_of_log_none hs.log]
    rfl
  fate := by
    intro a ha
    rcases h.fate a ha with hret | ⟨_, hmem⟩
    · exact .inl hret
    · rw [hs.drained] at hmem
      cases hmem

theorem keyStep_inv (k : Key) (c : Command) (h : KeyInv k) (hclean : CreatesClean k c) :
    KeyInv (keyStep k c) := by
  -- the three deletions leave the files alone or take the log of a drained key
  have hdel : ∀ {s : Spool}, s = k.spool ∨ Spool.Removed k.spool s →
      KeyInv { k with spool := s } := by
    rintro s (rfl | hrem)
    · exact h
    · exact h.removed hrem
  cases c with
  | append raw => exact h.append raw hclean
  | drain maxItems commits => exact h.drain maxItems commits
  | deleteDrained cut => exact hdel (Spool.deleteDrainedCut_cases cut k.spool)
  | deleteSession cut => exact hdel (Spool.deleteSessionCut_cases cut k.spool)
  | restart cut => exact hdel (boot_cases cut h.dead)

/-! ## What the invariant gives -/

theorem drains_return {maxItems : Nat} (hpos : 0 < maxItems) {a : Nat × Record} (bound : Nat)
    {k : Key} (hlen : k.spool.uncommitted.length ≤ bound) (hnumber : a.1 = k.logNumber)
    (hmem : a.2 ∈ k.spool.uncommitted) : ∃ n, a ∈ (k.drains maxItems n).returned := by
  induction bound generalizing k with
  | zero =>
    rw [List.eq_nil_of_length_eq_zero (Nat.le_zero.1 hlen)] at hmem
    cases hmem
  | succ bound ih =>
    rw [← List.take_append_drop maxItems k.spool.uncommitted, List.mem_append] at hmem
    rcases hmem with hfirst | hlater
    · -- the next batch returns it
      refine ⟨1, ?_⟩
      show a ∈ (k.drain maxItems maxItems).returned
      rw [Key.drain_returned]
      apply List.mem_append_right
      exact List.mem_map.2 ⟨a.2, hfirst, by rw [← hnumber]⟩
    · have hrest := uncommitted_drain maxItems maxItems k
      rw [Nat.min_self] at hrest
      have hshrink : (k.drain maxItems maxItems).spool.uncommitted.length ≤ bound := by
        rw [hrest, List.length_drop]
        omega
      obtain ⟨n, hn⟩ := ih hshrink (hnumber.trans (Key.drain_logNumber _ _ _).symm)
        (by rw [hrest]; exact hlater)
      exact ⟨n + 1, hn⟩

theorem KeyInv.safe {k : Key} (h : KeyInv k) : DeletionSafe k where
  paired := h.paired
  delivered := by
    intro a ha
    rcases h.fate a ha with hret | ⟨hnumber, hmem⟩
    · exact .inl hret
    · right
      refine ⟨hnumber, (lt_stop_of_mem_recordsFrom hmem).1, ?_⟩
      intro maxItems hpos
      exact drains_return hpos _ (Nat.le_refl _) hnumber hmem

theorem createsClean_of_paired {k : Key} {c : Command} (h : KeyInv k)
    (hpair : (keyStep k c).Paired) : CreatesClean k c := by
  cases c with
  | append raw =>
    intro hlog
    by_contra hoffset
    have heq : (k.append raw).offsetOf = (k.append raw).logNumber := hpair nofun hoffset
    have hle := h.offsetOf_le
    simp only [Key.append, hlog, Option.isNone_none, if_true] at heq
    omega
  | drain maxItems commits => trivial
  | deleteDrained cut => trivial
  | deleteSession cut => trivial
  | restart cut => trivial

/-- The histories whose logs are all created clean are the safe ones. -/
theorem deletionSafe_iff_createsClean (history : List Command) :
    Always keyStep DeletionSafe Key.initial history
      ↔ Along keyStep CreatesClean Key.initial history :=
  always_iff_along keyStep_inv (fun _ h => h.safe)
    (fun _ _ h hsafe => createsClean_of_paired h hsafe.paired) keyInv_initial history

/-! ## Which deletions leave an offset behind -/

/-- The step is a deletion that is not refused and stops after it has unlinked the log and before
it unlinks the offset. -/
def stopsBetween (k : Key) : Command → Bool
  | .deleteDrained cut | .restart cut =>
    cut = some 1 ∧ k.spool.log ≠ none ∧ k.spool.offset ≠ none
      ∧ k.spool.content.length ≤ k.spool.committedOffset
  | .deleteSession cut =>
    cut = some 1 ∧ k.spool.log ≠ none ∧ k.spool.offset ≠ none ∧ k.spool.pendingCount = 0
  | _ => false

/-- The step is a deletion that gets to the offset of a key without a log. A restart is none: its
reclaim does not list such a key. -/
def removesOffset : Command → Bool
  | .deleteDrained cut => cut ≠ some 0
  | .deleteSession cut => cut ≠ some 0 ∧ cut ≠ some 1
  | _ => false

/-- Whether an offset is left behind after the step. -/
def leftBehind (k : Key) (left : Bool) (c : Command) : Bool :=
  stopsBetween k c || (left && !removesOffset c)

/-- No record is appended between a deletion that stops between its two unlinks and the next one
that removes the offset. -/
def AppendsApart : Key → Bool → List Command → Prop
  | _, _, [] => True
  | k, left, c :: rest =>
    (left = true → ∀ raw, c ≠ .append raw) ∧ AppendsApart (keyStep k c) (leftBehind k left c) rest

/-- There is an offset and no log. -/
def Orphaned (s : Spool) : Prop := s.log = none ∧ s.offset ≠ none

theorem orphaned_drain (k : Key) :
    Orphaned (k.drain maxItems commits).spool ↔ Orphaned k.spool := by
  rcases k.drain_cases maxItems commits with ⟨_, hspool, _⟩ | ⟨hsome, hspool, _⟩
  · rw [hspool]
  · -- a batch with records has a log
    have hlog : k.spool.log ≠ none := by
      intro hnone
      simp [Spool.readBatch, hnone] at hsome
    rw [hspool]
    exact ⟨fun horphan => absurd horphan.1 hlog, fun horphan => absurd horphan.1 hlog⟩

theorem orphaned_deleteDrainedCut (cut : Option Nat) (k : Key) :
    (stopsBetween k (.deleteDrained cut) = true
        ∨ Orphaned k.spool ∧ (!removesOffset (.deleteDrained cut)) = true)
      ↔ Orphaned (k.spool.deleteDrainedCut cut) := by
  cases hlog : k.spool.log with
  | none =>
    rcases cut with _ | _ | n <;>
      simp [stopsBetween, removesOffset, Orphaned, Spool.deleteDrainedCut, Spool.deleteDrained,
        Spool.deleteDrainedPartial, hlog]
  | some bytes =>
    rcases cut with _ | _ | _ | n <;>
      simp [stopsBetween, removesOffset, Orphaned, Spool.deleteDrainedCut, Spool.deleteDrained,
        Spool.deleteDrainedPartial, Spool.content, hlog] <;> grind

theorem orphaned_deleteSessionCut (cut : Option Nat) (k : Key) :
    (stopsBetween k (.deleteSession cut) = true
        ∨ Orphaned k.spool ∧ (!removesOffset (.deleteSession cut)) = true)
      ↔ Orphaned (k.spool.deleteSessionCut cut) := by
  cases hlog : k.spool.log with
  | none =>
    have hpend : k.spool.pendingCount = 0 := by
      rw [Spool.pendingCount_eq, Spool.uncommitted, Spool.content_of_log_none hlog]
      simp [recordsFrom, scan]
    rcases cut with _ | _ | _ | _ | n <;>
      simp [stopsBetween, removesOffset, Orphaned, Spool.deleteSessionCut, Spool.deleteSession,
        Spool.deleteSessionPartial, Spool.empty, hlog, hpend]
  | some bytes =>
    rcases cut with _ | _ | _ | _ | n <;>
      simp [stopsBetween, removesOffset, Orphaned, Spool.deleteSessionCut, Spool.deleteSession,
        Spool.deleteSessionPartial, Spool.empty, hlog] <;> grind

/-- `leftBehind` follows the files: where an append creates its log clean, an offset is left behind
exactly when it stands without a log. -/
theorem orphaned_keyStep {k : Key} {left : Bool} {c : Command} (hinv : KeyInv k)
    (h : left = true ↔ Orphaned k.spool) (hclean : CreatesClean k c) :
    leftBehind k left c = true ↔ Orphaned (keyStep k c).spool := by
  cases c with
  | append raw =>
    have hnot : left = false := by
      rw [← Bool.not_eq_true, h]
      exact fun horphan => horphan.2 (hclean horphan.1)
    simp [leftBehind, stopsBetween, hnot, Orphaned, keyStep, Key.append, Spool.append,
      Spool.writeLog]
  | drain maxItems commits =>
    simpa [leftBehind, stopsBetween, removesOffset, keyStep, orphaned_drain] using h
  | deleteDrained cut =>
    rw [keyStep, leftBehind, Bool.or_eq_true, Bool.and_eq_true, h]
    exact orphaned_deleteDrainedCut cut k
  | deleteSession cut =>
    rw [keyStep, leftBehind, Bool.or_eq_true, Bool.and_eq_true, h]
    exact orphaned_deleteSessionCut cut k
  | restart cut =>
    -- the reclaim lists the key by its log alone
    rw [keyStep, Spool.boot, Spool.reconcileDead_of_dead_none hinv.dead, Spool.reclaim, leftBehind,
      Bool.or_eq_true, Bool.and_eq_true, h]
    cases hlog : k.spool.log with
    | none => simp [Spool.visible, hlog, hinv.dead, stopsBetween, removesOffset]
    | some bytes =>
      have hnot : ¬ Orphaned k.spool := fun horphan => by simp [Orphaned, hlog] at horphan
      rw [if_pos (by simp [Spool.visible, hlog]), ← orphaned_deleteDrainedCut cut k]
      simp only [hnot, false_and, or_false]
      exact Iff.rfl

theorem createsClean_iff_appendsApart {k : Key} {left : Bool} (history : List Command)
    (hinv : KeyInv k) (h : left = true ↔ Orphaned k.spool) :
    Along keyStep CreatesClean k history ↔ AppendsApart k left history := by
  induction history generalizing k left with
  | nil => exact Iff.rfl
  | cons c rest ih =>
    have hhead : CreatesClean k c ↔ (left = true → ∀ raw, c ≠ .append raw) := by
      rw [h]
      cases c <;> simp [CreatesClean, Orphaned]
    rw [Along, AppendsApart, ← hhead]
    refine and_congr_right fun hclean => ?_
    exact ih (keyStep_inv k c hinv hclean) (orphaned_keyStep hinv h hclean)

/-- One record is appended, drained and its log trimmed; the process dies after the log is
unlinked. After the restart another record is appended and the key is drained again. -/
def trimCutShort : List Command :=
  [.append [97], .drain 10 10, .deleteDrained (some 1), .restart none, .append [98], .drain 10 10]

end ContextIntelligence.Queue
