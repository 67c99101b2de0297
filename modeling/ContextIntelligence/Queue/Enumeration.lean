import ContextIntelligence.Lib.Runs
import ContextIntelligence.Queue.Spool

/-!
# Reading and committing enumerate the log

A reader calls `read_batch`, commits the `end_offset` and calls again, while bytes are appended.
`read_commit_enumerates`: it has returned the complete lines above the first committed offset, each
once and in order, never a torn tail, and all of them after enough further rounds.
-/

namespace ContextIntelligence.Queue

open Lib.Lines Lib.Runs

/-- A `max_items` of at least one. -/
abbrev BatchSize := {n : Nat // 0 < n}

/-- A reader: the files of its key, what the calls of `read_batch` have returned, and the
`end_offset` of a batch that is not committed yet. -/
structure Reader where
  spool : Spool
  returned : List Record
  inHand : Option Nat
  deriving DecidableEq, Repr

namespace Reader

/-- What happens between two steps of the loop: a call of the reader, or bytes appended. -/
inductive Action where
  | readBatch (size : BatchSize)
  | commit
  | grow (bytes : Bytes)

/-- One step. A batch is committed before the next one is read. -/
def step (s : Reader) : Action → Reader
  | .readBatch size =>
    match s.inHand with
    | some _ => s
    | none =>
      let batch := s.spool.readBatch size.1
      { s with returned := s.returned ++ batch.records, inHand := some batch.endOffset }
  | .commit =>
    match s.inHand with
    | none => s
    | some endOffset => { s with spool := s.spool.commit endOffset, inHand := none }
  | .grow bytes => { s with spool := s.spool.writeLog bytes }

/-- A reader that has not called `read_batch` yet. -/
def begin (spool : Spool) : Reader := ⟨spool, [], none⟩

def rounds (sizes : List BatchSize) : List Action :=
  sizes.flatMap fun size => [.commit, .readBatch size]

def linesFrom (s : Reader) (p : Nat) : List Record := recordsFrom newline s.spool.content p

/-- Where the next `read_batch` starts once the batch in hand is committed. -/
def position (s : Reader) : Nat := s.inHand.getD s.spool.committedOffset

/-! ## The invariant -/

/-- What has been returned and what lies above the position are the lines above the first offset,
and the committed offset is the end of a part of what was returned. -/
structure Inv (first : Nat) (s : Reader) : Prop where
  boundary : Boundary newline s.spool.content first
  split : s.linesFrom first = s.returned ++ s.linesFrom s.position
  position : s.position = endOf first s.returned
  committed : ∃ pre, pre <+: s.returned ∧ s.spool.committedOffset = endOf first pre

theorem inv_begin (start : Settled) : Inv start.spool.committedOffset (begin start.spool) where
  boundary := start.boundary
  split := rfl
  position := rfl
  committed := ⟨[], List.prefix_refl _, rfl⟩

section Steps

variable {first : Nat} {s : Reader}

section

variable (h : Inv first s)
include h

theorem Inv.boundary_position : Boundary newline s.spool.content s.position := by
  rw [h.position]
  exact boundary_endOf h.boundary h.split

theorem Inv.readBatch (size : BatchSize) : Inv first (s.step (.readBatch size)) := by
  simp only [step]
  cases hhand : s.inHand with
  | some _ => exact h
  | none =>
    have hstart : s.position = s.spool.committedOffset := by rw [Reader.position, hhand]; rfl
    have hbatch : (s.spool.readBatch size.1).records
        = (s.linesFrom s.position).take size.1 := by
      rw [Spool.readBatch_records, hstart]
      rfl
    have hend : (s.spool.readBatch size.1).endOffset
        = endOf s.position (s.spool.readBatch size.1).records := by
      rw [Spool.readBatch_endOffset, hstart]
    -- the batch is a first part of what lies above the position
    have hrest : s.linesFrom s.position = (s.spool.readBatch size.1).records
        ++ (s.linesFrom s.position).drop size.1 := by
      rw [hbatch, List.take_append_drop]
    refine ⟨h.boundary, ?_, ?_, ?_⟩
    · calc s.linesFrom first
          = s.returned ++ s.linesFrom s.position := h.split
        _ = (s.returned ++ (s.spool.readBatch size.1).records)
              ++ (s.linesFrom s.position).drop size.1 := by
            rw [List.append_assoc, ← hrest]
        _ = _ := by
            have habove := recordsFrom_endOf hrest
            rw [← hend] at habove
            rw [← habove]
            rfl
    · rw [endOf_append, ← h.position]
      exact hend
    · obtain ⟨pre, hpre, hcomm⟩ := h.committed
      exact ⟨pre, hpre.trans (List.prefix_append _ _), hcomm⟩

theorem Inv.commit : Inv first (s.step .commit) := by
  simp only [step]
  cases hhand : s.inHand with
  | none => exact h
  | some endOffset =>
    have hpos : s.position = endOffset := by rw [Reader.position, hhand]; rfl
    have hend := h.position
    have hsplit := h.split
    rw [hpos] at hend hsplit
    exact ⟨h.boundary, hsplit, hend, s.returned, List.prefix_refl _, hend⟩

theorem Inv.grow (bytes : Bytes) : Inv first (s.step (.grow bytes)) where
  boundary := h.boundary.append bytes
  split := by
    -- above the first offset and above the position the same lines are added
    have hfirst := recordsFrom_append_eq h.boundary bytes
    have hpos := recordsFrom_append_eq h.boundary_position bytes
    have hsplit := h.split
    rw [linesFrom, linesFrom] at hsplit
    rw [hsplit, List.append_assoc, ← hpos] at hfirst
    exact hfirst
  position := h.position
  committed := h.committed

theorem Inv.step (a : Action) : Inv first (s.step a) := by
  cases a with
  | readBatch size => exact h.readBatch size
  | commit => exact h.commit
  | grow bytes => exact h.grow bytes

theorem Inv.run (actions : List Action) : Inv first (Lib.Runs.run Reader.step s actions) := by
  induction actions generalizing s with
  | nil => exact h
  | cons a as ih => exact ih (h.step a)

/-! ## Progress -/

theorem round_progress (size : BatchSize) :
    let after := (s.step .commit).step (.readBatch size)
    after.spool.content = s.spool.content
      ∧ (after.linesFrom after.position).length
          = (s.linesFrom s.position).length - size.1 := by
  have hcom := h.commit
  have hhand : (s.step .commit).inHand = none := by
    simp only [Reader.step]
    cases hinH : s.inHand with
    | none => exact hinH
    | some _ => rfl
  have hcont : (s.step .commit).spool.content = s.spool.content := by
    simp only [Reader.step]
    cases s.inHand <;> rfl
  have hpos : (s.step .commit).position = s.position := by
    simp only [Reader.step, Reader.position]
    cases hinH : s.inHand with
    | none => simp [hinH]
    | some _ => rfl
  have hread := hcom.readBatch size
  have hlines : (s.step .commit).linesFrom = s.linesFrom := by
    funext p
    rw [linesFrom, hcont, linesFrom]
  generalize hs : s.step .commit = t at *
  have hsame : (t.step (.readBatch size)).spool = t.spool := by
    simp only [Reader.step, hhand]
  have hret : (t.step (.readBatch size)).returned
      = t.returned ++ (t.linesFrom t.position).take size.1 := by
    simp only [Reader.step, hhand]
    rw [Spool.readBatch_records, Reader.position, hhand]
    rfl
  refine ⟨by rw [hsame, hcont], ?_⟩
  -- both splits are of the same lines, so the lengths of what is left differ by the batch
  have hbefore := congrArg List.length hcom.split
  have hafter := congrArg List.length hread.split
  have hfirst : (t.step (.readBatch size)).linesFrom first = t.linesFrom first := by
    rw [linesFrom, hsame, linesFrom]
  rw [hfirst, hbefore, hret] at hafter
  simp only [List.length_append, List.length_take] at hafter
  rw [hlines, hpos] at hafter
  omega

theorem returned_rounds {sizes : List BatchSize}
    (henough : (s.linesFrom s.position).length ≤ sizes.length) :
    (run Reader.step s (rounds sizes)).returned = s.linesFrom first := by
  induction sizes generalizing s with
  | nil =>
    have hnil : s.linesFrom s.position = [] :=
      List.eq_nil_of_length_eq_zero (Nat.le_zero.1 henough)
    have hsplit := h.split
    rw [hnil, List.append_nil] at hsplit
    exact hsplit.symm
  | cons size sizes ih =>
    obtain ⟨hcont, hleft⟩ := round_progress h size
    have hsize := size.2
    rw [List.length_cons] at henough
    have hrest := ih (h.commit.readBatch size) (by omega)
    rw [linesFrom, hcont] at hrest
    exact hrest

end

end Steps

/-! ## The result -/

/-- What a reader that started at `first` has returned: complete lines of the log, from the first
one on, each once and in order; ranges that follow one another; a committed offset at a line
boundary, where a part of what was returned ends; and every complete line after enough further
rounds. -/
structure Enumerates (first : Nat) (s : Reader) : Prop where
  inOrder : s.returned <+: s.linesFrom first
  contiguous : Contiguous first s.returned
  covers : s.spool.content.drop first
    = letters newline s.returned ++ s.spool.content.drop (endOf first s.returned)
  committed : Boundary newline s.spool.content s.spool.committedOffset
    ∧ ∃ pre, pre <+: s.returned ∧ s.spool.committedOffset = endOf first pre
  untorn : endOf first s.returned ≤ s.spool.completeDataEnd
  complete : ∀ sizes : List BatchSize, (s.linesFrom s.position).length ≤ sizes.length →
    (run step s (rounds sizes)).returned = s.linesFrom first

theorem le_completeEnd_of_boundary {log : Bytes} {p : Nat} (h : Boundary newline log p) :
    p ≤ completeEnd newline 0 [] log := by
  obtain ⟨htorn, hend⟩ := h.take
  have happ := completeEnd_append newline 0 [] (log.take p) (log.drop p)
  rw [List.take_append_drop, htorn, hend] at happ
  rw [happ]
  exact le_completeEnd newline p [] _

theorem Inv.enumerates {first : Nat} {s : Reader} (h : Inv first s) : Enumerates first s where
  inOrder := ⟨_, h.split.symm⟩
  contiguous := (contiguous_of_recordsFrom h.split).1
  covers := (contiguous_of_recordsFrom h.split).2
  committed := by
    obtain ⟨pre, hpre, hcomm⟩ := h.committed
    refine ⟨?_, pre, hpre, hcomm⟩
    obtain ⟨post, hpost⟩ := hpre
    have hsplit := h.split
    rw [← hpost, List.append_assoc] at hsplit
    rw [hcomm]
    exact boundary_endOf h.boundary hsplit
  untorn := by
    rw [← h.position]
    exact le_completeEnd_of_boundary h.boundary_position
  complete := fun _ => returned_rounds h

/-- Reading and committing enumerate the log: from every log and every offset at a line boundary,
with any batch sizes and any bytes appended between the steps. -/
theorem read_commit_enumerates (start : Settled) (actions : List Action) :
    Enumerates start.spool.committedOffset (run step (begin start.spool) actions) :=
  ((inv_begin start).run actions).enumerates

end Reader

end ContextIntelligence.Queue
