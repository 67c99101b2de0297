import ContextIntelligence.Lib.Lines

/-!
# The spool files of one worker key

A `Spool` holds the `.log`, the `.offset` and the `.dead.jsonl` of a worker key; each operation of
the queue manager is a function on it, together with the states it can leave behind when it is cut
short. The callers use `readBatch_records` and `deleteDrained_cases` and never unfold the
operations.
-/

namespace ContextIntelligence.Queue

open Lib.Lines

/-! ## Files -/

abbrev Bytes := List UInt8

instance lawfulBEqBytes : LawfulBEq Bytes := inferInstance

/-- The byte `b"\n"` that terminates a record. -/
def newline : UInt8 := 10

abbrev Record := Lib.Lines.Record UInt8

/-- One complete line of a `.dead.jsonl`: a `record` that `dead_letter` wrote on its own, one
`merged` with the unterminated rest of a failed write before it, which `json.loads` rejects, or any
`other`, `loads` telling whether `json.loads` accepts it. -/
inductive DeadLine where
  | record (payload : Bytes)
  | merged (payload : Bytes)
  | other (loads : Bool)
  deriving DecidableEq, Repr

def DeadLine.payload? : DeadLine → Option Bytes
  | .record payload => some payload
  | .merged payload => some payload
  | .other _ => none

/-- The payload a reader of the file takes from a line: a line that `json.loads` rejects has
none. -/
def DeadLine.loaded? : DeadLine → Option Bytes
  | .record payload => some payload
  | .merged _ => none
  | .other _ => none

/-- What the replay makes of a line that `json.loads` accepts: its payload, or `none` when
`_decode_payload` raises. A line it rejects is skipped by `read_dead_letters`. -/
def DeadLine.replayed? : DeadLine → Option (Option Bytes)
  | .record payload => some (some payload)
  | .merged _ => none
  | .other true => some none
  | .other false => none

/-- A `.dead.jsonl`: its complete lines, and whether unterminated bytes follow them. -/
structure DeadFile where
  lines : List DeadLine
  torn : Bool
  deriving DecidableEq, Repr

/-- The files of one worker key; `none` is a file that does not exist. -/
structure Spool where
  log : Option Bytes
  offset : Option Nat
  dead : Option DeadFile
  deriving DecidableEq, Repr

def Spool.empty : Spool := ⟨none, none, none⟩

namespace Spool

def content (s : Spool) : Bytes := s.log.getD []

/-- `_read_committed_offset`: a missing `.offset` reads 0. -/
def committedOffset (s : Spool) : Nat := s.offset.getD 0

def records (s : Spool) : List Record := Lib.Lines.records newline s.content

def uncommitted (s : Spool) : List Record :=
  recordsFrom newline s.content s.committedOffset

def deadLines (s : Spool) : List DeadLine := (s.dead.map DeadFile.lines).getD []

def deadPayloads (s : Spool) : List Bytes := s.deadLines.filterMap DeadLine.payload?

/-! ## Reading and committing -/

/-- What `read_batch` returns: the records, where it started and where the last one ends. -/
structure Batch where
  records : List Record
  startOffset : Nat
  endOffset : Nat
  deriving DecidableEq, Repr

/-- `read_batch`: read the committed offset, seek there and read whole lines. -/
def readBatch (maxItems : Nat) (s : Spool) : Batch :=
  let start := s.committedOffset
  let rs := match s.log with
    | none => []
    | some bytes => readRecords newline maxItems start (bytes.drop start)
  ⟨rs, start, endOf start rs⟩

/-- `commit`: replace the `.offset` in one step. -/
def commit (newOffset : Nat) (s : Spool) : Spool := { s with offset := some newOffset }

/-! ## Writing -/

/-- The bytes `append` writes for a record: terminated unless they already are. -/
def frame (raw : Bytes) : Bytes :=
  if raw.getLast? = some newline then raw else raw ++ [newline]

/-- Bytes written at the end of the log, which is created when it does not exist. -/
def writeLog (bytes : Bytes) (s : Spool) : Spool := { s with log := some (s.content ++ bytes) }

/-- `append` of a record that is written completely. -/
def append (raw : Bytes) (s : Spool) : Spool := s.writeLog (frame raw)

/-- `dead_letter` of a payload whose line is written completely. Behind unterminated bytes the
line is merged with them. -/
def deadLetter (payload : Bytes) (s : Spool) : Spool :=
  let line := match s.dead with
    | some ⟨_, true⟩ => DeadLine.merged payload
    | _ => DeadLine.record payload
  { s with dead := some ⟨s.deadLines ++ [line], false⟩ }

/-- What a failed `dead_letter` leaves: nothing, unterminated bytes, or those bytes made a line
of their own by `_discard_partial`. -/
def deadLetterPartial (done : Nat) (s : Spool) : Spool :=
  match done with
  | 0 => s
  | 1 => { s with dead := some ⟨s.deadLines, true⟩ }
  | _ => { s with dead := some ⟨s.deadLines ++ [.other false], false⟩ }

/-! ## Deleting a drained log -/

/-- `delete_drained` stopped after `done` of its unlinks; it unlinks the log before the
offset. -/
def deleteDrainedPartial (done : Nat) (s : Spool) : Spool :=
  match s.log with
  | none => if done = 0 then s else { s with offset := none }
  | some bytes =>
    if s.committedOffset < bytes.length then s
    else match done with
      | 0 => s
      | 1 => { s with log := none }
      | _ => { s with log := none, offset := none }

/-- `delete_drained`: whether the log is gone, and the files after it. -/
def deleteDrained (s : Spool) : Bool × Spool :=
  match s.log with
  | none => (true, { s with offset := none })
  | some bytes =>
    if s.committedOffset < bytes.length then (false, s)
    else (true, { s with log := none, offset := none })

/-! ## Counting -/

/-- The `in_queue` of `refresh_all_stats`: the newlines from the committed offset to the end. -/
def inQueue (s : Spool) : Nat := (s.content.drop s.committedOffset).count newline

/-- `_count_dead`: the complete lines of the dead-letter file. -/
def countDead (s : Spool) : Nat := s.deadLines.length

/-! ## Deleting a session -/

/-- `_complete_data_end`: the position after the last complete line of the log. -/
def completeDataEnd (s : Spool) : Nat := completeEnd newline 0 [] s.content

/-- `_count_newlines` of the log's byte range from `start` to `stop`. -/
def countNewlines (start stop : Nat) (s : Spool) : Nat :=
  ((s.content.take stop).drop start).count newline

/-- The complete lines between the committed offset and the end of the complete data, as
`delete_session` counts them. -/
def pendingCount (s : Spool) : Nat := s.countNewlines s.committedOffset s.completeDataEnd

/-- `delete_session` stopped after `done` of its unlinks, which are those of the log, the offset
and the dead-letter file in this order. It refuses while a record is pending. -/
def deleteSessionPartial (done : Nat) (s : Spool) : Spool :=
  if s.pendingCount ≠ 0 then s
  else match done with
    | 0 => s
    | 1 => { s with log := none }
    | 2 => { s with log := none, offset := none }
    | _ => Spool.empty

/-- `delete_session` run to its end. -/
def deleteSession (s : Spool) : Spool := if s.pendingCount ≠ 0 then s else Spool.empty

/-- `delete_drained`, stopped after `cut` unlinks or run to its end. -/
def deleteDrainedCut : Option Nat → Spool → Spool
  | none, s => s.deleteDrained.2
  | some done, s => s.deleteDrainedPartial done

/-- `delete_session`, stopped after `cut` unlinks or run to its end. -/
def deleteSessionCut : Option Nat → Spool → Spool
  | none, s => s.deleteSession
  | some done, s => s.deleteSessionPartial done

/-! ## The boot passes -/

/-- `_dead_payload_set`. -/
def deadPayloadSet (s : Spool) : List Bytes := s.deadLines.filterMap DeadLine.loaded?

/-- The loop of `recovery_reconcile_dead`: step from `pos` over each leading line below
`completeEnd` whose bytes are dead-lettered. -/
def stepOverDead (completeEnd : Nat) (dead : List Bytes) : Nat → List Record → Nat
  | pos, [] => pos
  | pos, r :: rs =>
    if pos < completeEnd ∧ r.raw ∈ dead then stepOverDead completeEnd dead r.stop rs else pos

/-- `recovery_reconcile_dead` for one key. -/
def reconcileDead (s : Spool) : Spool :=
  match s.log with
  | none => s
  | some bytes =>
    if s.deadPayloadSet = [] then s
    else
      let pos := stepOverDead s.completeDataEnd s.deadPayloadSet s.committedOffset
        (recordsFrom newline bytes s.committedOffset)
      if s.committedOffset < pos then s.commit pos else s

/-- `recovery_seed_counts` for one key: what it adds to the accepted and the written events. -/
def recoverySeedCounts (s : Spool) : Nat × Nat :=
  let dead := s.countDead
  let written := s.countNewlines 0 s.committedOffset - dead
  (written + s.pendingCount + dead, written)

/-- `_all_worker_keys` lists a key by its log or its dead-letter file, never by its offset. -/
def visible (s : Spool) : Bool := s.log.isSome || s.dead.isSome

/-! ## Lemmas -/

@[simp] theorem content_commit (n : Nat) (s : Spool) : (s.commit n).content = s.content := rfl
@[simp] theorem committedOffset_commit (n : Nat) (s : Spool) :
    (s.commit n).committedOffset = n := rfl
@[simp] theorem content_writeLog (bytes : Bytes) (s : Spool) :
    (s.writeLog bytes).content = s.content ++ bytes := rfl
@[simp] theorem committedOffset_writeLog (bytes : Bytes) (s : Spool) :
    (s.writeLog bytes).committedOffset = s.committedOffset := rfl

@[simp] theorem log_deadLetterPartial (done : Nat) (s : Spool) :
    (s.deadLetterPartial done).log = s.log := by
  unfold deadLetterPartial
  split <;> rfl

@[simp] theorem offset_deadLetterPartial (done : Nat) (s : Spool) :
    (s.deadLetterPartial done).offset = s.offset := by
  unfold deadLetterPartial
  split <;> rfl

theorem frame_eq_concat (raw : Bytes) : ∃ line, frame raw = line ++ [newline] := by
  unfold frame
  split
  · rename_i hlast
    exact ⟨raw.dropLast, (List.dropLast_append_getLast? newline hlast).symm⟩
  · exact ⟨raw, rfl⟩

theorem scan_frame {raw : Bytes} (h : newline ∉ raw) (p : Nat) :
    scan newline p [] (frame raw) = [⟨raw, p, p + raw.length + 1⟩] := by
  have hlast : raw.getLast? ≠ some newline := fun hlast => h (List.mem_of_getLast? hlast)
  rw [frame, if_neg hlast]
  exact scan_concat_terminator h p

theorem deadPayloads_deadLetter (payload : Bytes) (s : Spool) :
    (s.deadLetter payload).deadPayloads = s.deadPayloads ++ [payload] := by
  unfold deadLetter
  cases hdead : s.dead with
  | none => simp [deadPayloads, deadLines, hdead, DeadLine.payload?]
  | some file =>
    obtain ⟨lines, torn⟩ := file
    cases torn <;> simp [deadPayloads, deadLines, hdead, DeadLine.payload?]

theorem deadPayloads_deadLetterPartial (done : Nat) (s : Spool) :
    (s.deadLetterPartial done).deadPayloads = s.deadPayloads := by
  unfold deadLetterPartial
  split
  · rfl
  · simp [deadPayloads, deadLines]
  · simp [deadPayloads, deadLines, DeadLine.payload?]

variable {s : Spool}

theorem content_of_log_none (h : s.log = none) : s.content = [] := by
  simp [content, h]

/-- One `read_batch` returns the first complete records above the committed offset. -/
theorem readBatch_records (maxItems : Nat) (s : Spool) :
    (s.readBatch maxItems).records = s.uncommitted.take maxItems := by
  unfold readBatch uncommitted recordsFrom content
  cases s.log with
  | none => simp [scan]
  | some bytes => exact readRecords_eq_take newline maxItems _ _

theorem readBatch_endOffset (maxItems : Nat) (s : Spool) :
    (s.readBatch maxItems).endOffset
      = endOf s.committedOffset (s.readBatch maxItems).records := rfl

/-- The two outcomes of `delete_drained`: an undrained log stays, otherwise both files go. -/
theorem deleteDrained_cases (s : Spool) :
    (s.committedOffset < s.content.length ∧ s.deleteDrained = (false, s)) ∨
      (s.content.length ≤ s.committedOffset
        ∧ s.deleteDrained = (true, { s with log := none, offset := none })) := by
  unfold deleteDrained content
  cases hlog : s.log with
  | none =>
    exact .inr ⟨Nat.zero_le _, by simp⟩
  | some bytes =>
    by_cases h : s.committedOffset < bytes.length
    · exact .inl ⟨h, by simp [h]⟩
    · exact .inr ⟨by simpa using h, by simp [h]⟩

/-- An interrupted `delete_drained` leaves the files alone, removes the log only, or removes
both. -/
theorem deleteDrainedPartial_cases (done : Nat) (s : Spool) :
    s.deleteDrainedPartial done = s
      ∨ (done = 1 ∧ s.log ≠ none ∧ s.content.length ≤ s.committedOffset
          ∧ s.deleteDrainedPartial done = { s with log := none })
      ∨ (s.content.length ≤ s.committedOffset
          ∧ s.deleteDrainedPartial done = { s with log := none, offset := none }) := by
  unfold deleteDrainedPartial content
  cases hlog : s.log with
  | none =>
    by_cases h : done = 0
    · exact .inl (by simp [h])
    · exact .inr (.inr ⟨Nat.zero_le _, by simp [h]⟩)
  | some bytes =>
    by_cases h : s.committedOffset < bytes.length
    · exact .inl (by simp [h])
    · match done with
      | 0 => exact .inl (by simp [h])
      | 1 => exact .inr (.inl ⟨rfl, by simp, by simpa using h, by simp [h]⟩)
      | _ + 2 => exact .inr (.inr ⟨by simpa using h, by simp [h]⟩)

theorem deleteDrainedCut_of_lt (h : s.committedOffset < s.content.length)
    (cut : Option Nat) : s.deleteDrainedCut cut = s := by
  cases cut with
  | none =>
    rcases s.deleteDrained_cases with ⟨-, heq⟩ | ⟨hle, -⟩
    · rw [deleteDrainedCut, heq]
    · omega
  | some done =>
    rcases s.deleteDrainedPartial_cases done with heq | ⟨-, -, hle, -⟩ | ⟨hle, -⟩
    · exact heq
    · omega
    · omega

theorem inQueue_eq (s : Spool) : s.inQueue = s.uncommitted.length := by
  unfold inQueue uncommitted recordsFrom
  rw [length_scan]

theorem pendingCount_eq (s : Spool) : s.pendingCount = s.uncommitted.length := by
  unfold pendingCount countNewlines completeDataEnd uncommitted recordsFrom
  rw [count_to_completeEnd, length_scan]

theorem uncommitted_eq_nil_of_le (h : s.content.length ≤ s.committedOffset) :
    s.uncommitted = [] := by
  unfold uncommitted recordsFrom
  rw [List.drop_eq_nil_of_le h]
  rfl

/-- An interrupted `delete_session` leaves the files alone, or has found nothing pending and
removed the log and perhaps more. -/
theorem deleteSessionPartial_cases (done : Nat) (s : Spool) :
    s.deleteSessionPartial done = s
      ∨ (s.uncommitted = []
          ∧ (s.deleteSessionPartial done = { s with log := none }
            ∨ s.deleteSessionPartial done = { s with log := none, offset := none }
            ∨ s.deleteSessionPartial done = Spool.empty)) := by
  unfold deleteSessionPartial
  split
  · exact .inl rfl
  · rename_i hpend
    rw [pendingCount_eq, Decidable.not_not, List.length_eq_zero_iff] at hpend
    match done with
    | 0 => exact .inl rfl
    | 1 => exact .inr ⟨hpend, Or.inl rfl⟩
    | 2 => exact .inr ⟨hpend, Or.inr (.inl rfl)⟩
    | _ + 3 => exact .inr ⟨hpend, Or.inr (.inr rfl)⟩

/-- The files after a deletion that took the log of a drained key. -/
structure Removed (s s' : Spool) : Prop where
  drained : s.uncommitted = []
  log : s'.log = none
  offset : s'.offset = s.offset ∨ s'.offset = none
  dead : s'.dead = s.dead ∨ s'.dead = none

theorem deleteDrainedCut_cases (cut : Option Nat) (s : Spool) :
    s.deleteDrainedCut cut = s ∨ Removed s (s.deleteDrainedCut cut) := by
  cases cut with
  | none =>
    rcases s.deleteDrained_cases with ⟨_, heq⟩ | ⟨hle, heq⟩
    · exact .inl (congrArg Prod.snd heq)
    · right
      rw [deleteDrainedCut, heq]
      exact ⟨uncommitted_eq_nil_of_le hle, rfl, Or.inr rfl, Or.inl rfl⟩
  | some done =>
    rcases s.deleteDrainedPartial_cases done with heq | ⟨_, _, hle, heq⟩ | ⟨hle, heq⟩
    · exact .inl heq
    · right
      rw [deleteDrainedCut, heq]
      exact ⟨uncommitted_eq_nil_of_le hle, rfl, Or.inl rfl, Or.inl rfl⟩
    · right
      rw [deleteDrainedCut, heq]
      exact ⟨uncommitted_eq_nil_of_le hle, rfl, Or.inr rfl, Or.inl rfl⟩

theorem deleteSessionCut_cases (cut : Option Nat) (s : Spool) :
    s.deleteSessionCut cut = s ∨ Removed s (s.deleteSessionCut cut) := by
  -- the deletion that runs to its end is the one stopped after all three unlinks
  have hdone : ∃ done, s.deleteSessionCut cut = s.deleteSessionPartial done := by
    cases cut with
    | none => exact ⟨3, rfl⟩
    | some done => exact ⟨done, rfl⟩
  obtain ⟨done, hdone⟩ := hdone
  rw [hdone]
  rcases s.deleteSessionPartial_cases done with heq | ⟨hnil, heq | heq | heq⟩
  · exact .inl heq
  · right
    rw [heq]
    exact ⟨hnil, rfl, Or.inl rfl, Or.inl rfl⟩
  · right
    rw [heq]
    exact ⟨hnil, rfl, Or.inr rfl, Or.inl rfl⟩
  · right
    rw [heq]
    exact ⟨hnil, rfl, Or.inr rfl, Or.inr rfl⟩

theorem stepOverDead_eq_endOf (completeEnd : Nat) (dead : List Bytes) (pos : Nat)
    (rs : List Record) : ∃ pre, pre <+: rs ∧ stepOverDead completeEnd dead pos rs = endOf pos pre
      ∧ ∀ r ∈ pre, r.raw ∈ dead := by
  induction rs generalizing pos with
  | nil => exact ⟨[], List.prefix_refl _, rfl, nofun⟩
  | cons r rs ih =>
    simp only [stepOverDead]
    split
    · rename_i hstep
      obtain ⟨pre, hpre, hpos, hdead⟩ := ih r.stop
      refine ⟨r :: pre, (List.prefix_cons_inj r).2 hpre, hpos, ?_⟩
      intro x hx
      rcases List.mem_cons.1 hx with rfl | hx
      · exact hstep.2
      · exact hdead x hx
    · exact ⟨[], List.nil_prefix, rfl, nofun⟩

theorem deadPayloadSet_subset (s : Spool) : s.deadPayloadSet ⊆ s.deadPayloads := by
  intro payload hpay
  obtain ⟨line, hline, hload⟩ := List.mem_filterMap.1 hpay
  apply List.mem_filterMap.2
  refine ⟨line, hline, ?_⟩
  cases line with
  | record payload => exact hload
  | merged payload => cases hload
  | other loads => cases hload

theorem reconcileDead_cases (s : Spool) : s.reconcileDead = s
    ∨ ∃ pre post, s.uncommitted = pre ++ post
        ∧ s.reconcileDead = s.commit (endOf s.committedOffset pre) := by
  unfold reconcileDead
  cases hlog : s.log with
  | none => exact .inl rfl
  | some bytes =>
    by_cases hset : s.deadPayloadSet = []
    · exact .inl (by simp [hset])
    · obtain ⟨pre, ⟨post, hpost⟩, hpos, _⟩ := stepOverDead_eq_endOf s.completeDataEnd
        s.deadPayloadSet s.committedOffset (recordsFrom newline bytes s.committedOffset)
      simp only [hset, if_false]
      split
      · right
        refine ⟨pre, post, ?_, by rw [hpos]⟩
        rw [uncommitted, content, hlog]
        exact hpost.symm
      · exact .inl rfl

theorem deleteDrainedCut_dead (cut : Option Nat) (s : Spool) :
    (s.deleteDrainedCut cut).dead = s.dead := by
  cases cut with
  | none =>
    rcases s.deleteDrained_cases with ⟨_, heq⟩ | ⟨_, heq⟩
    · rw [deleteDrainedCut, heq]
    · rw [deleteDrainedCut, heq]
  | some done =>
    rcases s.deleteDrainedPartial_cases done with heq | ⟨_, _, _, heq⟩ | ⟨_, heq⟩
    · rw [deleteDrainedCut, heq]
    · rw [deleteDrainedCut, heq]
    · rw [deleteDrainedCut, heq]

theorem reconcileDead_of_dead_none (h : s.dead = none) : s.reconcileDead = s := by
  unfold reconcileDead
  have hset : s.deadPayloadSet = [] := by simp [deadPayloadSet, deadLines, h]
  cases s.log with
  | none => rfl
  | some bytes => simp [hset]

end Spool

/-- The files of a key whose committed offset is a record boundary of its log. -/
structure Settled where
  spool : Spool
  boundary : Boundary newline spool.content spool.committedOffset

def Settled.empty : Settled := ⟨Spool.empty, boundary_zero _ _⟩

end ContextIntelligence.Queue
