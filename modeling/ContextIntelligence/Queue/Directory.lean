import ContextIntelligence.Lib.Scans
import ContextIntelligence.Queue.Names
import ContextIntelligence.Queue.Spool

/-!
# The spool directory

A `Directory` holds the files of all keys, some left by older versions, with what an attempt to read
each of them gives; every scan is written as the source has it, with the chunked loops and the
exceptions that the callers catch.
-/

namespace ContextIntelligence.Queue

open Lib.Lines

/-! ## Files -/

/-- The exceptions of the file operations, other than `FileNotFoundError`. Every pass catches
them together. -/
inductive Fault where
  | osError
  | valueError
  deriving DecidableEq, Repr

/-- What opening a file for reading finds. `unreadable` is any `OSError` but
`FileNotFoundError`: no permission, a directory, a name that is too long. -/
inductive Artifact where
  | missing
  | unreadable
  | bytes (content : Bytes)
  deriving DecidableEq, Repr

/-- What `_read_committed_offset` finds: no file, one that cannot be read, a text that is not an
integer, or an integer; an empty text reads 0. -/
inductive OffsetFile where
  | missing
  | unreadable
  | corrupt
  | empty
  | value (n : ℤ)
  deriving DecidableEq, Repr

structure KeyFiles where
  log : Artifact
  offset : OffsetFile
  dead : Artifact
  deriving DecidableEq, Repr

def KeyFiles.absent : KeyFiles := ⟨.missing, .missing, .missing⟩

/-- The spool directory: its keys, sorted, and their files. `maxSeek` is the last position that
the file system can seek to; no file is longer. -/
structure Directory where
  keys : List WorkerKey
  files : WorkerKey → KeyFiles
  maxSeek : Nat
  complete : ∀ key, key ∉ keys → files key = KeyFiles.absent
  fits : ∀ key bytes, (files key).log = .bytes bytes → bytes.length ≤ maxSeek

/-! ## Scans of one file -/

/-- `_read_committed_offset`. -/
def readCommittedOffset : OffsetFile → Except Fault ℤ
  | .missing => .ok 0
  | .unreadable => .error .osError
  | .corrupt => .error .valueError
  | .empty => .ok 0
  | .value n => .ok n

/-- `f.seek`: a position below 0 or beyond what the file system allows is refused. -/
def seek (maxSeek : Nat) (pos : ℤ) : Except Fault Nat :=
  if pos < 0 then .error .osError
  else if (maxSeek : ℤ) < pos then .error .osError
  else .ok pos.toNat

/-- `_SCAN_CHUNK_BYTES`. -/
def scanChunkBytes : Nat := 2 ^ 20

/-- `_last_complete_end`: search for the last newline chunk by chunk from the end. -/
def lastCompleteEnd : Artifact → Except Fault Nat
  | .missing => .ok 0
  | .unreadable => .error .osError
  | .bytes content => .ok (searchBack newline scanChunkBytes content content.length content.length)

/-- `_stream_newlines`: count the newlines from `start` to `stop`, or to the end of the file,
chunk by chunk. -/
def streamNewlines (maxSeek : Nat) (file : Artifact) (start : ℤ) (stop : Option ℤ) :
    Except Fault Nat :=
  if stop.any (· ≤ start) then .ok 0
  else
    match file with
    | .missing => .ok 0
    | .unreadable => .error .osError
    | .bytes content => do
        let pos ← seek maxSeek start
        return countChunks newline scanChunkBytes (content.length + 1)
          (stop.map fun stop => (stop - start).toNat) (content.drop pos)

/-- `_count_dead`. -/
def countDead (maxSeek : Nat) (f : KeyFiles) : Except Fault Nat :=
  streamNewlines maxSeek f.dead 0 none

/-! ## Operations on one key -/

/-- `pending_count` behind the validation of the key. -/
def pendingCount (maxSeek : Nat) (f : KeyFiles) : Except Fault Nat := do
  let committed ← readCommittedOffset f.offset
  let completeEnd ← lastCompleteEnd f.log
  streamNewlines maxSeek f.log committed (some completeEnd)

/-- `read_batch` behind the validation of the key: the records and the `end_offset`. -/
def readBatch (maxSeek maxItems : Nat) (f : KeyFiles) : Except Fault (List Record × ℤ) := do
  let start ← readCommittedOffset f.offset
  match f.log with
  | .missing => return ([], start)
  | .unreadable => .error .osError
  | .bytes content =>
    let pos ← seek maxSeek start
    let records := readRecords newline maxItems pos (content.drop pos)
    return (records, endOf pos records)

/-- `commit`. -/
def commit (newOffset : ℤ) (f : KeyFiles) : KeyFiles := { f with offset := .value newOffset }

/-- What the loop that reads a batch of each of the given sizes and commits it returns. -/
def readCommitLoop (maxSeek : Nat) : List Nat → KeyFiles → Except Fault (List Record)
  | [], _ => return []
  | size :: sizes, f => do
      let (records, endOffset) ← readBatch maxSeek size f
      let rest ← readCommitLoop maxSeek sizes (commit endOffset f)
      return records ++ rest

/-- The outcome of `delete_session`: the refusal with the number of pending records, or whether
a file was removed. -/
inductive Deletion where
  | refused (pending : Nat)
  | deleted (removed : Bool)
  deriving DecidableEq, Repr

/-- `delete_session` behind the validation of the key: the check and the unlinks run under one
lock. -/
def deleteSession (maxSeek : Nat) (f : KeyFiles) : Except Fault (Deletion × KeyFiles) := do
  let committed ← readCommittedOffset f.offset
  let completeEnd ← lastCompleteEnd f.log
  let pending ← streamNewlines maxSeek f.log committed (some completeEnd)
  if pending ≠ 0 then return (.refused pending, f)
  else return (.deleted (f ≠ KeyFiles.absent), KeyFiles.absent)

namespace Directory

/-! ## Passes over all keys -/

/-- The keys with a `.log`, as `glob("*.log")` finds them. -/
def logKeys (d : Directory) : List WorkerKey :=
  d.keys.filter fun key => (d.files key).log ≠ .missing

/-- `_all_worker_keys` and `_pending_worker_keys`: the keys with a `.log` or a `.dead.jsonl`. -/
def allWorkerKeys (d : Directory) : List WorkerKey :=
  d.keys.filter fun key => (d.files key).log ≠ .missing || (d.files key).dead ≠ .missing

/-- Whether `recover` lists a key that has a log: it is valid, its files can be read, and its
committed offset is below the end of its complete data. -/
def recoverable (d : Directory) (key : WorkerKey) : Bool :=
  isSafeSessionId key
    && match (do
        let committed ← readCommittedOffset (d.files key).offset
        let completeEnd ← lastCompleteEnd (d.files key).log
        return decide (committed < completeEnd) : Except Fault Bool) with
      | .ok below => below
      | .error _ => false

/-- `recover`. -/
def recover (d : Directory) : List WorkerKey := d.logKeys.filter d.recoverable

/-- What `has_pending_records` finds for one key; a failure counts as pending. -/
def keyHasPending (d : Directory) (key : WorkerKey) : Bool :=
  match (do
      let committed ← readCommittedOffset (d.files key).offset
      let completeEnd ← lastCompleteEnd (d.files key).log
      return decide (committed < 0) || decide ((completeEnd : ℤ) < committed)
        || decide (committed < completeEnd) : Except Fault Bool) with
  | .ok pending => pending
  | .error _ => true

/-- `has_pending_records`. -/
def hasPendingRecords (d : Directory) : Bool := d.allWorkerKeys.any d.keyHasPending

end Directory

/-! ## The scans and the plain counts -/

@[simp] theorem ok_bind {α β : Type} (a : α) (f : α → Except Fault β) :
    (Except.ok a >>= f) = f a := rfl

@[simp] theorem error_bind {α β : Type} (fault : Fault) (f : α → Except Fault β) :
    (Except.error fault >>= f) = .error fault := rfl

theorem scanChunkBytes_pos : 0 < scanChunkBytes := by decide

theorem lastCompleteEnd_bytes (content : Bytes) :
    lastCompleteEnd (.bytes content) = .ok (completeEnd newline 0 [] content) := by
  rw [lastCompleteEnd, searchBack_eq newline scanChunkBytes_pos content (Nat.le_refl _)
    (Nat.le_refl _), List.take_length]

variable {maxSeek pos : Nat}

theorem seek_natCast (h : pos ≤ maxSeek) : seek maxSeek (pos : ℤ) = .ok pos := by
  have hnonneg : ¬ (pos : ℤ) < 0 := by omega
  have hle : ¬ (maxSeek : ℤ) < (pos : ℤ) := by omega
  rw [seek, if_neg hnonneg, if_neg hle, Int.toNat_natCast]

theorem seek_of_neg {pos : ℤ} (h : pos < 0) : seek maxSeek pos = .error .osError := by
  rw [seek, if_pos h]

theorem seek_of_lt {pos : ℤ} (h : (maxSeek : ℤ) < pos) : seek maxSeek pos = .error .osError := by
  have hnonneg : ¬ pos < 0 := by omega
  rw [seek, if_neg hnonneg, if_pos h]

theorem streamNewlines_of_le {start : ℤ} {stop : Option ℤ} (maxSeek : Nat) (file : Artifact)
    (h : stop.any (· ≤ start) = true) : streamNewlines maxSeek file start stop = .ok 0 := by
  simp only [streamNewlines, h, if_true]

@[simp] theorem streamNewlines_missing (maxSeek : Nat) (start : ℤ) (stop : Option ℤ) :
    streamNewlines maxSeek .missing start stop = .ok 0 := by
  simp only [streamNewlines, ite_self]

theorem streamNewlines_of_seek_error {content : Bytes} {start : ℤ}
    {stop : Option ℤ} {fault : Fault} (hstop : stop.any (· ≤ start) = false)
    (hseek : seek maxSeek start = .error fault) :
    streamNewlines maxSeek (.bytes content) start stop = .error fault := by
  simp only [streamNewlines, hstop, hseek, Bool.false_eq_true, if_false, error_bind]

/-- The chunked count counts the newlines of the range. -/
theorem streamNewlines_bytes (h : pos ≤ maxSeek) (content : Bytes)
    (stop : Option ℤ) (hstop : stop.any (· ≤ (pos : ℤ)) = false) :
    streamNewlines maxSeek (.bytes content) pos stop
      = .ok ((within (stop.map fun (stop : ℤ) => (stop - pos).toNat) (content.drop pos)).count
          newline) := by
  have hfuel : (content.drop pos).length < content.length + 1 := by
    rw [List.length_drop]
    omega
  simp only [streamNewlines, hstop, seek_natCast h, Bool.false_eq_true, if_false, ok_bind]
  rw [countChunks_eq newline scanChunkBytes_pos hfuel]
  rfl

theorem streamNewlines_to_completeEnd (h : pos ≤ maxSeek) (content : Bytes) :
    streamNewlines maxSeek (.bytes content) pos
        (some ((completeEnd newline 0 [] content : Nat) : ℤ))
      = .ok ((content.drop pos).count newline) := by
  have hcount := count_to_completeEnd newline content pos
  rw [List.drop_take] at hcount
  rw [← hcount]
  by_cases hle : completeEnd newline 0 [] content ≤ pos
  · have hany : (some ((completeEnd newline 0 [] content : Nat) : ℤ)).any (· ≤ (pos : ℤ))
        = true := by simpa using hle
    rw [streamNewlines_of_le _ _ hany, Nat.sub_eq_zero_of_le hle, List.take_zero]
    rfl
  · have hany : (some ((completeEnd newline 0 [] content : Nat) : ℤ)).any (· ≤ (pos : ℤ))
        = false := by simpa using Nat.lt_of_not_le hle
    rw [streamNewlines_bytes h content _ hany]
    congr 3
    simp only [Option.map_some, within]
    congr 1
    omega

end ContextIntelligence.Queue
