import ContextIntelligence.Lib.Coroutine
import ContextIntelligence.Queue.Spool

/-!
# The drain worker

`SessionRegistry.drain_worker` as a coroutine over the spool files of its key, the graph buffer of
its store and the flags the registry keeps for it; every `await` of the source is an await here. For
the specification only, `written` holds the records of buffers whose flush returned, `quarantined`
those dead-lettered completely. Records carry the number of their log, since positions start again
at 0 in a new one.
-/

namespace ContextIntelligence.Drain

open Lib.Coroutine Queue

/-! ## Exceptions and configuration -/

/-- What an awaited operation can fail with: an exception `_is_transient_infra_error`
allow-lists, any other `Exception`, or `asyncio.CancelledError`. -/
inductive Fault where
  | infra
  | poison
  | cancelled
  deriving DecidableEq, Repr

/-- The exceptions the drain worker tells apart: the faults of its operations, and the two it
raises itself. -/
inductive Exn where
  | infra
  | poison
  | cancelled
  | queueCommitFailure (cause : Exn)
  | transientInfraFailure
  deriving DecidableEq, Repr

def Fault.exn : Fault → Exn
  | .infra => .infra
  | .poison => .poison
  | .cancelled => .cancelled

/-- `_is_transient_infra_error`. -/
def isTransientInfraError : Exn → Bool
  | .infra => true
  | _ => false

/-- `pipeline.TERMINAL_EVENTS`. -/
def terminalEvents : List String := ["session:end"]

/-- What the registry and its worker are set up with. `parseLine` is the event name that
`_parse_line` reads off a line, `none` when it raises; a hook or lock is `true` when it is
installed. -/
structure Config where
  parseLine : Bytes → Option String
  drainBatchSize : Nat
  maxDeliveryAttempts : Nat
  isRecovery : Bool
  preFlush : Bool
  recoveryWriteGuard : Bool
  beforeRecoveryFlush : Bool
  onBatchFlushed : Bool
  onBatchWritten : Bool
  onRecordQuarantined : Bool
  quarantineRetryLock : Bool

/-- The registry that serves live ingest: no recovery hook is installed. -/
def Config.live (parseLine : Bytes → Option String) (drainBatchSize maxDeliveryAttempts : Nat) :
    Config :=
  ⟨parseLine, drainBatchSize, maxDeliveryAttempts, false, false, false, false, false, false,
    false, false⟩

variable (cfg : Config)

def Config.isTerminal (rec : Record) : Bool :=
  match cfg.parseLine rec.raw with
  | some event => terminalEvents.contains event
  | none => false

/-! ## The world of one worker key -/

/-- A record together with the number of the log it was read from. -/
abbrev Tagged := Nat × Record

/-- The files of the key, the worker's graph buffer and flags, and the POST calls that have
looked the worker up and have not appended yet. -/
structure World where
  spool : Spool
  logNumber : Nat
  buffer : List Tagged
  written : List Tagged
  quarantined : List Tagged
  hasEvents : Bool
  storeClosed : Bool
  registered : Bool
  posts : Nat
  deriving DecidableEq, Repr

/-- What other tasks do while the worker awaits: a POST looks the worker up, or bytes reach the
log. -/
inductive Stimulus where
  | post
  | append (bytes : Bytes)
  deriving DecidableEq, Repr

structure Reading where
  deadlinePassed : Bool
  idleTooLong : Bool
  deriving DecidableEq, Repr

inductive Op where
  | readBatch
  | waitForChange
  | dispatch (rec : Record)
  | preFlush
  | recoveryWriteGuard
  | beforeRecoveryFlush
  | acquire
  | flush
  | onBatchFlushed
  | commit
  | onBatchWritten
  | deadLetter (rec : Record)
  | quarantineRetryLock
  | onRecordQuarantined
  | settle
  | deleteDrained
  | sleep
  | close
  deriving DecidableEq, Repr

abbrev DrainTurn := Turn Op Stimulus Reading Fault

abbrev DrainM (α : Type) := Co World DrainTurn Exn α

namespace World

def stim : Stimulus → World → World
  | .post, w => { w with posts := w.posts + 1 }
  | .append bytes, w => { w with spool := w.spool.writeLog bytes, posts := w.posts - 1 }

def dispatched (rec : Record) (w : World) : World :=
  { w with buffer := w.buffer ++ [(w.logNumber, rec)], hasEvents := true }

def flushed (w : World) : World := { w with written := w.written ++ w.buffer, buffer := [] }

/-- `discard_buffer`. -/
def discardBuffer (w : World) : World := { w with buffer := [] }

def committed (newOffset : Nat) (w : World) : World :=
  { w with spool := w.spool.commit newOffset }

def deadLettered (rec : Record) (w : World) : World :=
  { w with
    spool := w.spool.deadLetter rec.raw
    quarantined := w.quarantined ++ [(w.logNumber, rec)] }

/-- The spool after a deletion; a log created later has the next number. -/
def withSpool (spool : Spool) (w : World) : World :=
  { w with
    spool := spool
    logNumber := if w.spool.log ≠ none ∧ spool.log = none then w.logNumber + 1
      else w.logNumber }

end World

/-! ## Awaited operations -/

def Action.still {σ ρ α : Type} (value : ρ → σ → α) : Action σ ρ α :=
  ⟨fun r s => (value r s, s), fun _ _ s => s⟩

def Action.atomic {σ ρ : Type} (effect : σ → σ) : Action σ ρ Unit :=
  ⟨fun _ s => ((), effect s), fun _ done s => if done = 0 then s else effect s⟩

def Action.onReturn {σ ρ : Type} (effect : σ → σ) : Action σ ρ Unit :=
  ⟨fun _ s => ((), effect s), fun _ _ s => s⟩

def op {α : Type} (o : Op) (act : Action World Reading α) : DrainM α :=
  await World.stim Fault.exn o act

/-- Await an operation outside the world, such as a hook, a lock or a timer. -/
def outside (o : Op) : DrainM Unit := op o (Action.still fun _ _ => ())

def hook (installed : Bool) (o : Op) : DrainM Unit := if installed then outside o else pure ()

def readBatch (cfg : Config) : DrainM Spool.Batch :=
  op .readBatch (Action.still fun _ w => w.spool.readBatch cfg.drainBatchSize)

def waitForChange : DrainM Reading := op .waitForChange (Action.still fun r _ => r)

/-- `_process_one`: run the handlers of one record. -/
def processOne (rec : Record) : DrainM Unit :=
  op (.dispatch rec) (Action.onReturn (World.dispatched rec))

def commit (newOffset : Nat) : DrainM Unit := op .commit (Action.atomic (World.committed newOffset))

/-- `dead_letter`: a failed write may leave part of the line, a cancelled one all of it. -/
def deadLetter (rec : Record) : DrainM Unit :=
  op (.deadLetter rec)
    ⟨fun _ w => ((), w.deadLettered rec), fun _ done w =>
      if done < 3 then { w with spool := w.spool.deadLetterPartial done }
      else w.deadLettered rec⟩

def deleteDrained : DrainM Bool :=
  op .deleteDrained
    ⟨fun _ w => (w.spool.deleteDrained.1, w.withSpool w.spool.deleteDrained.2),
      fun _ done w => w.withSpool (w.spool.deleteDrainedPartial done)⟩

def discardBuffer : DrainM Unit := Co.modify World.discardBuffer

/-- `_deregister`. -/
def deregister : DrainM Unit := Co.modify fun w => { w with registered := false }

/-- The fate of an operation whose caller is cancelled while cancellation is held back. -/
def holdCancelled : Fate Fault → Fate Fault
  | .raise .cancelled _ => .ok
  | other => other

/-- `_await_uninterrupted`: cancellation is held back until the awaited work has settled. -/
def awaitUninterrupted (m : DrainM Unit) : DrainM Unit := do
  Co.masked (fun t => ⟨t.env, t.reading, fun o => holdCancelled (t.fate o)⟩) m
  outside .settle

/-! ## Flush, commit and quarantine -/

/-- `_flush_barrier`: a write slot, then the awaited flush. -/
def flushBarrier : DrainM Unit := do
  outside .acquire
  op .flush (Action.onReturn World.flushed)

/-- `_recovery_write_guard`: entering the optional pause guard. -/
def recoveryWriteGuard (cfg : Config) : DrainM Unit :=
  hook (cfg.isRecovery && cfg.recoveryWriteGuard) .recoveryWriteGuard

/-- `_flush_and_commit`: flush first, then acknowledge. A failed acknowledgement is told apart
from a failed flush. -/
def flushAndCommit (records : List Record) (commitTo : Nat) : DrainM Unit := do
  hook (cfg.isRecovery && cfg.preFlush) .preFlush
  recoveryWriteGuard cfg
  hook (cfg.isRecovery && cfg.beforeRecoveryFlush) .beforeRecoveryFlush
  flushBarrier
  hook (cfg.onBatchFlushed && !records.isEmpty) .onBatchFlushed
  Co.tryCatch (commit commitTo) fun e =>
    match e with
    | .cancelled => Co.raise .cancelled
    | e => Co.raise (.queueCommitFailure e)

/-- `_publish_quarantine_then_ack`: receipt first, then the offset. -/
def publishQuarantineThenAck (rec : Record) : DrainM Unit := do
  hook cfg.onRecordQuarantined .onRecordQuarantined
  commit rec.stop

/-- `_quarantine_and_commit`. -/
def quarantineAndCommit (rec : Record) : DrainM Unit := do
  recoveryWriteGuard cfg
  if cfg.quarantineRetryLock then
    outside .quarantineRetryLock
    awaitUninterrupted (publishQuarantineThenAck cfg rec)
  else publishQuarantineThenAck cfg rec

/-- `_post_commit`: best effort, only cancellation passes. -/
def postCommit (records : List Record) : DrainM Unit :=
  Co.tryCatch (hook (cfg.onBatchWritten && !records.isEmpty) .onBatchWritten) fun e =>
    match e with
    | .cancelled => Co.raise .cancelled
    | _ => pure ()

/-- A recovery worker drops what it has not flushed before it closes its store. -/
def discardForRecovery : DrainM Unit :=
  if cfg.isRecovery then discardBuffer else pure ()

/-- `_safe_close`: mark the store closed, then close it; `close` flushes what is buffered and
swallows a failure of that flush. -/
def safeClose : DrainM Unit := do
  Co.modify fun w => { w with storeClosed := true }
  discardForRecovery cfg
  Co.tryCatch (op .close (Action.onReturn World.flushed)) fun e =>
    match e with
    | .cancelled => Co.raise .cancelled
    | _ => pure ()

/-! ## Batches -/

/-- The loop of `_process_batch`: dispatch every record and remember the start of the first
terminal one and how many records precede it. -/
def processRecords (cfg : Config) : List Record → Nat → Option Nat → DrainM (Nat × Option Nat)
  | [], safeCount, terminalAt => pure (safeCount, terminalAt)
  | rec :: rest, safeCount, terminalAt =>
    match cfg.parseLine rec.raw with
    | none => Co.raise .poison
    | some event => do
        processOne rec
        match terminalAt with
        | some at_ => processRecords cfg rest safeCount (some at_)
        | none =>
          if terminalEvents.contains event then
            processRecords cfg rest safeCount (some rec.start)
          else processRecords cfg rest (safeCount + 1) none

/-- `_process_batch`. -/
def processBatch (batch : Spool.Batch) : DrainM (Nat × Option Nat) :=
  processRecords cfg batch.records 0 none

/-- Dispatch, write and commit one isolated record, or dead-letter it: whether it was written.
An infrastructure failure leaves the record alone and ends the isolation. -/
def isolateOne (rec : Record) : DrainM Bool :=
  Co.tryCatch
    (do
      processOne rec
      flushAndCommit cfg [rec] rec.stop
      pure true)
    fun e =>
      match e with
      | .queueCommitFailure cause => Co.raise cause
      | .cancelled => Co.raise .cancelled
      | e =>
        if isTransientInfraError e then do
          discardBuffer
          Co.raise .transientInfraFailure
        else do
          deadLetter rec
          discardBuffer
          pure false

/-- What follows for an isolated record: it is committed already when it was written, and it is
committed past when it was dead-lettered. -/
def settleOne (rec : Record) (wrote : Bool) : DrainM Unit :=
  if wrote then postCommit cfg [rec] else quarantineAndCommit cfg rec

/-- The loop of `_handle_exhausted_batch` after the buffer was discarded: one record at a time,
each written and committed on its own or dead-lettered. It stops at a terminal record. -/
def isolateRecords (cfg : Config) : List Record → DrainM Bool
  | [] => pure false
  | rec :: rest =>
    match cfg.parseLine rec.raw with
    | none => do
        deadLetter rec
        discardBuffer
        quarantineAndCommit cfg rec
        isolateRecords cfg rest
    | some event =>
      if terminalEvents.contains event then pure true
      else do
        let wrote ← isolateOne cfg rec
        settleOne cfg rec wrote
        isolateRecords cfg rest

/-- `_handle_exhausted_batch`: whether a terminal record was met. -/
def handleExhaustedBatch (batch : Spool.Batch) : DrainM Bool := do
  discardBuffer
  isolateRecords cfg batch.records

/-! ## Finalization -/

/-- Dispatch, write and commit one batch of the tail: whether that succeeded. -/
def drainTail (tail : Spool.Batch) : DrainM Bool :=
  Co.tryCatch
    (do
      let _ ← processBatch cfg tail
      flushAndCommit cfg tail.records tail.endOffset
      pure true)
    fun e =>
      match e with
      | .queueCommitFailure cause => Co.raise cause
      | .cancelled => Co.raise .cancelled
      | _ => pure false

/-- One round of `_drain_to_eof`. -/
def drainToEofRound : DrainM (Unit ⊕ Bool) := do
  let tail ← readBatch cfg
  if tail.records.isEmpty then pure (.inr true)
  else if ← drainTail cfg tail then do
    postCommit cfg tail.records
    pure (.inl ())
  else pure (.inr false)

/-- `_drain_to_eof`: whether the log was drained to its end. -/
def drainToEof : DrainM Bool := Co.loop (fun _ => drainToEofRound cfg) ()

/-- How `drain_worker` returns. -/
inductive Exit where
  | finalized
  | orphaned
  | reaped
  | cancelled
  deriving DecidableEq, Repr

/-- `_FINALIZE_DELETE_ATTEMPTS`. -/
def finalizeDeleteAttempts : Nat := 3

/-- The bounded delete loop of `_finalize_session` with the attempts that are left: `false` when
a late tail could not be drained. -/
def finalizeDelete (cfg : Config) : Nat → DrainM Bool
  | 0 => pure true
  | left + 1 => do
      if ← deleteDrained then pure true
      else if left = 0 then pure true
      else if ← drainToEof cfg then finalizeDelete cfg left
      else pure false

/-- `_finalize_session`. -/
def finalizeSession : DrainM Exit := do
  if ← drainToEof cfg then
    if ← finalizeDelete cfg finalizeDeleteAttempts then do
      safeClose cfg
      deregister
      pure .finalized
    else pure .orphaned
  else pure .orphaned

/-! ## The drain loop -/

/-- The two retry budgets of `drain_worker`. -/
structure Budget where
  attempts : Nat
  transientAttempts : Nat
  deriving DecidableEq, Repr

/-- The delay before a transient retry, in seconds; `none` when Python cannot turn the integer
power into a float and raises `OverflowError`. -/
def transientBackoff (transientAttempts : Nat) : Option Rat :=
  if 1024 ≤ transientAttempts - 1 then none
  else some (min ((1 : Rat) / 20 * 2 ^ (transientAttempts - 1)) 30)

def transientRetry (budget : Budget) : DrainM (Budget ⊕ Exit) :=
  match transientBackoff budget.transientAttempts with
  | none => Co.raise .poison
  | some _ => do
      outside .sleep
      pure (.inl budget)

/-- Close and deregister a worker that leaves without finalizing. -/
def closeAndLeave (exit : Exit) : DrainM (Budget ⊕ Exit) := do
  safeClose cfg
  deregister
  pure (.inr exit)

/-- The idle branch of `drain_worker`: reap a stale session or trim the drained log. -/
def idle (budget : Budget) : DrainM (Budget ⊕ Exit) := do
  let reading ← waitForChange
  if reading.deadlinePassed then do
    let w ← Co.get
    if w.hasEvents && reading.idleTooLong then closeAndLeave cfg .reaped
    else do
      let _ ← deleteDrained
      pure (.inl budget)
  else pure (.inl budget)

def batchCommitted (budget : Budget) (records : List Record)
    (terminalAt : Option Nat) : DrainM (Budget ⊕ Exit) := do
  postCommit cfg records
  match terminalAt with
  | none => pure (.inl { budget with attempts := 0 })
  | some _ => do
      let exit ← finalizeSession cfg
      pure (.inr exit)

/-- Isolate a batch: whether a terminal record was met, `none` when the infrastructure failed
part way. -/
def isolateBatch (batch : Spool.Batch) : DrainM (Option Bool) :=
  Co.tryCatch
    (do
      let terminalSeen ← handleExhaustedBatch cfg batch
      pure (some terminalSeen))
    fun e =>
      match e with
      | .transientInfraFailure => pure none
      | e => Co.raise e

/-- A batch failed with an exception that is neither a cancellation nor a failed commit. -/
def batchFailed (budget : Budget) (batch : Spool.Batch) (e : Exn) : DrainM (Budget ⊕ Exit) :=
  if isTransientInfraError e then
    transientRetry { budget with transientAttempts := budget.transientAttempts + 1 }
  else if cfg.maxDeliveryAttempts ≤ budget.attempts + 1 then do
    match ← isolateBatch cfg batch with
    | none => transientRetry ⟨0, 1⟩
    | some true => do
        let exit ← finalizeSession cfg
        pure (.inr exit)
    | some false => pure (.inl ⟨0, 0⟩)
  else do
    outside .sleep
    pure (.inl ⟨budget.attempts + 1, 0⟩)

/-- The records a batch acknowledges: all of them, or those before the first terminal one. -/
def committedRecords (batch : Spool.Batch) (safeCount : Nat) : Option Nat → List Record
  | none => batch.records
  | some _ => batch.records.take safeCount

def commitTo (batch : Spool.Batch) : Option Nat → Nat
  | none => batch.endOffset
  | some terminalAt => terminalAt

/-- The dispatch and durable write barrier of `drain_worker`: the tally of the batch, or the
exception it failed with. -/
def writeBatch (batch : Spool.Batch) : DrainM (Except Exn (Nat × Option Nat)) :=
  Co.tryCatch
    (do
      let counted ← processBatch cfg batch
      flushAndCommit cfg (committedRecords batch counted.1 counted.2) (commitTo batch counted.2)
      pure (.ok counted))
    fun e => pure (.error e)

/-- What `drain_worker` does with a batch that is not empty: write it, then take the one error
path or go on. -/
def drainBatch (budget : Budget) (batch : Spool.Batch) : DrainM (Budget ⊕ Exit) := do
  match ← writeBatch cfg batch with
  | .ok counted =>
    batchCommitted cfg budget (committedRecords batch counted.1 counted.2) counted.2
  | .error (.queueCommitFailure cause) => Co.raise cause
  | .error .cancelled => closeAndLeave cfg .cancelled
  | .error e => batchFailed cfg budget batch e

/-- One round of the loop of `drain_worker`. -/
def drainRound (budget : Budget) : DrainM (Budget ⊕ Exit) :=
  Co.tryCatch
    (do
      let batch ← readBatch cfg
      if batch.records.isEmpty then idle cfg budget else drainBatch cfg budget batch)
    fun e =>
      match e with
      | .cancelled => closeAndLeave cfg .cancelled
      | e => Co.raise e

/-- `drain_worker`. -/
def drainWorker : DrainM Exit := Co.loop (drainRound cfg) ⟨0, 0⟩

/-! ## Supervision and respawn -/

/-- A drain task: `drain_worker` under `_on_drain_done`, which deregisters and closes a worker
that died of an exception and leaves a cancelled one alone. -/
def drainTask : DrainM Exit :=
  Co.tryCatch (drainWorker cfg) fun e =>
    match e with
    | .cancelled => Co.raise .cancelled
    | e => do
        deregister
        safeClose cfg
        Co.raise e

namespace World

/-- A new `SessionWorker` with a new store, registered. -/
def spawn (w : World) : World :=
  { w with buffer := [], hasEvents := false, storeClosed := false, registered := true }

/-- The process starts again: only the files are left of the worker and of its callers. -/
def reboot (w : World) : World := { w.spawn with registered := false, posts := 0 }

/-- `get_or_create` when no drain task is live: a deregistered worker is built anew, a
registered one is drained again unless its store is closed. -/
def startDrain (w : World) : Option World :=
  if w.registered then if w.storeClosed then none else some w else some w.spawn

end World

/-- One drain task of a key, with what reached the key before it and whether the process was
restarted first. -/
structure Life where
  restart : Bool
  arrivals : List Stimulus
  turns : List DrainTurn

/-- Run one drain task. A process that died must be restarted before the next. -/
def runLife (life : Life) (before : Bool × World) : Bool × World :=
  let w := if life.restart || before.1 then before.2.reboot else before.2
  let w := life.arrivals.foldl (fun w i => World.stim i w) w
  match w.startDrain with
  | none => (false, w)
  | some w =>
    let r := drainTask cfg w life.turns
    (decide (r.1 = .dead), r.2.1)

def runLives (lives : List Life) (w : World) : World :=
  (lives.foldl (fun before life => runLife cfg life before) (false, w)).2

end ContextIntelligence.Drain
