import ContextIntelligence.Lib.Mutex
import ContextIntelligence.Queue.Spool
import ContextIntelligence.Recovery.Ledger

/-!
# The recovery outbox

A receipt is admitted, its record appended to the recovery spool, dispatched and flushed, and the
receipt marked written; each is durable on its own, and the process may die in between. A pass over
the outbox compares ledger, spool, dead letters and audits and brings the receipts on. What a holder
of the quarantine/retry lock awaits is a `Phase`; the pause condition, held from the check of the
receipts to the commit, is the `Guard`; all else is an event of the surroundings. A `Codec` says how
the record of an origin is written and read. Any leading part of a batch is flushed, and any of that
acknowledged.
-/

namespace ContextIntelligence.Recovery

open Lib Lib.Lines Lib.Mutex ContextIntelligence.Graph Queue

namespace Outbox

/-! ## Origins and records -/

structure Origin where
  sourceHandle : String
  ordinal : ℤ
  sourceLineSha256 : String
  deriving DecidableEq, Repr

def Origin.key (o : Origin) : ReceiptKey := (o.sourceHandle, o.ordinal)

/-- `_is_valid_recovery_origin`, for the shape that the server writes. -/
def Origin.valid (o : Origin) : Bool :=
  isSha256Hex o.sourceHandle && isSha256Hex o.sourceLineSha256
    && decide (0 ≤ o.ordinal ∧ o.ordinal < 2 ^ 63)

def originOf (key : ReceiptKey) (r : Receipt) : Origin := ⟨key.1, key.2, r.sourceLineSha256⟩

/-- What a reader makes of a line: bytes that are no text, a text that is no envelope, an envelope
whose origin is not one, an envelope without origin, or a recovered record. -/
inductive Envelope where
  | binary
  | garbled
  | malformed
  | plain
  | recovered (origin : Origin)
  deriving DecidableEq, Repr

/-- How the server writes the record of a receipt, reads a line and names the files of a session. A
record is one line, it is read back with its origin, and no proper part from its start is an
envelope. -/
structure Codec where
  line : Origin → String → Json → Bytes
  decode : Bytes → Envelope
  foldWorkerKey : String → String
  newline_not_mem : ∀ o actor payload, o.valid = true → newline ∉ line o actor payload
  decode_line : ∀ o actor payload, o.valid = true → decode (line o actor payload) = .recovered o
  decode_cut : ∀ o actor payload written, o.valid = true → written <+: line o actor payload →
    written ≠ line o actor payload → decode written = .garbled

/-- `payload["data"]["session_id"]`; `none` where it raises. -/
def sessionOf : Json → Option String
  | .obj payload =>
    match Payload.get payload "data" with
    | some (.obj data) => Payload.str data "session_id"
    | _ => none
  | _ => none

structure Row where
  origin : Origin
  actor : String
  payload : Json
  state : ReceiptState

/-- `_pending_outbox_row`. -/
def rowOf (key : ReceiptKey) (r : Receipt) : Option Row :=
  match r.payload with
  | some (.obj payload) => some ⟨originOf key r, r.actor, .obj payload, r.state⟩
  | _ => none

/-- `pending_outbox`. -/
def pendingOutbox (t : Tables) : List Row :=
  t.receipts.entries.filterMap fun entry =>
    if entry.2.state.pending && (t.sources.get entry.1.1).isSome then rowOf entry.1 entry.2
    else none

/-- `pending_receipt`. -/
def pendingReceipt (t : Tables) (key : ReceiptKey) : Option Row :=
  (t.receipts.get key).bind fun r => if r.state.pending then rowOf key r else none

def retryRow (env : Surroundings) (key : ReceiptKey) (r : Receipt) : Option Row :=
  if r.state = .quarantined then
    r.payload.bind fun stored =>
      let (payload, invalid) := sanitizeStoredPayload env stored
      if invalid then none else some ⟨originOf key r, r.actor, payload, r.state⟩
  else none

/-- `next_quarantined`: the oldest one. -/
def nextQuarantined (env : Surroundings) (t : Tables) : Option Row :=
  (t.receipts.entries.filterMap fun entry => retryRow env entry.1 entry.2).head?

/-- `is_flushable`. -/
def isFlushable (t : Tables) (key : ReceiptKey) : Bool :=
  (t.receipts.get key).any fun r => r.state.pending || r.state = .written

/-! ## The state -/

/-- A worker between two of its steps: without a batch; with the rest of a batch that was read when
`start` was committed; or with a first record that it has dead-lettered. -/
inductive Worker where
  | idle
  | holding (start : ℕ) (records : List Record)
  | condemned (start : ℕ) (record : Record) (rest : List Record)
  deriving DecidableEq, Repr

/-- How far a flush has come: the queue state of the next record is read, then its receipt; after
the flush the receipts of the acknowledged records are marked. -/
inductive Stage where
  | checking (checked todo : List Record)
  | receipt (checked : List Record) (record : Record) (todo : List Record)
  | marking (marked todo : List Record)
  deriving DecidableEq, Repr

/-- A flush of the first records of a worker's batch, of which the first `count` are acknowledged.
-/
structure Section where
  key : String
  dispatched : List Record
  count : ℕ
  stage : Stage
  deriving DecidableEq, Repr

/-- Who holds the pause condition. An operator and an acknowledgement first wait with it for the
lock. -/
inductive Guard where
  | free
  | flush (sec : Section)
  | operator (entered : Bool)
  | poison (key : String) (entered : Bool)
  deriving DecidableEq, Repr

/-- The recovery side of the server. `writing` is the key whose log is being written, `inflight` the
marks whose caller was cancelled, `reconciled` says that a pass has returned since the start, and
`flushed`, which nothing reads, are the origins of the records dispatched into a flush that
returned. -/
structure State where
  permitRequired : Bool
  ledger : Ledger
  queue : Dict String Spool
  audits : Dict String DeadFile
  workers : String → Worker
  guard : Guard
  paused : Bool
  writing : Option String
  inflight : List Origin
  reconciled : Bool
  flushed : List Origin

namespace State

def boot (permitRequired : Bool) : State where
  permitRequired := permitRequired
  ledger := ⟨false, Tables.empty⟩
  queue := Dict.empty
  audits := Dict.empty
  workers := fun _ => .idle
  guard := .free
  paused := false
  writing := none
  inflight := []
  reconciled := false
  flushed := []

def spool (s : State) (key : String) : Spool := (s.queue.get key).getD Spool.empty

def modifySpool (s : State) (key : String) (f : Spool → Spool) : State :=
  { s with queue := s.queue.set key (f (s.spool key)) }

def receipt (s : State) (key : ReceiptKey) : Option Receipt := s.ledger.tables.receipts.get key

def setWorker (s : State) (key : String) (w : Worker) : State :=
  { s with workers := Function.update s.workers key w }

def opened (env : Surroundings) (failure : Option Failure) (s : State) : Bool × State :=
  let result := initializeLocked env failure s.ledger
  (result.2, { s with ledger := result.1 })

def call {env : Surroundings} (op : Operation env) (failure : Option Failure) (s : State) :
    Outcome × State :=
  let result := attempt env s.ledger (.call op (failure.filter fun f => f ≠ .cancelled))
  (result.1, { s with ledger := result.2 })

end State

/-! ## What the files say about an origin -/

/-- The lines of a file as a loop over it meets them, with the position after each; an unterminated
rest comes last. -/
def streamed (bytes : Bytes) : List (Bytes × ℕ) :=
  (records newline bytes).map (fun r => (r.raw, r.stop))
    ++ if torn newline [] bytes = [] then [] else [(torn newline [] bytes, bytes.length)]

inductive QueueState where
  | queued
  | committed
  deriving DecidableEq, Repr

variable (c : Codec)

/-- The lines of a log that carry the origin: whether each lies above the committed offset. -/
def found (o : Origin) (sp : Spool) : List Bool :=
  ((streamed sp.content).filter fun line => c.decode line.1 = .recovered o).map
    fun line => decide (sp.committedOffset < line.2)

/-- `recovery_origin_commit_state`. -/
def commitState (s : State) (o : Origin) : Option QueueState :=
  let matched := s.queue.entries.flatMap fun entry => found c o entry.2
  if true ∈ matched then some .queued else if matched = [] then none else some .committed

/-- `_decode_dead_letter`; `none` where it raises. -/
def decodeDeadLetter : DeadLine → Option Envelope
  | .record payload =>
    match c.decode payload with
    | .garbled | .malformed => none
    | envelope => some envelope
  | .merged _ => none
  | .other _ => none

/-- The scan of `recovery_origin_is_dead`; `none` where it raises. -/
def findDead (o : Origin) : List DeadLine → Option Bool
  | [] => some false
  | line :: rest =>
    match decodeDeadLetter c line with
    | none => none
    | some envelope => if envelope = .recovered o then some true else findDead o rest

/-- The scan of `recovery_origin_has_retry_audit`, which raises on a line without an origin. -/
def findAudit (o : Origin) : List DeadLine → Option Bool
  | [] => some false
  | line :: rest =>
    match decodeDeadLetter c line with
    | some (.recovered o') => if o' = o then some true else findAudit o rest
    | _ => none

/-- `_evidence_files`: the files in the order of their names. -/
def evidenceFiles {ν : Type} (ending : String) (files : Dict String ν) : List (String × ν) :=
  files.entries.insertionSort fun a b => a.1 ++ ending ≤ b.1 ++ ending

def deadFiles (s : State) : List (String × Spool) := evidenceFiles ".dead.jsonl" s.queue

/-- `recovery_origin_is_dead`. -/
def isDead (s : State) (o : Origin) : Option Bool :=
  findDead c o ((deadFiles s).flatMap fun entry => entry.2.deadLines)

/-- `recovery_origin_has_retry_audit`. -/
def hasRetryAudit (s : State) (o : Origin) : Option Bool :=
  findAudit c o
    ((evidenceFiles ".recovery-retry-audit.jsonl" s.audits).flatMap fun entry => entry.2.lines)

/-- The dead letters that carry the origin, and the others; `none` where one cannot be read. -/
def selectDead (o : Origin) (lines : List DeadLine) : Option (List DeadLine × List DeadLine) :=
  if lines.all fun line => (decodeDeadLetter c line).isSome then
    some (lines.partition fun line => decodeDeadLetter c line = some (.recovered o))
  else none

/-- Whole lines written at the end of an audit; behind unterminated bytes the first is merged. -/
def extendAudit (file : Option DeadFile) : List DeadLine → Option DeadFile
  | [] => file
  | line :: rest =>
    match file, line with
    | some ⟨old, true⟩, .record payload => some ⟨old ++ .merged payload :: rest, false⟩
    | some ⟨old, _⟩, line => some ⟨old ++ line :: rest, false⟩
    | none, line => some ⟨line :: rest, false⟩

/-- What a failed write leaves behind whole lines: nothing, unterminated bytes, or those bytes made
a line of their own. -/
def leaveResidue (residue : ℕ) (file : Option DeadFile) : Option DeadFile :=
  let lines := (file.map DeadFile.lines).getD []
  match residue with
  | 0 => file
  | 1 => some ⟨lines, true⟩
  | _ => some ⟨lines ++ [.other false], false⟩

/-! ## Under the lock -/

variable {env : Surroundings}

/-- A record that the admission endpoint has parsed and let through to the admission. -/
structure Submission (env : Surroundings) where
  origin : Origin
  source : Descriptor
  actor : String
  workspace : String
  request : AcceptedRequest env
  lease : Option String
  valid : origin.valid = true

namespace Submission

def operation (sub : Submission env) (permitRequired : Bool) : Operation env :=
  .admitSource sub.origin.sourceHandle sub.source sub.origin.ordinal sub.origin.sourceLineSha256
    sub.actor sub.workspace sub.request (!permitRequired) sub.lease

def row (sub : Submission env) : Row :=
  ⟨sub.origin, sub.actor, sub.request.payload, .pendingEnqueue⟩

end Submission

inductive Request (env : Surroundings) where
  | admission (submission : Submission env)
  | reconcile
  | retry
  | quarantine (key : ReceiptKey)
  | acknowledge (key : String)

/-- A pass over the outbox: whether retries are bridged, which retries were seen with their evidence
and which of them have an audit, and the rows that are left. -/
structure Pass where
  bridge : Bool
  captured : List Origin
  audited : List Origin
  rows : List Row

/-- What a task inside the lock awaits; a refused one came without the pause condition. Where a pass
is optional, none means that an admission is under way. -/
inductive Phase (env : Surroundings) where
  | refused
  -- `_admit_native_recovery_unlocked`
  | admission (submission : Submission env)
  | admissionClaim (submission : Submission env) (fresh : Bool)
  -- `_enqueue_native_recovery_receipt`
  | enqueue (row : Row) (pass : Option Pass)
  | append (row : Row) (key : String) (written rest : Bytes) (pass : Option Pass)
  -- `_reconcile_native_recovery_outbox_under_quarantine_lock`
  | snapshot
  | evidence (todo : List Row) (captured audited : List Origin)
  | available (captured audited : List Origin)
  -- `_reconcile_native_recovery_outbox_unlocked`
  | outbox (pass : Pass)
  | claim (row : Row) (pass : Pass)
  | dead (row : Row) (pass : Pass)
  | scanEnqueued (row : Row) (pass : Pass)
  | scan (row : Row) (pass : Pass)
  | mark (row : Row) (state : ReceiptState) (pass : Option Pass)
  -- `_retry_quarantined_native_recovery_under_quarantine_lock`
  | selectQuarantined
  | fence (row : Row)
  | validate (row : Row)
  | archive (row : Row) (todo : List String)
  | requeue (row : Row)
  -- `_quarantine_selected_receipt_locked`
  | select (key : ReceiptKey)
  | inspect (row : Row)
  | audit (row : Row)
  | readHead (row : Row)
  | deadLetter (row : Row) (key : String) (raw : Bytes) (head : Option Record)
  | quarantine (row : Row) (key : String) (head : Option Record)
  | commitHead (key : String) (head : Record)
  -- `_publish_quarantine_then_ack`
  | publish (key : String) (record : Record)
  | acknowledge (key : String) (record : Record)

/-- What the awaited operation answers, as far as the state does not decide it: that it raises; how
a call on the ledger fails; whether a claim is finalized, or the live queue drained and recovery not
paused; how much of a write was done; whether a commit that raises has taken place. -/
structure Answer where
  raises : Bool
  failure : Option Failure
  granted : Bool
  written : ℕ
  terminated : Bool
  residue : ℕ
  applied : Bool

def Answer.plain : Answer := ⟨false, none, true, 0, false, 0, true⟩

abbrev Step (env : Surroundings) := Option (Phase env) × State

def Pass.proceed (pass : Pass) (s : State) : Step env :=
  match pass.rows with
  | [] => (none, { s with reconciled := true })
  | row :: rest => (some (.claim row { pass with rows := rest }), s)

def proceedWith (pass : Option Pass) (s : State) : Step env :=
  match pass with
  | none => (none, s)
  | some pass => pass.proceed s

def release (s : State) : Step env := (none, { s with guard := .free })

def admissionStep (sub : Submission env) (answer : Answer) (s : State) : Step env :=
  let result := s.call (sub.operation s.permitRequired) answer.failure
  if result.1 = .admitted .accepted then (some (.admissionClaim sub true), result.2)
  else if result.1 = .admitted .duplicate then (some (.admissionClaim sub false), result.2)
  else (none, result.2)

def admissionClaimStep (sub : Submission env) (fresh : Bool) (answer : Answer) (s : State) :
    Step env :=
  if answer.raises ∨ answer.granted = false then (none, s)
  else if fresh then (some (.enqueue sub.row none), s)
  else (some (.outbox ⟨false, [], [], []⟩), s)

/-- The claim is finalized, then the record is written under the folded key of its session. -/
def enqueueStep (row : Row) (pass : Option Pass) (answer : Answer) (s : State) : Step env :=
  if answer.raises then (none, s)
  else if answer.granted = false then proceedWith pass s
  else
    match sessionOf row.payload with
    | none => (none, s)
    | some session =>
      let raw := c.line row.origin row.actor (sanitizeRecoveryPayload row.payload)
      (some (.append row (c.foldWorkerKey session) [] (Spool.frame raw) pass), s)

/-- One `os.write` of an append. When it fails `_discard_partial` tries to end the line. -/
def appendStep (row : Row) (key : String) (written rest : Bytes) (pass : Option Pass)
    (answer : Answer) (s : State) : Step env :=
  if answer.raises ∨ answer.written = 0 then
    let s' := if answer.terminated then s.modifySpool key (Spool.writeLog [newline]) else s
    (none, { s' with writing := none })
  else
    let s' := s.modifySpool key (Spool.writeLog (rest.take answer.written))
    let left := rest.drop answer.written
    if left = [] then (some (.mark row .enqueued pass), { s' with writing := none })
    else (some (.append row key (written ++ rest.take answer.written) left pass),
      { s' with writing := some key })

def snapshotStep (answer : Answer) (s : State) : Step env :=
  let result := s.opened env answer.failure
  if answer.raises ∨ result.1 = false then (none, result.2)
  else
    let retries := (pendingOutbox result.2.ledger.tables).filter fun row =>
      row.state = .retryPending
    (some (.evidence retries [] []), result.2)

def evidenceStep (todo : List Row) (captured audited : List Origin) (answer : Answer) (s : State) :
    Step env :=
  match todo with
  | [] =>
    if captured = [] then (some (.outbox ⟨false, captured, audited, []⟩), s)
    else (some (.available captured audited), s)
  | row :: todo =>
    if answer.raises then (none, s)
    else
      match hasRetryAudit c s row.origin with
      | none => (none, s)
      | some proved =>
        let audited := if proved then audited ++ [row.origin] else audited
        (some (.evidence todo (captured ++ [row.origin]) audited), s)

/-- Behind the permit gate a pass with retries runs only when the live queue is drained; without the
gate it runs and leaves the retries alone. -/
def availableStep (captured audited : List Origin) (answer : Answer) (s : State) : Step env :=
  if s.permitRequired ∧ answer.granted = false then (none, { s with reconciled := true })
  else (some (.outbox ⟨answer.granted, captured, audited, []⟩), s)

def outboxStep (pass : Pass) (answer : Answer) (s : State) : Step env :=
  let result := s.opened env answer.failure
  if answer.raises ∨ result.1 = false then (none, result.2)
  else Pass.proceed { pass with rows := pendingOutbox result.2.ledger.tables } result.2

def claimStep (row : Row) (pass : Pass) (answer : Answer) (s : State) : Step env :=
  if answer.raises then (none, s)
  else if answer.granted = false then pass.proceed s
  else (some (.dead row pass), s)

def deadStep (row : Row) (pass : Pass) (answer : Answer) (s : State) : Step env :=
  if answer.raises then (none, s)
  else
    match isDead c s row.origin with
    | none => (none, s)
    | some true => (some (.mark row .quarantined (some pass)), s)
    | some false =>
      if row.state = .committedPending then (some (.mark row .written (some pass)), s)
      else if row.state = .retryPending ∧ ¬ (pass.bridge ∧ row.origin ∈ pass.captured) then
        pass.proceed s
      else if row.state = .enqueued then (some (.scanEnqueued row pass), s)
      else (some (.scan row pass), s)

def scanEnqueuedStep (row : Row) (pass : Pass) (answer : Answer) (s : State) : Step env :=
  if answer.raises then (none, s)
  else
    match commitState c s row.origin with
    | some .committed => (some (.mark row .written (some pass)), s)
    | some .queued => pass.proceed s
    | none => (some (.mark row .pendingEnqueue (some pass)), s)

/-- The committed line of an audited retry is that of the delivery before it. -/
def scanStep (row : Row) (pass : Pass) (answer : Answer) (s : State) : Step env :=
  if answer.raises then (none, s)
  else
    match commitState c s row.origin with
    | some .committed =>
      if row.state = .retryPending then
        if row.origin ∈ pass.audited then (some (.enqueue row (some pass)), s) else (none, s)
      else (some (.mark row .written (some pass)), s)
    | some .queued => (some (.mark row .enqueued (some pass)), s)
    | none => (some (.enqueue row (some pass)), s)

/-- A receipt put back to `pending_enqueue` is looked up again; otherwise its row is done. -/
def markStep (row : Row) (state : ReceiptState) (pass : Option Pass) (answer : Answer) (s : State) :
    Step env :=
  let op : Operation env := .mark row.origin.sourceHandle row.origin.ordinal state
  let result := s.call op answer.failure
  if result.1 = .raised then (none, result.2)
  else
    match state, pass with
    | .pendingEnqueue, some pass => (some (.scan row pass), result.2)
    | _, pass => proceedWith pass result.2

def selectQuarantinedStep (answer : Answer) (s : State) : Step env :=
  let result := s.opened env answer.failure
  if answer.raises ∨ result.1 = false then (none, result.2)
  else
    match nextQuarantined env result.2.ledger.tables with
    | none => (none, result.2)
    | some row => (some (.fence row), result.2)

def fenceStep (row : Row) (answer : Answer) (s : State) : Step env :=
  if answer.raises ∨ commitState c s row.origin = some .queued then (none, s)
  else (some (.validate row), s)

/-- `_validate_all`. -/
def validateStep (row : Row) (answer : Answer) (s : State) : Step env :=
  let files := deadFiles s
  let readable := files.all fun entry => (selectDead c row.origin entry.2.deadLines).isSome
  if answer.raises ∨ readable = false then (none, s)
  else (some (.archive row ((files.filter fun entry => entry.2.dead.isSome).map Prod.fst)), s)

/-- `_archive` of one file: the selected lines go to its audit, then the file is replaced by the
rest. -/
def archiveStep (row : Row) (todo : List String) (answer : Answer) (s : State) : Step env :=
  match todo with
  | [] => (some (.requeue row), s)
  | key :: todo =>
    match selectDead c row.origin (s.spool key).deadLines with
    | none => (none, s)
    | some ([], _) => (some (.archive row todo), s)
    | some (selected, remaining) =>
      if answer.raises then
        let audit := leaveResidue answer.residue
          (extendAudit (s.audits.get key) (selected.take answer.written))
        (none, match audit with
          | none => s
          | some audit => { s with audits := s.audits.set key audit })
      else
        let s' := s.modifySpool key fun sp =>
          { sp with dead := some ⟨remaining, (sp.dead.map DeadFile.torn).getD false⟩ }
        (some (.archive row todo), match extendAudit (s.audits.get key) selected with
          | none => s'
          | some audit => { s' with audits := s.audits.set key audit })

def requeueStep (row : Row) (answer : Answer) (s : State) : Step env :=
  if answer.raises ∨ answer.granted = false then (none, s)
  else
    let op : Operation env := .requeueQuarantined row.origin.sourceHandle row.origin.ordinal
    let result := s.call op answer.failure
    if result.1 = .requeued true then (some .snapshot, result.2) else (none, result.2)

def selectStep (key : ReceiptKey) (answer : Answer) (s : State) : Step env :=
  let result := s.opened env answer.failure
  if answer.raises ∨ result.1 = false then release result.2
  else
    match pendingReceipt result.2.ledger.tables key with
    | none => release result.2
    | some row => (some (.inspect row), result.2)

def inspectStep (row : Row) (answer : Answer) (s : State) : Step env :=
  if answer.raises then release s
  else if commitState c s row.origin = some .committed then (some (.audit row), s)
  else (some (.readHead row), s)

def auditStep (row : Row) (answer : Answer) (s : State) : Step env :=
  if answer.raises ∨ hasRetryAudit c s row.origin ≠ some true then release s
  else (some (.readHead row), s)

/-- The first record under the session id has to be that of the receipt. Without a record the
envelope is made from the receipt. -/
def readHeadStep (row : Row) (answer : Answer) (s : State) : Step env :=
  if answer.raises then release s
  else
    match sessionOf row.payload with
    | none => release s
    | some session =>
      match ((s.spool session).readBatch 1).records with
      | [] =>
        let raw := c.line row.origin row.actor (sanitizeRecoveryPayload row.payload)
        (some (.deadLetter row session raw none), s)
      | head :: _ =>
        if c.decode head.raw = .recovered row.origin then
          (some (.deadLetter row session head.raw (some head)), s)
        else release s

def deadLetterStep (row : Row) (key : String) (raw : Bytes) (head : Option Record) (answer : Answer)
    (s : State) : Step env :=
  if answer.raises then release (s.modifySpool key (Spool.deadLetterPartial answer.residue))
  else (some (.quarantine row key head), s.modifySpool key (Spool.deadLetter raw))

def quarantineStep (row : Row) (key : String) (head : Option Record) (answer : Answer) (s : State) :
    Step env :=
  let op : Operation env := .quarantinePending row.origin.sourceHandle row.origin.ordinal
  let result := s.call op answer.failure
  if result.1 = .raised then release result.2
  else
    match head with
    | none => release result.2
    | some head => (some (.commitHead key head), result.2)

def commitHeadStep (key : String) (head : Record) (answer : Answer) (s : State) : Step env :=
  if answer.raises ∧ answer.applied = false then release s
  else release (s.modifySpool key (Spool.commit head.stop))

/-- `_before_quarantine`: a record without an origin cannot be acknowledged, and the worker dies. -/
def publishStep (key : String) (record : Record) (answer : Answer) (s : State) : Step env :=
  match c.decode record.raw with
  | .recovered o =>
    let op : Operation env := .mark o.sourceHandle o.ordinal .quarantined
    let result := s.call op answer.failure
    if result.1 = .raised then release (result.2.setWorker key .idle)
    else (some (.acknowledge key record), result.2)
  | _ => release (s.setWorker key .idle)

/-- The worker goes on with the rest of its batch; when the commit raises it dies. -/
def acknowledgeStep (key : String) (record : Record) (answer : Answer) (s : State) : Step env :=
  if answer.raises then
    let s' := s.setWorker key .idle
    release (if answer.applied then s'.modifySpool key (Spool.commit record.stop) else s')
  else
    let rest := match s.workers key with
      | .condemned _ _ rest => rest
      | _ => []
    release ((s.setWorker key (.holding record.stop rest)).modifySpool key
      (Spool.commit record.stop))

def advance : Phase env → Answer → State → Step env
  | .refused, _, s => (none, s)
  | .admission sub, answer, s => admissionStep sub answer s
  | .admissionClaim sub fresh, answer, s => admissionClaimStep sub fresh answer s
  | .enqueue row pass, answer, s => enqueueStep c row pass answer s
  | .append row key written rest pass, answer, s => appendStep row key written rest pass answer s
  | .snapshot, answer, s => snapshotStep answer s
  | .evidence todo captured audited, answer, s => evidenceStep c todo captured audited answer s
  | .available captured audited, answer, s => availableStep captured audited answer s
  | .outbox pass, answer, s => outboxStep pass answer s
  | .claim row pass, answer, s => claimStep row pass answer s
  | .dead row pass, answer, s => deadStep c row pass answer s
  | .scanEnqueued row pass, answer, s => scanEnqueuedStep c row pass answer s
  | .scan row pass, answer, s => scanStep c row pass answer s
  | .mark row state pass, answer, s => markStep row state pass answer s
  | .selectQuarantined, answer, s => selectQuarantinedStep answer s
  | .fence row, answer, s => fenceStep c row answer s
  | .validate row, answer, s => validateStep c row answer s
  | .archive row todo, answer, s => archiveStep c row todo answer s
  | .requeue row, answer, s => requeueStep row answer s
  | .select key, answer, s => selectStep key answer s
  | .inspect row, answer, s => inspectStep c row answer s
  | .audit row, answer, s => auditStep c row answer s
  | .readHead row, answer, s => readHeadStep c row answer s
  | .deadLetter row key raw head, answer, s => deadLetterStep row key raw head answer s
  | .quarantine row key head, answer, s => quarantineStep row key head answer s
  | .commitHead key head, answer, s => commitHeadStep key head answer s
  | .publish key record, answer, s => publishStep c key record answer s
  | .acknowledge key record, answer, s => acknowledgeStep key record answer s

/-- Taking the lock. An operator and an acknowledgement come with the pause condition, or not at
all. -/
def enter : Request env → State → Phase env × State
  | .admission sub, s => (.admission sub, s)
  | .reconcile, s => (.snapshot, s)
  | .retry, s => (.selectQuarantined, s)
  | .quarantine key, s =>
    if s.guard = .operator false then (.select key, { s with guard := .operator true })
    else (.refused, s)
  | .acknowledge key, s =>
    match s.workers key with
    | .condemned _ record _ =>
      if s.guard = .poison key false then
        (.publish key record, { s with guard := .poison key true })
      else (.refused, s)
    | _ => (.refused, s)

/-! ## Outside of the lock -/

inductive Event where
  -- the worker of a key
  | read (key : String) (maxItems : ℕ)
  | drop (key : String)
  | condemn (key : String) (residue : Option ℕ)
  | trim (key : String) (cut : Option ℕ)
  -- the pause condition
  | pause (paused : Bool)
  | takeFlush (key : String) (dispatched count : ℕ)
  | takeOperator
  | takePoison (key : String)
  | giveUp
  -- the flush that holds it
  | checkQueue (raises : Bool)
  | checkReceipt (failure : Option Failure)
  | flush (returns : Bool)
  | mark (failure : Option Failure)
  | commit (applied returns : Bool)
  -- the ledger
  | openLedger (failure : Option Failure)
  | settle (origin : Origin) (failure : Option Failure)
  deriving DecidableEq, Repr

/-- The worker stands inside a flush or an acknowledgement of its own. -/
def engaged (s : State) (key : String) : Bool :=
  match s.guard with
  | .flush sec => sec.key = key
  | .poison key' _ => key' = key
  | _ => false

def readEvent (key : String) (maxItems : ℕ) (s : State) : State :=
  match s.workers key with
  | .idle =>
    let batch := (s.spool key).readBatch maxItems
    if batch.records = [] then s else s.setWorker key (.holding batch.startOffset batch.records)
  | _ => s

/-- The worker forgets its batch: it failed and is read again, or the worker ends. -/
def dropEvent (key : String) (s : State) : State :=
  if engaged s key then s else s.setWorker key .idle

/-- The first record of a batch is dead-lettered; when the write fails the worker dies. -/
def condemnEvent (key : String) (residue : Option ℕ) (s : State) : State :=
  if engaged s key then s
  else
    match s.workers key with
    | .holding start (record :: rest) =>
      match residue with
      | none =>
        (s.setWorker key (.condemned start record rest)).modifySpool key
          (Spool.deadLetter record.raw)
      | some residue =>
        (s.setWorker key .idle).modifySpool key (Spool.deadLetterPartial residue)
    | _ => s

/-- `delete_drained` by an idle worker; it waits for a write to the log. -/
def trimEvent (key : String) (cut : Option ℕ) (s : State) : State :=
  if s.workers key = .idle ∧ s.writing ≠ some key then
    s.modifySpool key (Spool.deleteDrainedCut cut)
  else s

/-- `_flush_and_commit` takes the write guard. -/
def takeFlushEvent (key : String) (dispatched count : ℕ) (s : State) : State :=
  if s.guard = .free ∧ s.paused = false then
    match s.workers key with
    | .holding _ records =>
      let records := records.take dispatched
      { s with guard := .flush ⟨key, records, count, .checking [] records⟩ }
    | _ => s
  else s

/-- `_quarantine_pending_native_recovery` takes the condition and finds recovery paused. -/
def takeOperatorEvent (s : State) : State :=
  if s.guard = .free ∧ s.paused then { s with guard := .operator false } else s

/-- `_quarantine_and_commit` takes the write guard. -/
def takePoisonEvent (key : String) (s : State) : State :=
  if s.guard = .free ∧ s.paused = false then
    match s.workers key with
    | .condemned _ _ _ => { s with guard := .poison key false }
    | _ => s
  else s

/-- Whoever holds the condition raises or is cancelled; inside the lock this cannot happen. -/
def giveUpEvent (s : State) : State :=
  match s.guard with
  | .flush _ | .operator false | .poison _ false => { s with guard := .free }
  | _ => s

/-- `_ensure_recovery_records_are_flushable` reads the queue state of the next record. -/
def checkQueueEvent (raises : Bool) (s : State) : State :=
  match s.guard with
  | .flush ⟨key, dispatched, count, .checking checked (record :: todo)⟩ =>
    match c.decode record.raw with
    | .recovered o =>
      if raises = false ∧ commitState c s o = some .queued then
        { s with guard := .flush ⟨key, dispatched, count, .receipt checked record todo⟩ }
      else { s with guard := .free }
    | _ => { s with guard := .free }
  | _ => s

def checkReceiptEvent (env : Surroundings) (failure : Option Failure) (s : State) : State :=
  match s.guard with
  | .flush ⟨key, dispatched, count, .receipt checked record todo⟩ =>
    let result := s.opened env failure
    match c.decode record.raw with
    | .recovered o =>
      if result.1 ∧ isFlushable result.2.ledger.tables o.key then
        { result.2 with
          guard := .flush ⟨key, dispatched, count, .checking (checked ++ [record]) todo⟩ }
      else { result.2 with guard := .free }
    | _ => { result.2 with guard := .free }
  | _ => s

def originsOf (records : List Record) : List Origin :=
  records.filterMap fun record =>
    match c.decode record.raw with
    | .recovered o => some o
    | _ => none

def flushEvent (returns : Bool) (s : State) : State :=
  match s.guard with
  | .flush ⟨key, dispatched, count, .checking _ []⟩ =>
    if returns then
      { s with
        flushed := s.flushed ++ originsOf c dispatched
        guard := .flush ⟨key, dispatched, count, .marking [] (dispatched.take count)⟩ }
    else { s with guard := .free }
  | _ => s

/-- `_mark_recovery_flushed` marks the next receipt. When the worker is cancelled here the thread of
the call goes on. -/
def markEvent (env : Surroundings) (failure : Option Failure) (s : State) : State :=
  match s.guard with
  | .flush ⟨key, dispatched, count, .marking marked (record :: todo)⟩ =>
    match c.decode record.raw with
    | .recovered o =>
      if failure = some .cancelled then
        { s with guard := .free, inflight := o :: s.inflight }
      else
        let op : Operation env := .mark o.sourceHandle o.ordinal .written
        let result := s.call op failure
        if result.1 = .raised then { result.2 with guard := .free }
        else
          { result.2 with
            guard := .flush ⟨key, dispatched, count, .marking (marked ++ [record]) todo⟩ }
    | _ => { s with guard := .free }
  | _ => s

/-- The commit behind the acknowledged records. The worker goes on with the rest of its batch; when
the commit raises it dies. -/
def commitEvent (applied returns : Bool) (s : State) : State :=
  match s.guard with
  | .flush ⟨key, dispatched, count, .marking _ []⟩ =>
    match s.workers key with
    | .holding start records =>
      let stop := endOf start (dispatched.take count)
      let worker := if returns then
          .holding stop (records.drop (dispatched.take count).length)
        else .idle
      let s' := { s.setWorker key worker with guard := .free }
      if applied ∨ returns then s'.modifySpool key (Spool.commit stop) else s'
    | _ => s
  | _ => s

def settleEvent (env : Surroundings) (o : Origin) (failure : Option Failure) (s : State) : State :=
  if o ∈ s.inflight then
    let op : Operation env := .mark o.sourceHandle o.ordinal .written
    { (s.call op failure).2 with inflight := s.inflight.erase o }
  else s

def outside (env : Surroundings) : Event → State → State
  | .read key maxItems, s => readEvent key maxItems s
  | .drop key, s => dropEvent key s
  | .condemn key residue, s => condemnEvent key residue s
  | .trim key cut, s => trimEvent key cut s
  | .pause paused, s => if s.guard = .free then { s with paused := paused } else s
  | .takeFlush key dispatched count, s => takeFlushEvent key dispatched count s
  | .takeOperator, s => takeOperatorEvent s
  | .takePoison key, s => takePoisonEvent key s
  | .giveUp, s => giveUpEvent s
  | .checkQueue raises, s => checkQueueEvent c raises s
  | .checkReceipt failure, s => checkReceiptEvent c env failure s
  | .flush returns, s => flushEvent c returns s
  | .mark failure, s => markEvent c env failure s
  | .commit applied returns, s => commitEvent applied returns s
  | .openLedger failure, s => (s.opened env failure).2
  | .settle o failure, s => settleEvent env o failure s

/-- A new process: only the files are left, and recovery is not paused. -/
def restart (s : State) : State :=
  { s with
    ledger := { s.ledger with initialized := false }
    workers := fun _ => .idle
    guard := .free
    paused := false
    writing := none
    inflight := []
    reconciled := false }

def server (env : Surroundings) : Protocol State (Request env) (Phase env) Answer Event where
  enter := enter
  advance := advance c
  yields := fun _ => false
  outside := outside c env
  restart := restart

abbrev ServerSystem (env : Surroundings) := System State (Request env) (Phase env)

abbrev ServerAction (env : Surroundings) := Action (Request env) Answer Event

end Outbox

end ContextIntelligence.Recovery
