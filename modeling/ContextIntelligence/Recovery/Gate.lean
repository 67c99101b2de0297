import ContextIntelligence.Lib.Mutex
import ContextIntelligence.Queue.Spool
import ContextIntelligence.Recovery.Ledger

/-!
# The recovery admission gate

`RecoveryAdmissionGate` hands out single-use permits and lets a recovered record in only when no
live record is pending. A phase is what a task inside its lock awaits; the answer is part of the
run. The drain, other users of the ledger, the pause switch and the clock act between any two
phases. Operations of the recovery spool and the claims only answer.
-/

namespace ContextIntelligence.Recovery

open Lib Lib.Mutex Queue

/-! ## Permits -/

/-- `_PermitBinding`. -/
structure PermitBinding where
  actor : String
  workspace : String
  sourceHandle : String
  descriptorSha256 : String
  ordinal : ℤ
  sourceLineSha256 : String
  payloadSha256 : String
  deriving DecidableEq, Repr

/-- One event of a source, as a client names it to both endpoints. -/
structure SourceEvent where
  sourceHandle : String
  source : Descriptor
  ordinal : ℤ
  sourceLineSha256 : String
  actor : String
  workspace : String
  payloadSha256 : String

/-- `RecoveryAdmissionGate.binding`. -/
def SourceEvent.binding (env : Surroundings) (e : SourceEvent) : PermitBinding where
  actor := e.actor
  workspace := e.workspace
  sourceHandle := e.sourceHandle
  descriptorSha256 := e.source.digest env
  ordinal := e.ordinal
  sourceLineSha256 := e.sourceLineSha256
  payloadSha256 := e.payloadSha256

inductive ReceiptClassification where
  | new
  | duplicate
  | conflict
  | foreign
  deriving DecidableEq, Repr

/-- `classify_source`; `none` where it raises. -/
def Tables.classifySource (env : Surroundings) (t : Tables) (e : SourceEvent) :
    Option ReceiptClassification :=
  if (t.sources.get e.sourceHandle).any fun source => source.descriptorSha256 ≠ e.source.digest env
  then some .conflict
  else if fitsInteger e.ordinal then
    match t.receipts.get (e.sourceHandle, e.ordinal) with
    | none => some .new
    | some r =>
      if r.sourceLineSha256 = e.sourceLineSha256 ∧ r.payloadSha256 = e.payloadSha256 then
        some (if r.actor = e.actor ∧ r.workspace = e.workspace then .duplicate else .foreign)
      else some .conflict
  else none

inductive PermitResult where
  | accepted
  | duplicate
  | conflict
  | existing
  | unavailable
  | invalid
  | mismatch
  deriving DecidableEq, Repr

/-- What `consume` yields, from the classification, the stored permit and the availability. -/
def permitResult (state : ReceiptClassification) (stored : Option (PermitBinding × ℕ))
    (binding : PermitBinding) (available : Bool) : PermitResult :=
  match state with
  | .duplicate => .duplicate
  | .conflict => .conflict
  | .foreign => .existing
  | .new =>
    match stored with
    | none => .invalid
    | some (held, _) =>
      if held ≠ binding then .mismatch else if available then .accepted else .unavailable

/-- A record that `post_recovery_events` has parsed. -/
structure Submission (env : Surroundings) where
  sourceHandle : String
  source : Descriptor
  ordinal : ℤ
  sourceLineSha256 : String
  actor : String
  workspace : String
  request : AcceptedRequest env

namespace Submission

variable {env : Surroundings}

def event (sub : Submission env) : SourceEvent where
  sourceHandle := sub.sourceHandle
  source := sub.source
  ordinal := sub.ordinal
  sourceLineSha256 := sub.sourceLineSha256
  actor := sub.actor
  workspace := sub.workspace
  payloadSha256 := env.payloadDigest sub.request.payload

/-- The call of `admit_source`; where permits are required it asks for no lease. -/
def operation (sub : Submission env) : Operation env :=
  .admitSource sub.sourceHandle sub.source sub.ordinal sub.sourceLineSha256 sub.actor sub.workspace
    sub.request false none

end Submission

/-! ## The state -/

/-- What has passed through the gate. `expiry` is the time from which the permit is void, `entered`
the time at which the consumption took the lock. -/
inductive Exchange where
  | issued (token : String) (binding : PermitBinding) (expiry : ℕ)
  | accepted (token : String) (binding : PermitBinding) (entered : ℕ)
  deriving DecidableEq, Repr

/-- The gate and what its tasks read. No task reads `history`. -/
structure GateState where
  clock : ℕ
  ttlSeconds : ℕ
  permits : Dict String (PermitBinding × ℕ)
  paused : Bool
  ledger : Ledger
  queue : Dict String Spool
  history : List Exchange

namespace GateState

def boot (clock ttlSeconds : ℕ) (paused : Bool) (ledger : Ledger) (queue : Dict String Spool) :
    GateState :=
  ⟨clock, ttlSeconds, Dict.empty, paused, ledger, queue, []⟩

def spool (s : GateState) (key : String) : Spool := (s.queue.get key).getD Spool.empty

def modifySpool (s : GateState) (key : String) (f : Spool → Spool) : GateState :=
  { s with queue := s.queue.set key (f (s.spool key)) }

/-- `_pending_worker_keys`. -/
def pendingWorkerKeys (s : GateState) : List String :=
  (s.queue.entries.filter fun entry => entry.2.visible).map Prod.fst

/-- `_discard_expired`. -/
def discardExpired (s : GateState) : GateState :=
  { s with permits := s.permits.filter fun _ stored => decide (s.clock < stored.2) }

def unexpired (s : GateState) : List (String × PermitBinding × ℕ) :=
  s.permits.entries.filter fun entry => decide (s.clock < entry.2.2)

end GateState

/-! ## The tasks -/

variable {env : Surroundings}

inductive Request (env : Surroundings) where
  | issue (event : SourceEvent)
  | consume (token : Option String) (submission : Submission env)
  | liveEnqueue (key : String) (raw : Bytes)
  | runIfAvailable (operation : Operation env)

inductive Purpose (env : Surroundings) where
  | issue (event : SourceEvent)
  | consume (token : Option String) (submission : Submission env) (entered : ℕ)
  | operation (op : Operation env)

/-- How far a check of availability has come: before the receipts are asked, before the live queue
is listed, before the next key is read, and between the two reads of a key. -/
inductive Check where
  | receipts
  | list (receiptPending : Bool)
  | keys (receiptPending : Bool) (todo : List String)
  | measure (receiptPending : Bool) (key : String) (committed : ℕ) (todo : List String)
  deriving DecidableEq, Repr

inductive Phase (env : Surroundings) where
  | classify (purpose : Purpose env)
  | check (state : ReceiptClassification) (purpose : Purpose env) (progress : Check)
  | reserve (submission : Submission env)
  | admission (submission : Submission env)
  | release
  | finalize (fresh : Bool)
  | enqueue
  | repair
  | operate (op : Operation env)
  | append (key : String) (rest : Bytes)

/-- What the awaited operation answers, as far as the state does not decide it: that it raises; how
a call on the ledger fails; the token drawn; whether the session claim was reserved; the bytes that
one `os.write` took; and whether a failed append could still terminate its line. -/
structure Answer where
  raises : Bool
  failure : Option Failure
  token : String
  reserved : Bool
  written : ℕ
  terminated : Bool

def Answer.plain : Answer := ⟨false, none, "", true, 0, false⟩

def callShielded (op : Operation env) (answer : Answer) (l : Ledger) : Outcome × Ledger :=
  attempt env l (.call op (answer.failure.filter fun failure => failure ≠ .cancelled))

/-- The end of a check: `issue` and `consume` decide, `run_if_available` goes on or gives up. -/
def conclude (state : ReceiptClassification) (available : Bool) (answer : Answer) (s : GateState) :
    Purpose env → Option (Phase env) × GateState
  | .issue event =>
    if s.permits.entries ≠ [] ∨ state ≠ .new ∨ available = false then (none, s)
    else
      let expiry := s.clock + s.ttlSeconds
      let binding := event.binding env
      (none, { s with
        permits := s.permits.set answer.token (binding, expiry)
        history := s.history ++ [.issued answer.token binding expiry] })
  | .consume token sub entered =>
    let held := token.getD ""
    let binding := sub.event.binding env
    if permitResult state (s.permits.get held) binding available = .accepted then
      (some (.reserve sub), { s with
        permits := s.permits.erase held
        history := s.history ++ [.accepted held binding entered] })
    else (none, s)
  | .operation op => if available then (some (.operate op), s) else (none, s)

/-- One await of a check: `_native_recovery_admission_available` starts with the receipts,
`_native_recovery_live_available` with the live queue, which `has_pending_records` reads. What
raises counts as pending. -/
def checkStep (state : ReceiptClassification) (purpose : Purpose env) (answer : Answer)
    (s : GateState) : Check → Option (Phase env) × GateState
  | .receipts =>
    let opened := initializeLocked env answer.failure s.ledger
    let pending := answer.raises || !opened.2 || opened.1.tables.hasPending
    (some (.check state purpose (.list pending)), { s with ledger := opened.1 })
  | .list pending =>
    if answer.raises then conclude state false answer s purpose
    else (some (.check state purpose (.keys pending s.pendingWorkerKeys)), s)
  | .keys pending [] => conclude state (!s.paused && !pending) answer s purpose
  | .keys pending (key :: todo) =>
    if answer.raises then conclude state false answer s purpose
    else (some (.check state purpose (.measure pending key (s.spool key).committedOffset todo)), s)
  | .measure pending key committed todo =>
    let completeEnd := (s.spool key).completeDataEnd
    if answer.raises ∨ completeEnd < committed ∨ committed < completeEnd then
      conclude state false answer s purpose
    else (some (.check state purpose (.keys pending todo)), s)

def Purpose.event? : Purpose env → Option SourceEvent
  | .issue event => some event
  | .consume _ sub _ => some sub.event
  | .operation _ => none

def enterGate : Request env → GateState → Phase env × GateState
  | .issue event, s => (.classify (.issue event), s.discardExpired)
  | .consume token sub, s => (.classify (.consume token sub s.clock), s.discardExpired)
  | .liveEnqueue key raw, s => (.append key (Spool.frame raw), s)
  | .runIfAvailable op, s => (.check .new (.operation op) (.list false), s)

def advanceGate : Phase env → Answer → GateState → Option (Phase env) × GateState
  | .classify purpose, answer, s =>
    let opened := initializeLocked env answer.failure s.ledger
    let s' := { s with ledger := opened.1 }
    if answer.raises ∨ opened.2 = false then (none, s')
    else
      match purpose.event?.bind (opened.1.tables.classifySource env) with
      | none => (none, s')
      | some state => (some (.check state purpose .receipts), s')
  | .check state purpose progress, answer, s => checkStep state purpose answer s progress
  | .reserve sub, answer, s =>
    if answer.raises ∨ answer.reserved = false then (none, s) else (some (.admission sub), s)
  | .admission sub, answer, s =>
    let result := callShielded sub.operation answer s.ledger
    let s' := { s with ledger := result.2 }
    if result.1 = .admitted .accepted then (some (.finalize true), s')
    else if result.1 = .admitted .duplicate then (some (.finalize false), s')
    else (some .release, s')
  | .release, _, s => (none, s)
  | .finalize fresh, answer, s =>
    if answer.raises then (none, s) else (some (if fresh then .enqueue else .repair), s)
  | .enqueue, _, s => (none, s)
  | .repair, _, s => (none, s)
  | .operate op, answer, s => (none, { s with ledger := (callShielded op answer s.ledger).2 })
  | .append key rest, answer, s =>
    if answer.raises then
      (none, if answer.terminated then s.modifySpool key (Spool.writeLog [newline]) else s)
    else
      let left := rest.drop answer.written
      (if left = [] then none else some (.append key left),
        s.modifySpool key (Spool.writeLog (rest.take answer.written)))

/-- An awaiting issue can be cancelled. A consumption and a retry are awaited to their end, and so
is the write of an append. -/
def Phase.cancellable : Phase env → Bool
  | .classify (.issue _) => true
  | .check _ (.issue _) _ => true
  | _ => false

/-! ## What happens outside the lock -/

/-- What the drain of a live key does to its files; a deletion may stop between two unlinks. -/
inductive FileOp where
  | commit (newOffset : ℕ)
  | deleteDrained (cut : Option ℕ)
  | deleteSession (cut : Option ℕ)
  | deadLetter (payload : Bytes)
  | deadLetterPartial (done : ℕ)
  deriving DecidableEq, Repr

def FileOp.apply : FileOp → Spool → Spool
  | .commit newOffset => Spool.commit newOffset
  | .deleteDrained cut => Spool.deleteDrainedCut cut
  | .deleteSession cut => Spool.deleteSessionCut cut
  | .deadLetter payload => Spool.deadLetter payload
  | .deadLetterPartial done => Spool.deadLetterPartial done

inductive Outside (env : Surroundings) where
  | tick (elapsed : ℕ)
  | pause (paused : Bool)
  | ledger (action : LedgerAction env)
  | files (key : String) (op : FileOp)

def outsideGate : Outside env → GateState → GateState
  | .tick elapsed, s => { s with clock := s.clock + elapsed }
  | .pause paused, s => { s with paused := paused }
  | .ledger action, s => { s with ledger := (attempt env s.ledger action).2 }
  | .files key op, s => s.modifySpool key op.apply

/-- A new process: the gate is empty and the ledger is opened again. -/
def restartGate (s : GateState) : GateState :=
  { s with permits := Dict.empty, ledger := { s.ledger with initialized := false } }

def gate (env : Surroundings) :
    Protocol GateState (Request env) (Phase env) Answer (Outside env) where
  enter := enterGate
  advance := advanceGate
  yields := Phase.cancellable
  outside := outsideGate
  restart := restartGate

abbrev GateSystem (env : Surroundings) := System GateState (Request env) (Phase env)

abbrev GateAction (env : Surroundings) := Action (Request env) Answer (Outside env)

end ContextIntelligence.Recovery
