import ContextIntelligence.Graph.Services

/-!
# The receipt ledger

`RecoveryReceiptStore` keeps a receipt for each source handle and ordinal, and the descriptor of
each source. A call runs in one transaction, on a file that the first call after opening may have to
rebuild. JSON columns are kept as the values they encode, an empty text as `none`. The conflict
table is left out: no answer depends on it, and a rebuild only checks and copies it.
-/

namespace ContextIntelligence.Recovery

open Lib ContextIntelligence.Graph

/-! ## Texts and payloads -/

structure Surroundings where
  /-- `canonical_payload_digest`. -/
  payloadDigest : Json → String
  /-- `source_descriptor_digest`, of the fields of a descriptor. -/
  descriptorDigest : String → String → String → String → ℤ → String
  /-- `not value.strip()`. -/
  isBlank : String → Bool
  /-- `datetime.fromisoformat` accepts the text. -/
  isIsoTime : String → Bool

/-- `MAX_SESSION_ID_BYTES`: a file name, less the suffix of a temporary offset file. -/
def maxSessionIdBytes : ℕ := 255 - 44

/-- Category `Cc`. -/
def isControl (c : Char) : Bool := c.toNat < 32 ∨ 127 ≤ c.toNat ∧ c.toNat < 160

def isSafeSessionId (s : String) : Bool :=
  s ≠ "" ∧ s ∉ [".", ".."] ∧ (s.toList.all fun c => c ≠ '/' ∧ c ≠ '\\' ∧ !isControl c)
    ∧ s.utf8ByteSize ≤ maxSessionIdBytes

/-- `_SHA256_HEX`. -/
def isSha256Hex (s : String) : Bool :=
  s.length = 64 ∧ s.toList.all fun c => c.isDigit ∨ 'a' ≤ c ∧ c ≤ 'f'

mutual

/-- `sanitize_recovery_payload`: keys that hold a local working directory are removed. -/
def sanitizeRecoveryPayload : Json → Json
  | .obj fields => .obj (sanitizeFields fields)
  | .arr items => .arr (sanitizeItems items)
  | value => value

def sanitizeItems : List Json → List Json
  | [] => []
  | item :: rest => sanitizeRecoveryPayload item :: sanitizeItems rest

def sanitizeFields : List (String × Json) → List (String × Json)
  | [] => []
  | (key, value) :: rest =>
    if key = "working_dir" then sanitizeFields rest
    else (key, sanitizeRecoveryPayload value) :: sanitizeFields rest

end

mutual

def sameJson : Json → Json → Bool
  | .null, .null => true
  | .bool a, .bool b => a = b
  | .int a, .int b => a = b
  | .float a, .float b => a = b
  | .str a, .str b => a = b
  | .arr a, .arr b => sameItems a b
  | .obj a, .obj b => sameFields a b
  | _, _ => false

def sameItems : List Json → List Json → Bool
  | [], [] => true
  | a :: as, b :: bs => sameJson a b && sameItems as bs
  | _, _ => false

def sameFields : List (String × Json) → List (String × Json) → Bool
  | [], [] => true
  | (k, a) :: as, (k', b) :: bs => k = k' && sameJson a b && sameFields as bs
  | _, _ => false

end

/-- `data.session_id` of a payload is a text that is safe as a queue key. -/
def hasSafeSession (payload : Payload) : Bool :=
  match payload.get "data" with
  | some (.obj data) => (Payload.str data "session_id").any isSafeSessionId
  | _ => false

variable (env : Surroundings)

def hasTimestamp (data : Payload) : Bool :=
  (data.str "timestamp").any fun t => !env.isBlank t && env.isIsoTime t

/-- `_has_replayable_envelope`. -/
def hasReplayableEnvelope (payload : Payload) : Bool :=
  (payload.str "event").isSome
    && (payload.str "workspace").any (fun workspace => !env.isBlank workspace)
    && (match payload.get "idempotency_key" with
      | none | some .null | some (.str _) => true
      | _ => false)
    && (match payload.get "data" with
      | some (.obj data) => hasTimestamp env data
      | _ => false)

def dropSession (payload : Payload) : Payload :=
  payload.map fun field =>
    match field with
    | ("data", .obj data) => ("data", .obj (data.filter fun entry => entry.1 ≠ "session_id"))
    | field => field

/-- `_sanitize_stored_payload`: the scrubbed payload, and whether it must not be replayed. -/
def sanitizeStoredPayload (value : Json) : Json × Bool :=
  match sanitizeRecoveryPayload value with
  | .obj payload =>
    let kept := if hasSafeSession payload then payload else dropSession payload
    (.obj kept, !hasSafeSession payload || !hasReplayableEnvelope env kept)
  | _ => (.obj [], true)

/-! ## Rows -/

structure Descriptor where
  protocol : String
  sessionId : String
  sourceStreamSha256 : String
  sourceSha256 : String
  recordCount : ℤ
  deriving DecidableEq, Repr

def Descriptor.digest (d : Descriptor) : String :=
  env.descriptorDigest d.protocol d.sessionId d.sourceStreamSha256 d.sourceSha256 d.recordCount

/-- `_valid_source_descriptor`. -/
def validSourceDescriptor (d : Descriptor) : Bool :=
  d.protocol ∈ ["native-recovery-source-v1", "legacy-recovery-lease-v1"]
    ∧ isSafeSessionId d.sessionId ∧ isSha256Hex d.sourceStreamSha256
    ∧ isSha256Hex d.sourceSha256 ∧ 0 ≤ d.recordCount

def zeroDigest : String := String.ofList (List.replicate 64 '0')

/-- `_quarantined_source_descriptor`. -/
def quarantinedSourceDescriptor : Descriptor where
  protocol := "native-recovery-source-v1"
  sessionId := "quarantined-invalid-source-v1"
  sourceStreamSha256 := zeroDigest
  sourceSha256 := zeroDigest
  recordCount := 0

inductive ReceiptState where
  | pendingEnqueue
  | retryPending
  | enqueued
  | committedPending
  | written
  | quarantined
  deriving DecidableEq, Repr

/-- `_PENDING`. -/
def ReceiptState.pending : ReceiptState → Bool
  | .pendingEnqueue | .retryPending | .enqueued | .committedPending => true
  | .written | .quarantined => false

structure Source where
  descriptorSha256 : String
  descriptor : Descriptor

structure Receipt where
  sourceLineSha256 : String
  actor : String
  workspace : String
  payloadSha256 : String
  payload : Option Json
  state : ReceiptState

abbrev ReceiptKey := String × ℤ

structure Tables where
  sources : Dict String Source
  receipts : Dict ReceiptKey Receipt
  leases : List String

def Tables.empty : Tables := ⟨Dict.empty, Dict.empty, []⟩

def Tables.hasPending (t : Tables) : Bool :=
  t.receipts.entries.any fun entry => entry.2.state.pending

/-! ## Opening -/

/-- A stored receipt that replay could not use, or that still holds a path. -/
def Receipt.unfit (r : Receipt) : Bool :=
  match r.payload with
  | none => r.state.pending
  | some payload =>
    let (scrubbed, invalid) := sanitizeStoredPayload env payload
    invalid || !sameJson scrubbed payload

/-- `_current_database_needs_sanitization_locked`. -/
def needsSanitization (t : Tables) : Bool :=
  (t.sources.entries.any fun entry => !validSourceDescriptor entry.2.descriptor)
    || t.receipts.entries.any fun entry => entry.2.unfit env

def rebuildSource (source : Source) : Source :=
  let descriptor :=
    if validSourceDescriptor source.descriptor then source.descriptor
    else quarantinedSourceDescriptor
  ⟨descriptor.digest env, descriptor⟩

/-- A receipt on its way into the new file; it is quarantined if its source or its payload is not
fit for replay. -/
def rebuildReceipt (sources : Dict String Source) (key : ReceiptKey) (r : Receipt) : Receipt :=
  let invalidSource := (sources.get key.1).any fun source =>
    !validSourceDescriptor source.descriptor
  let settle (invalidPayload : Bool) : ReceiptState :=
    if r.state.pending && (invalidSource || invalidPayload) then .quarantined else r.state
  match r.payload with
  | none => { r with state := settle (r.state ≠ .written) }
  | some payload =>
    let (scrubbed, invalid) := sanitizeStoredPayload env payload
    { r with
      payload := some scrubbed
      payloadSha256 := env.payloadDigest scrubbed
      state := settle invalid }

/-- The rows that `_rebuild_current_database_locked` agrees to copy. -/
def copies (t : Tables) : Bool :=
  (t.sources.entries.all fun entry => isSha256Hex entry.1)
    && (t.receipts.entries.all fun entry =>
      (t.sources.get entry.1.1).isSome && decide (0 ≤ entry.1.2)
        && isSha256Hex entry.2.sourceLineSha256 && isSha256Hex entry.2.payloadSha256)
    && t.leases.all fun lease => lease ≠ ""

/-- `_rebuild_current_database_locked`; `none` where it raises. -/
def rebuild (t : Tables) : Option Tables :=
  if copies t then
    some ⟨t.sources.mapValues fun _ => rebuildSource env,
      t.receipts.mapValues (rebuildReceipt env t.sources), t.leases⟩
  else none

/-! ## Calls -/

/-- What the admission endpoint has parsed, without source and origin. -/
structure RecoveryRequest where
  event : String
  workspace : String
  idempotencyKey : Option String
  data : Payload

/-- The payload of a request: the scrubbed fields, without nulls. -/
def RecoveryRequest.payload (r : RecoveryRequest) : Json :=
  .obj ([("event", .str r.event), ("workspace", .str r.workspace)]
    ++ (r.idempotencyKey.map fun key => ("idempotency_key", Json.str key)).toList
    ++ [("data", .obj (sanitizeFields r.data))])

/-- The checks of `post_recovery_events` on it. -/
def RecoveryRequest.passes (r : RecoveryRequest) : Bool :=
  !env.isBlank r.workspace
    && (Payload.str (sanitizeFields r.data) "session_id").any isSafeSessionId
    && hasTimestamp env (sanitizeFields r.data)

structure AcceptedRequest (env : Surroundings) extends RecoveryRequest where
  passes : toRecoveryRequest.passes env = true

inductive Operation (env : Surroundings) where
  | admitSource (handle : String) (descriptor : Descriptor) (ordinal : ℤ) (line actor : String)
      (workspace : String) (request : AcceptedRequest env) (requireLease : Bool)
      (lease : Option String)
  | mark (handle : String) (ordinal : ℤ) (state : ReceiptState)
  | requeueQuarantined (handle : String) (ordinal : ℤ)
  | quarantinePending (handle : String) (ordinal : ℤ)

inductive ReceiptResult where
  | accepted
  | duplicate
  | conflict
  | busy
  deriving DecidableEq, Repr

inductive Outcome where
  | admitted (result : ReceiptResult)
  | marked (changed : Bool)
  | requeued (changed : Bool)
  | quarantined
  | raised
  | opened
  deriving DecidableEq, Repr

def Outcome.success : Outcome → Bool
  | .admitted result => result = .accepted
  | .marked changed | .requeued changed => changed
  | .quarantined | .opened => true
  | .raised => false

def fitsInteger (n : ℤ) : Bool := -2 ^ 63 ≤ n ∧ n < 2 ^ 63

/-- `allowed_previous` of `mark`. -/
def allowedPrevious : ReceiptState → List ReceiptState
  | .pendingEnqueue => [.pendingEnqueue, .retryPending, .enqueued]
  | .retryPending => [.retryPending]
  | .enqueued => [.pendingEnqueue, .retryPending, .enqueued]
  | .committedPending => [.enqueued, .committedPending]
  | .written => [.pendingEnqueue, .retryPending, .enqueued, .committedPending, .written]
  | .quarantined => [.pendingEnqueue, .retryPending, .enqueued, .committedPending, .quarantined]

namespace Tables

def admitReceipt (t : Tables) (key : ReceiptKey) (descriptor : Descriptor)
    (line actor workspace : String) (payload : Json) (lease : Option String) : Tables where
  sources :=
    if (t.sources.get key.1).isSome then t.sources
    else t.sources.set key.1 ⟨descriptor.digest env, descriptor⟩
  receipts := t.receipts.set key
    ⟨line, actor, workspace, env.payloadDigest payload, some payload, .pendingEnqueue⟩
  leases := t.leases ++ lease.toList

/-- `admit_source`. -/
def admitSource (t : Tables) (handle : String) (descriptor : Descriptor)
    (ordinal : ℤ) (line actor workspace : String) (payload : Json) (requireLease : Bool)
    (lease : Option String) : ReceiptResult × Tables :=
  let scrubbed := sanitizeRecoveryPayload payload
  if (t.sources.get handle).any fun source => source.descriptorSha256 ≠ descriptor.digest env then
    (.conflict, t)
  else
    match t.receipts.get (handle, ordinal) with
    | some r =>
      if r.sourceLineSha256 = line ∧ r.payloadSha256 = env.payloadDigest scrubbed then
        (if r.actor = actor ∧ r.workspace = workspace then .duplicate else .busy, t)
      else (.conflict, t)
    | none =>
      if t.hasPending then (.busy, t)
      else if requireLease then
        match lease with
        | none => (.busy, t)
        | some id =>
          if id ∈ t.leases then (.busy, t)
          else (.accepted,
            t.admitReceipt env (handle, ordinal) descriptor line actor workspace scrubbed (some id))
      else (.accepted,
        t.admitReceipt env (handle, ordinal) descriptor line actor workspace scrubbed none)

/-- A receipt moves to another state; a written one gives up its payload. -/
def move (t : Tables) (key : ReceiptKey) (r : Receipt) (state : ReceiptState) : Tables :=
  let moved := { r with state := state, payload := if state = .written then none else r.payload }
  { t with receipts := t.receipts.set key moved }

/-- `mark`; `none` where it raises. -/
def mark (t : Tables) (key : ReceiptKey) (state : ReceiptState) : Option (Bool × Tables) :=
  match t.receipts.get key with
  | none => none
  | some r =>
    some (if r.state ∈ allowedPrevious state then (true, t.move key r state) else (false, t))

/-- `requeue_quarantined`. -/
def requeueQuarantined (t : Tables) (key : ReceiptKey) : Bool × Tables :=
  if t.hasPending then (false, t)
  else
    match t.receipts.get key with
    | none => (false, t)
    | some r => if r.state = .quarantined then (true, t.move key r .retryPending) else (false, t)

/-- `quarantine_pending`. -/
def quarantinePending (t : Tables) (key : ReceiptKey) : Tables :=
  match t.receipts.get key with
  | none => t
  | some r => if r.state.pending then t.move key r .quarantined else t

end Tables

def perform {env : Surroundings} (op : Operation env) (t : Tables) : Outcome × Tables :=
  match op with
  | .admitSource handle descriptor ordinal line actor workspace request requireLease lease =>
    if fitsInteger ordinal then
      let (result, t') := t.admitSource env handle descriptor ordinal line actor workspace
        request.payload requireLease lease
      (.admitted result, t')
    else (.raised, t)
  | .mark handle ordinal state =>
    if fitsInteger ordinal then
      match t.mark (handle, ordinal) state with
      | none => (.raised, t)
      | some (changed, t') => (.marked changed, t')
    else (.raised, t)
  | .requeueQuarantined handle ordinal =>
    if fitsInteger ordinal then
      let (changed, t') := t.requeueQuarantined (handle, ordinal)
      (.requeued changed, t')
    else (.raised, t)
  | .quarantinePending handle ordinal =>
    if fitsInteger ordinal then (.quarantined, t.quarantinePending (handle, ordinal))
    else (.raised, t)

/-! ## The ledger -/

structure Ledger where
  initialized : Bool
  tables : Tables

/-- What may go wrong in a call: opening the file fails, or fails after the rebuilt file has taken
its place; the transaction fails and is rolled back; the caller is cancelled while the thread goes
on to commit. -/
inductive Failure where
  | opening
  | replaced
  | transaction
  | cancelled
  deriving DecidableEq, Repr

/-- `_initialize_locked`, and whether it returns. -/
def initializeLocked (failure : Option Failure) (l : Ledger) : Ledger × Bool :=
  if l.initialized then (l, true)
  else if failure = some .opening then (l, false)
  else if needsSanitization env l.tables then
    match rebuild env l.tables with
    | none => (l, false)
    | some t => if failure = some .replaced then (⟨false, t⟩, false) else (⟨true, t⟩, true)
  else if failure = some .replaced then (l, false)
  else (⟨true, l.tables⟩, true)

inductive LedgerAction (env : Surroundings) where
  | reopen
  | call (op : Operation env) (failure : Option Failure)

def attempt (l : Ledger) : LedgerAction env → Outcome × Ledger
  | .reopen => (.opened, { l with initialized := false })
  | .call op failure =>
    let opened := initializeLocked env failure l
    if opened.2 = false ∨ failure = some .transaction then (.raised, opened.1)
    else
      let result := perform op opened.1.tables
      (if failure = some .cancelled then .raised else result.1,
        { opened.1 with tables := result.2 })

end ContextIntelligence.Recovery
