import ContextIntelligence.Graph.Store

/-!
# The scheduled retention client

`run_scheduled` owns at most one retention job of a server it does not trust: it creates a preview,
waits until it is ready, starts or cancels it and watches it to its end; whatever goes wrong, it
tries to cancel within a time budget. The machine stands before one primitive at a time and is told
how it ended; a signal may arrive at each. The trace is newest first.
-/

namespace ContextIntelligence.Retention

open ContextIntelligence.Graph

/-! ## Replies -/

/-- The library functions that check the texts of a reply. -/
structure TextChecks where
  /-- `str(uuid.UUID(text))`; `none` where it raises. -/
  uuid : String → Option String
  /-- `str(PurePosixPath(text))` and its parts. -/
  posixPath : String → String × List String

def Json.field (key : String) : Json → Option Json
  | .obj fields => (fields.find? fun field => field.1 = key).map Prod.snd
  | _ => none

def Json.text : Json → Option String
  | .str s => some s
  | _ => none

/-- `_integer`: an integer that fits into 63 bits. -/
def integer : Json → Option ℤ
  | .int n => if 0 ≤ n ∧ n ≤ 2 ^ 63 - 1 then some n else none
  | _ => none

def unitSeconds : Char → Option ℕ
  | 's' => some 1
  | 'm' => some 60
  | 'h' => some 3600
  | 'd' => some 86400
  | 'w' => some 604800
  | _ => none

/-- `duration_ns`; `none` where it raises `ValueError`. -/
def durationNs (value : String) : Option ℤ := do
  let digits := value.toList.dropLast
  let seconds ← value.toList.getLast?.bind unitSeconds
  let first ← digits.head?
  if first ≠ '0' ∧ (digits.all fun c => '0' ≤ c ∧ c ≤ '9') ∧ digits.length ≤ 18 then
    let number := digits.foldl (fun n c => n * 10 + (c.toNat - '0'.toNat)) 0
    let result : ℤ := number * seconds * 10 ^ 9
    if result ≤ 2 ^ 63 - 1 then some result else none
  else none

structure Identity where
  id : String
  root : String
  age : String
  cutoff : ℤ
  started : ℤ
  deriving DecidableEq, Repr

/-- `_identity`; `none` where it raises. -/
def identity (checks : TextChecks) (job : Json) : Option Identity := do
  let id ← (Json.field "id" job).bind Json.text
  let root ← (Json.field "root" job).bind Json.text
  let age ← (Json.field "older_than" job).bind Json.text
  let cutoff ← (Json.field "cutoff_ns" job).bind integer
  let started ← (Json.field "preview_started_ns" job).bind integer
  let duration ← durationNs age
  if checks.uuid id = some id ∧ root.startsWith "/" ∧ (checks.posixPath root).1 = root
      ∧ ".." ∉ (checks.posixPath root).2 ∧ (root.toList.all fun c => 32 ≤ c.toNat)
      ∧ started - duration = cutoff
  then some ⟨id, root, age, cutoff, started⟩
  else none

def countNames : List String :=
  ["files", "logical_bytes", "allocated_bytes", "retained", "skipped", "changed", "errors",
    "deleted"]

abbrev Counts := List (String × ℤ)

def Counts.of (counts : Counts) (key : String) : ℤ :=
  ((counts.find? fun entry => entry.1 = key).map Prod.snd).getD 0

def busyStates : List String := ["previewing", "ready", "running", "cancelling"]

def terminalStates : List String := ["completed", "cancelled", "failed", "interrupted"]

/-- What the scheduler reads off a reply that passed the checks. -/
structure Job where
  state : String
  confirmed : Bool
  /-- `job["error"] is not None`. -/
  hasError : Bool
  /-- `expires_ns`, where it is an integer. -/
  expires : Option ℤ
  counts : Counts
  deriving DecidableEq, Repr

/-- `_validate`, for a job whose identity passed; `none` where it raises. -/
def validate (job : Json) : Option Job := do
  let state ← (Json.field "state" job).bind Json.text
  let report ← Json.field "report" job
  let confirmed ← match Json.field "confirmed" job with
    | some (.bool b) => some b
    | _ => none
  let error ← Json.field "error" job
  let root ← (Json.field "root" job).bind Json.text
  let cutoff ← (Json.field "cutoff_ns" job).bind integer
  let counts ← countNames.mapM fun key =>
    ((Json.field key report).bind integer).map fun n => (key, n)
  if state ∈ busyStates ++ terminalStates ∧ (Json.field "root" report).bind Json.text = some root
      ∧ (Json.field "cutoff_ns" report).bind integer = some cutoff
      ∧ ¬ (state ∈ ["previewing", "ready"] ∧ confirmed)
      ∧ ¬ (state ∈ ["running", "completed"] ∧ ¬ confirmed)
  then some ⟨state, confirmed, !error.isNull, (Json.field "expires_ns" job).bind integer, counts⟩
  else none

/-! ## The machine -/

inductive Signal where
  | termination
  | interrupt
  deriving DecidableEq, Repr

inductive Exn where
  | signal (s : Signal)
  /-- `ValueError`, `TypeError` or `OverflowError`. -/
  | badValue
  | client (status : Option ℤ)
  | problem (code : String)
  | other
  deriving DecidableEq, Repr

/-- How the primitive that the machine stands before ended. -/
inductive Reaction where
  /-- A signal; in a request, before or after it went out. -/
  | signal (s : Signal) (sent : Bool)
  /-- The time budget is used up. -/
  | expired
  /-- Within the budget, with the time of day. -/
  | inTime (now : ℤ)
  | reply (job : Json)
  | clientError (status : Option ℤ)
  | badValue
  | otherError

inductive Sent where
  | status (id : Option String)
  | preview (age : String)
  | start (id : String)
  | cancel (id : String)
  deriving DecidableEq, Repr

inductive Outcome where
  | failed
  | skippedBusy
  | dryRun
  | completed
  | cancelUnconfirmed
  deriving DecidableEq, Repr

inductive CleanupState where
  | notRequested
  | unconfirmed
  | reached (state : String)
  deriving DecidableEq, Repr

/-- `ScheduledResult`. -/
structure Result where
  outcome : Outcome
  exitCode : ℕ
  jobId : Option String
  state : Option String
  confirmed : Bool
  cutoffNs : Option ℤ
  counts : Counts
  cleanupState : CleanupState
  errorCode : Option String
  deriving DecidableEq, Repr

def Result.initial : Result :=
  ⟨.failed, 1, none, none, false, none, [], .notRequested, none⟩

inductive Item where
  | sent (request : Sent)
  /-- A validated reply to the creation of a job. -/
  | created (id : String)
  | observed (id : String) (job : Job)
  /-- The time budget of the cleanup was found to be used up. -/
  | budgetOut
  | returned (result : Result)
  deriving DecidableEq, Repr

inductive Stage where
  | opening
  | loop
  | cancel
  /-- The request or its reply was lost: look at the job. -/
  | lost
  | remaining
  | pause
  | poll
  /-- The handler of a signal. -/
  | handler (s : Signal)
  deriving DecidableEq, Repr

inductive Phase where
  | arguments
  | current
  | preview
  | previewCheck
  | previewPause
  | previewPoll
  | start
  | startLost
  | applyCheck
  | applyPause
  | applyPoll
  /-- The last line of the `try` block, with the result complete. -/
  | leaving
  /-- An `except` clause that reads the clock. -/
  | handling (exn : Exn)
  /-- The cleanup, called from the dry run or from the `finally` block. -/
  | cleanup (fromDryRun : Bool) (stage : Stage) (job : Option Job) (acknowledged : Bool)
  | done
  deriving DecidableEq, Repr

structure Config where
  checks : TextChecks
  olderThan : String
  dryRun : Bool
  /-- The limits are finite and positive, and `dry_run` is a Boolean. -/
  limitsOk : Bool

structure State where
  phase : Phase
  owned : Option Identity
  currentRoot : Option String
  /-- The local variable `job`, once it has been observed. -/
  job : Job
  /-- The counts of the preview of a dry run. -/
  estimate : Counts
  result : Result
  /-- An exception is on its way out of the function. -/
  escaping : Bool
  trace : List Item

def State.initial : State :=
  ⟨.arguments, none, none, ⟨"previewing", false, false, none, []⟩, [], .initial, false, []⟩

namespace State

def goto (s : State) (phase : Phase) : State := { s with phase := phase }

def log (s : State) (item : Item) : State := { s with trace := item :: s.trace }

/-- The end of the `finally` block. -/
def finish (s : State) : State :=
  let result := if s.result.cleanupState = .unconfirmed then
    { s.result with outcome := .cancelUnconfirmed } else s.result
  let s := { s with result := result, phase := .done }
  if s.escaping then s else s.log (.returned result)

/-- The beginning of the `finally` block. -/
def finallyBlock (s : State) : State :=
  if s.result.exitCode ≠ 0 ∧ s.owned.isSome ∧ s.result.cleanupState = .notRequested then
    s.goto (.cleanup false .opening none false)
  else s.finish

def signalCode : Signal → ℕ
  | .termination => 143
  | .interrupt => 130

def signalText : Signal → String
  | .termination => "sigterm"
  | .interrupt => "interrupted"

/-- An exception reaches the `except` clauses. -/
def raise (s : State) : Exn → State
  | .signal sig => finallyBlock { s with result := { s.result with
      errorCode := some (signalText sig), exitCode := signalCode sig } }
  | .badValue => finallyBlock { s with result := { s.result with
      errorCode := some "invalid_arguments" } }
  | exn => s.goto (.handling exn)

end State

/-- `_error_code`. -/
def errorCode : Exn → String
  | .problem code => code
  | .client (some code) =>
    if 100 ≤ code ∧ code ≤ 599 then s!"http_{code}" else "client_error"
  | .client none => "client_error"
  | _ => "client_failure"

def Reaction.call : Reaction → Bool × Except Exn Json
  | .signal s sent => (sent, .error (.signal s))
  | .expired => (false, .error (.problem "deadline"))
  | .inTime _ => (true, .error .other)
  | .reply job => (true, .ok job)
  | .clientError status => (true, .error (.client status))
  | .badValue => (true, .error .badValue)
  | .otherError => (true, .error .other)

def Reaction.time : Reaction → Except Exn ℤ
  | .signal s _ => .error (.signal s)
  | .expired => .error (.problem "deadline")
  | .inTime now => .ok now
  | _ => .ok 0

def Reaction.isSignal : Reaction → Bool
  | .signal _ _ => true
  | _ => false

section Steps

variable (cfg : Config)

/-- `call`: the request is logged if it went out. -/
def request (s : State) (sent : Sent) (r : Reaction) : State × Except Exn Json :=
  (if r.call.1 then s.log (.sent sent) else s, r.call.2)

/-- `observe`. -/
def observe (s : State) (reply : Json) : Except Exn (State × Job) :=
  match identity cfg.checks reply with
  | none => .error (.problem "invalid_identity")
  | some id =>
    if some id ≠ s.owned then .error (.problem "identity_changed")
    else match validate reply with
      | none => .error (.problem "invalid_response")
      | some job =>
        if s.result.confirmed ∧ ¬ job.confirmed then .error (.problem "confirmation_changed")
        else
          let result := { s.result with
            state := some job.state, counts := job.counts, confirmed := job.confirmed }
          .ok ({ s with result := result }.log (.observed id.id job), job)

/-- `clean_preview`; the reason it raises, if it does. -/
def cleanPreview (job : Job) (now : ℤ) : Option String :=
  if job.confirmed then some "unexpected_confirmation"
  else if job.hasError ∨ job.counts.of "errors" ≠ 0 ∨ job.counts.of "changed" ≠ 0 then
    some "preview_errors"
  else if job.state ∉ ["previewing", "ready"] then some "preview_state"
  else if job.state = "ready" ∧ ¬ (job.expires.any fun expiry => now < expiry) then
    some "preview_expired"
  else none

def argumentsStep (s : State) (r : Reaction) : State :=
  match r.time with
  | .error (.signal sig) => s.raise (.signal sig)
  | _ => if (durationNs cfg.olderThan).isSome ∧ cfg.limitsOk then s.goto .current
      else s.raise .badValue

def skipBusy (s : State) : State :=
  { s with result := { s.result with outcome := .skippedBusy, exitCode := 0 } }.goto .leaving

def currentStep (s : State) (r : Reaction) : State :=
  let (s, reply) := request s (.status none) r
  match reply with
  | .error (.client status) =>
    if status = some 404 then s.goto .preview else s.raise (.client status)
  | .error exn => s.raise exn
  | .ok reply =>
    match identity cfg.checks reply with
    | none => s.raise (.problem "invalid_identity")
    | some id =>
      match validate reply with
      | none => s.raise (.problem "invalid_response")
      | some job =>
        let s := { s with currentRoot := some id.root }
        if job.state ∈ busyStates then skipBusy s else s.goto .preview

def own (s : State) (id : Identity) : State :=
  { s with
    owned := some id
    result := { s.result with jobId := some id.id, cutoffNs := some id.cutoff } }.log
      (.created id.id)

def previewStep (s : State) (r : Reaction) : State :=
  let (s, reply) := request s (.preview cfg.olderThan) r
  match reply with
  | .error (.client status) =>
    if status = some 409 then skipBusy s else s.raise (.client status)
  | .error exn => s.raise exn
  | .ok reply =>
    match identity cfg.checks reply with
    | none => s.raise (.problem "invalid_identity")
    | some id =>
      if id.age ≠ cfg.olderThan then s.raise (.problem "age_changed")
      else if s.currentRoot ≠ none ∧ s.currentRoot ≠ some id.root then
        s.raise (.problem "root_changed")
      else
        let s := own s id
        match observe cfg s reply with
        | .error exn => s.raise exn
        | .ok (s, job) => { s with job := job }.goto .previewCheck

def previewCheckStep (s : State) (r : Reaction) : State :=
  match r.time with
  | .error exn => s.raise exn
  | .ok now =>
    match cleanPreview s.job now with
    | some code => s.raise (.problem code)
    | none =>
      if s.job.state = "ready" then
        if cfg.dryRun then
          { s with estimate := s.result.counts }.goto (.cleanup true .opening none false)
        else s.goto .start
      else s.goto .previewPause

def pauseStep (next : Phase) (s : State) (r : Reaction) : State :=
  match r.time with
  | .error exn => s.raise exn
  | .ok _ => s.goto next

/-- `job = observe(call(client.status, owned.id))` in one of the two loops. -/
def pollStep (next : Phase) (s : State) (r : Reaction) : State :=
  match s.owned with
  | none => s
  | some id =>
    let (s, reply) := request s (.status (some id.id)) r
    match reply with
    | .error exn => s.raise exn
    | .ok reply =>
      match observe cfg s reply with
      | .error exn => s.raise exn
      | .ok (s, job) => { s with job := job }.goto next

/-- `start` is sent once; if its reply is lost, the job is looked at instead. -/
def startStep (s : State) (r : Reaction) : State :=
  match s.owned with
  | none => s
  | some id =>
    let (s, reply) := request s (.start id.id) r
    match reply with
    | .error (.client _) => s.goto .startLost
    | .error exn => s.raise exn
    | .ok reply =>
      match observe cfg s reply with
      | .error exn => s.raise exn
      | .ok (s, job) => { s with job := job }.goto .applyCheck

def applyCheckStep (s : State) (r : Reaction) : State :=
  match r.time with
  | .error exn => s.raise exn
  | .ok _ =>
    if s.job.hasError then s.raise (.problem "job_error")
    else if ¬ s.job.confirmed ∨ s.job.state ∉ ["running", "completed"] then
      s.raise (.problem "apply_state")
    else if s.job.state = "completed" then
      if s.result.counts.of "errors" ≠ 0 ∨ s.result.counts.of "changed" ≠ 0 then
        s.raise (.problem "apply_errors")
      else { s with result := { s.result with outcome := .completed, exitCode := 0 } }.goto .leaving
    else s.goto .applyPause

def leavingStep (s : State) (r : Reaction) : State :=
  match r.time with
  | .error (.signal sig) => s.raise (.signal sig)
  | _ => s.finallyBlock

def handlingStep (s : State) (exn : Exn) (r : Reaction) : State :=
  match r.time with
  | .error (.signal _) => State.finallyBlock { s with escaping := true }
  | .error _ =>
    State.finallyBlock { s with result := { s.result with errorCode := some "deadline" } }
  | .ok _ =>
    State.finallyBlock { s with result := { s.result with errorCode := some (errorCode exn) } }

/-! ### The cleanup -/

/-- An exception leaves the cleanup: for the `except` clauses in a dry run, out of the function from
the `finally` block. -/
def leaveCleanup (fromDryRun : Bool) (exn : Exn) (s : State) : State :=
  if fromDryRun then s.raise exn else { s with escaping := true }.goto .done

def returnCleanup (fromDryRun confirmed : Bool) (s : State) : State :=
  if fromDryRun then
    if !confirmed then s.raise (.problem "cancel_unconfirmed")
    else if s.result.state ≠ some "cancelled" ∨ s.result.confirmed then
      s.raise (.problem "dry_run_not_cancelled")
    else
      let result := { s.result with counts := s.estimate }
      if result.errorCode ≠ none then { s with result := result }.goto .leaving
      else { s with result := { result with outcome := .dryRun, exitCode := 0 } }.goto .leaving
  else if confirmed then s.finish
  else State.finish { s with result := { s.result with outcome := .cancelUnconfirmed } }

def catchCleanup (fromDryRun : Bool) (job : Option Job) (acknowledged : Bool) (s : State) :
    Exn → State
  | .signal sig => s.goto (.cleanup fromDryRun (.handler sig) job acknowledged)
  | _ => returnCleanup fromDryRun false s

def mustCancel (job : Option Job) (acknowledged : Bool) : Bool :=
  match job with
  | none => true
  | some job => !acknowledged && decide (job.state ∈ ["previewing", "ready", "running"])

def cleanupStep (s : State) (fromDryRun : Bool) (stage : Stage) (job : Option Job)
    (acknowledged : Bool) (r : Reaction) : State :=
  let goto (s : State) (stage : Stage) (job : Option Job) (acknowledged : Bool) : State :=
    s.goto (.cleanup fromDryRun stage job acknowledged)
  match s.owned with
  | none => s
  | some owner =>
    match stage with
    | .opening =>
      match r.time with
      | .error (.signal sig) => leaveCleanup fromDryRun (.signal sig) s
      | _ =>
        goto { s with result := { s.result with cleanupState := .unconfirmed } } .loop none false
    | .loop =>
      match r.time with
      | .error (.signal sig) => leaveCleanup fromDryRun (.signal sig) s
      | .error _ => returnCleanup fromDryRun false (s.log .budgetOut)
      | .ok _ =>
        goto s (if mustCancel job acknowledged then .cancel else .remaining) job acknowledged
    | .cancel =>
      let (s', reply) := request s (.cancel owner.id) r
      match reply with
      | .error (.client _) => goto s' .lost job acknowledged
      | .error (.problem _) => returnCleanup fromDryRun false (s'.log .budgetOut)
      | .error exn => catchCleanup fromDryRun job acknowledged s' exn
      | .ok reply =>
        match observe cfg s' reply with
        | .error exn => catchCleanup fromDryRun job acknowledged s' exn
        | .ok (s', job) => goto s' .remaining (some job) true
    | .lost =>
      let (s', reply) := request s (.status (some owner.id)) r
      match reply with
      | .error exn => catchCleanup fromDryRun job acknowledged s' exn
      | .ok reply =>
        match observe cfg s' reply with
        | .error exn => catchCleanup fromDryRun job acknowledged s' exn
        | .ok (s', job) => goto s' .remaining (some job) acknowledged
    | .remaining =>
      match r.time with
      | .error exn => catchCleanup fromDryRun job acknowledged s exn
      | .ok _ =>
        match job with
        | some current =>
          if current.state ∈ terminalStates then
            returnCleanup fromDryRun true
              { s with result := { s.result with cleanupState := .reached current.state } }
          else goto s .pause job acknowledged
        | none => goto s .pause job acknowledged
    | .pause =>
      match r.time with
      | .error exn => catchCleanup fromDryRun job acknowledged s exn
      | .ok _ => goto s .poll job acknowledged
    | .poll =>
      let (s', reply) := request s (.status (some owner.id)) r
      match reply with
      | .error exn => catchCleanup fromDryRun job acknowledged s' exn
      | .ok reply =>
        match observe cfg s' reply with
        | .error exn => catchCleanup fromDryRun job acknowledged s' exn
        | .ok (s', job) => goto s' .loop (some job) acknowledged
    | .handler sig =>
      match r.time with
      | .error (.signal second) => leaveCleanup fromDryRun (.signal second) s
      | _ =>
        goto { s with result := { s.result with
          errorCode := some (s.result.errorCode.getD (State.signalText sig))
          exitCode := State.signalCode sig } } .loop job acknowledged

def scheduledStep (s : State) (r : Reaction) : State :=
  match s.phase with
  | .arguments => argumentsStep cfg s r
  | .current => currentStep cfg s r
  | .preview => previewStep cfg s r
  | .previewCheck => previewCheckStep cfg s r
  | .previewPause => pauseStep .previewPoll s r
  | .previewPoll => pollStep cfg .previewCheck s r
  | .start => startStep cfg s r
  | .startLost => pollStep cfg .applyCheck s r
  | .applyCheck => applyCheckStep s r
  | .applyPause => pauseStep .applyPoll s r
  | .applyPoll => pollStep cfg .applyCheck s r
  | .leaving => leavingStep s r
  | .handling exn => handlingStep s exn r
  | .cleanup fromDryRun stage job acknowledged =>
    cleanupStep cfg s fromDryRun stage job acknowledged r
  | .done => s

end Steps

end ContextIntelligence.Retention
