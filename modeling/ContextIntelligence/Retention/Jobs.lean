import ContextIntelligence.Lib.Runs

/-!
# Retention jobs

`RetentionService` keeps one job: a preview that becomes ready, is started after a confirmation and
unlinks payloads batch by batch. From its confirmation on a snapshot is kept in a file; a job found
unfinished there is marked interrupted. The task is given by its awaits, the work of the thread
split where a crash or a failure makes a difference. The trace is newest first.
-/

namespace ContextIntelligence.RetentionJobs

/-! ## Jobs and snapshots -/

inductive JobState where
  | previewing
  | ready
  | running
  | cancelling
  | completed
  | cancelled
  | failed
  | interrupted
  deriving DecidableEq, Repr

/-- `TERMINAL`. -/
def terminal : List JobState := [.completed, .cancelled, .failed, .interrupted]

structure Job where
  /-- A UUID, so none is given twice. -/
  id : ℕ
  root : String
  state : JobState
  confirmed : Bool
  cutoffNs : ℤ
  deriving DecidableEq, Repr

/-- What `_save` writes: the job and, from its report, the cutoff. -/
structure Snapshot where
  job : Job
  reportCutoffNs : ℤ
  deriving DecidableEq, Repr

inductive Item where
  | previewed (id : ℕ) (cutoffNs : ℤ)
  | confirmed (id : ℕ)
  /-- A save returned: the file was replaced and synced. -/
  | recorded (snapshot : Snapshot)
  /-- A payload was unlinked for the job, under the cutoff of the report. -/
  | unlinked (id : ℕ) (cutoffNs : ℤ)
  | restarted
  deriving DecidableEq, Repr

/-! ## The service -/

/-- The loop of `_apply` that runs a batch: over the items of a recovery page, with the batches left
and whether the page was full, or over the scan windows, with whether the last is done. -/
inductive Loop where
  | items (left : ℕ) (full : Bool)
  | windows (last : Bool)
  deriving DecidableEq, Repr

/-- The three calls of `_save` in `_apply`. -/
inductive SavePoint where
  | checkpoint
  | batch (loop : Loop)
  /-- `_terminal` holds the outcome. -/
  | final (outcome : JobState)
  deriving DecidableEq, Repr

inductive Writing where
  | queued
  | taken (body : Snapshot)
  | replaced (body : Snapshot)
  deriving DecidableEq, Repr

/-- Where the task of the job waits; `idle` when there is none or it is done. -/
inductive Task where
  | idle
  | validating
  | previewWindow
  | previewSleep (last : Bool)
  | save (point : SavePoint) (writing : Writing)
  | ledger
  | page
  | pageSleep
  | window
  | windowSleep (last : Bool)
  /-- `admitted` is what the thread found when it began. -/
  | batch (loop : Loop) (admitted : Option Bool)
  | batchSleep (loop : Loop)
  deriving DecidableEq, Repr

structure Service where
  path : String
  job : Option Job
  reportCutoffNs : ℤ
  task : Task
  cancelRequested : Bool
  accepting : Bool
  deriving DecidableEq, Repr

structure State where
  /-- The service of the running process. -/
  service : Option Service
  /-- The file `current-job.json`. -/
  snapshot : Option Snapshot
  nextId : ℕ
  trace : List Item
  deriving DecidableEq, Repr

def State.initial : State := ⟨none, none, 0, []⟩

def State.put (s : State) (service : Service) : State := { s with service := some service }

def State.log (s : State) (item : Item) : State := { s with trace := item :: s.trace }

variable (service : Service)

def Service.goto (task : Task) : Service := { service with task := task }

def Service.become (job : Job) (state : JobState) (task : Task) : Service :=
  { service with job := some { job with state := state }, task := task }

/-! ## The task of a preview -/

/-- The head of the loop of `_scan` in `_preview`, and what follows it. -/
def previewHead (job : Job) (last clockOk : Bool) : Service :=
  if last ∨ service.cancelRequested then
    service.become job (if service.cancelRequested then .cancelled else .ready) .idle
  else if clockOk then service.goto .previewWindow
  else service.become job .failed .idle

/-! ## The task of a confirmed job -/

/-- The end of `_apply`: the outcome is saved before it is published. -/
def finalize (outcome : JobState) : Service :=
  service.goto (.save (.final outcome) .queued)

/-- The head of the loop of `_scan` in `_apply`, and what follows it. -/
def windowsHead (last clockOk : Bool) : Service :=
  if !clockOk then finalize service .failed
  else if last ∨ service.cancelRequested then
    finalize service (if service.cancelRequested then .cancelled else .completed)
  else service.goto .window

/-- The start of `_batch`. -/
def batchHead (loop : Loop) (clockOk : Bool) : Service :=
  if clockOk then service.goto (.batch loop none) else finalize service .failed

def pagesHead (clockOk : Bool) : Service :=
  if service.cancelRequested then windowsHead service false clockOk
  else if clockOk then service.goto .page
  else finalize service .failed

def itemsHead (left : ℕ) (full clockOk : Bool) : Service :=
  match left with
  | 0 => if full then service.goto .pageSleep else windowsHead service false clockOk
  | left + 1 =>
    if service.cancelRequested then
      if full then service.goto .pageSleep else windowsHead service false clockOk
    else batchHead service (.items left full) clockOk

def loopHead (loop : Loop) (clockOk : Bool) : Service :=
  match loop with
  | .items left full => itemsHead service left full clockOk
  | .windows last => windowsHead service last clockOk

def savedStep (job : Job) (point : SavePoint) : Service :=
  match point with
  | .checkpoint => { service with reportCutoffNs := job.cutoffNs, task := .ledger }
  | .batch loop => service.goto (.batchSleep loop)
  | .final outcome => service.become job outcome .idle

def unsavedStep (job : Job) (point : SavePoint) : Service :=
  match point with
  | .checkpoint | .batch _ => finalize service .failed
  | .final _ => service.become job .failed .idle

/-! ## The maintenance thread -/

def saveBody (job : Job) (point : SavePoint) : Snapshot :=
  match point with
  | .final outcome => ⟨{ job with state := outcome }, service.reportCutoffNs⟩
  | .checkpoint | .batch _ => ⟨job, service.reportCutoffNs⟩

/-- The thread begins: a save takes its body, a batch reads the cancellation. -/
def beginStep (job : Job) : Service :=
  match service.task with
  | .save point .queued => service.goto (.save point (.taken (saveBody service job point)))
  | .batch loop none => service.goto (.batch loop (some (!service.cancelRequested)))
  | _ => service

/-- `os.replace`. -/
def replaceStep (s : State) (service : Service) : State :=
  match service.task with
  | .save point (.taken body) =>
    { s.put (service.goto (.save point (.replaced body))) with snapshot := some body }
  | _ => s

def unlinkStep (s : State) (service : Service) (job : Job) : State :=
  match service.task with
  | .batch _ (some true) => s.log (.unlinked job.id service.reportCutoffNs)
  | _ => s

inductive Answer where
  | raised
  | done
  /-- A recovery page: its batches, and whether it was full. -/
  | page (batches : ℕ) (full : Bool)
  /-- A window: whether it has candidates, and whether it was the last. -/
  | window (items last : Bool)
  deriving DecidableEq, Repr

/-- The task goes on after what it awaited; `clockOk` is the clock check on the way to the next
point, if there is one. -/
def resumeStep (s : State) (service : Service) (job : Job) (answer : Answer) (clockOk : Bool) :
    State :=
  match service.task, answer with
  | .idle, _ => s
  | .validating, .done => s.put (previewHead service job false clockOk)
  | .previewWindow, .window _ last => s.put (service.goto (.previewSleep last))
  | .validating, .raised | .previewWindow, .raised => s.put (service.become job .failed .idle)
  | .previewSleep last, .done => s.put (previewHead service job last clockOk)
  | .save point (.replaced body), .done =>
    (s.log (.recorded body)).put (savedStep service job point)
  | .save point _, .raised => s.put (unsavedStep service job point)
  | .ledger, .done => s.put (pagesHead service clockOk)
  | .page, .page batches full => s.put (itemsHead service batches full clockOk)
  | .pageSleep, .done => s.put (pagesHead service clockOk)
  | .window, .window items last =>
    s.put (if items ∧ !service.cancelRequested then batchHead service (.windows last) clockOk
      else service.goto (.windowSleep last))
  | .windowSleep last, .done => s.put (windowsHead service last clockOk)
  | .batch loop (some _), .done => s.put (service.goto (.save (.batch loop) .queued))
  | .batchSleep loop, .done => s.put (loopHead service loop clockOk)
  | .ledger, .raised | .page, .raised | .window, .raised | .batch _ _, .raised =>
    s.put (finalize service .failed)
  | _, _ => s

/-! ## Control calls -/

/-- `preview`; no cutoff where the age is refused. -/
def preview (s : State) (service : Service) (cutoffNs : Option ℤ) : State :=
  if !service.accepting ∨ service.task ≠ .idle
      ∨ (service.job.any fun job => decide (job.state ∉ terminal)) then s
  else
    match cutoffNs with
    | none => s
    | some cutoffNs =>
      { (s.log (.previewed s.nextId cutoffNs)).put { service with
          job := some ⟨s.nextId, service.path, .previewing, false, cutoffNs⟩
          reportCutoffNs := cutoffNs
          task := .validating
          cancelRequested := false } with
        nextId := s.nextId + 1 }

/-- `start`; `inTime` is whether the preview has not expired. -/
def start (s : State) (service : Service) (job : Job) (confirmation : String)
    (clockOk inTime : Bool) : State :=
  if !service.accepting ∨ job.state ≠ .ready then s
  else if confirmation ≠ "prune" then s
  else if !clockOk then s.put (service.become job .failed service.task)
  else if !inTime then s
  else
    (s.log (.confirmed job.id)).put
      (service.become { job with confirmed := true } .running (.save .checkpoint .queued))

/-- `_terminal` is set while the outcome is being saved. -/
def Task.finalizing : Task → Bool
  | .save (.final _) _ => true
  | _ => false

def cancel (job : Job) : Service :=
  if job.state ∉ terminal ∧ !service.task.finalizing then
    { service.become job (if job.state = .ready then .cancelled else .cancelling) service.task with
      cancelRequested := true }
  else service

def stop : Service :=
  match service.job with
  | none => { service with accepting := false }
  | some job => cancel { service with accepting := false } job

/-- How the save in `_load` ends: it raises before or after the file was replaced, or it returns. -/
inductive SaveResult where
  | lost
  | replaced
  | saved
  deriving DecidableEq, Repr

def Service.opened (path : String) (loaded : Option Snapshot) : Service :=
  ⟨path, loaded.map Snapshot.job, (loaded.map Snapshot.reportCutoffNs).getD 0, .idle, false, true⟩

/-- The states a snapshot may have; one from another root may only be finished history. -/
def loadable (found : Snapshot) (path : String) : List JobState :=
  if found.job.root ≠ path then terminal else terminal ++ [.running, .cancelling]

def Snapshot.interrupt (found : Snapshot) : Snapshot :=
  { found with job := { found.job with state := .interrupted } }

/-- The end of `_load` for a job that was not finished; where the save raises, so does `open`. -/
def interrupt (s : State) (path : String) (found : Snapshot) (result : SaveResult) : State :=
  let replaced := { s with snapshot := some found.interrupt }
  match result with
  | .lost => s
  | .replaced => replaced
  | .saved => (replaced.log (.recorded found.interrupt)).put (.opened path (some found.interrupt))

/-- `_load`, in a process that opens the directory at `path`; `readable` is whether the metadata and
the file pass their checks and have the right form. -/
def load (s : State) (path : String) (readable : Bool) (result : SaveResult) : State :=
  if !readable then s
  else
    match s.snapshot with
    | none => s.put (.opened path none)
    | some found =>
      if found.job.state ∉ loadable found path ∨ !found.job.confirmed then s
      else if found.job.root ≠ path then s.put (.opened path none)
      else if found.job.state ∈ terminal then s.put (.opened path (some found))
      else interrupt s path found result

/-! ## Runs -/

inductive Event where
  | preview (cutoffNs : Option ℤ)
  | start (id : ℕ) (confirmation : String) (clockOk inTime : Bool)
  | cancel (id : ℕ)
  | stop
  /-- The maintenance thread begins the awaited work. -/
  | begins
  | replaces
  | unlinks
  | resumes (answer : Answer) (clockOk : Bool)
  | crash
  | restart (path : String) (readable : Bool) (result : SaveResult)
  deriving DecidableEq, Repr

def jobStep (s : State) (service : Service) (job : Job) : Event → State
  | .start id confirmation clockOk inTime =>
    if job.id = id then start s service job confirmation clockOk inTime else s
  | .cancel id => if job.id = id then s.put (cancel service job) else s
  | .begins => s.put (beginStep service job)
  | .replaces => replaceStep s service
  | .unlinks => unlinkStep s service job
  | .resumes answer clockOk => resumeStep s service job answer clockOk
  | _ => s

/-- An event while the service runs. A second process cannot take the lock of the root. -/
def serviceStep (s : State) (service : Service) : Event → State
  | .crash => { s with service := none }
  | .restart _ _ _ => s
  | .preview cutoffNs => preview s service cutoffNs
  | .stop => s.put (stop service)
  | e =>
    match service.job with
    | none => s
    | some job => jobStep s service job e

def step (s : State) (e : Event) : State :=
  match s.service with
  | some service => serviceStep s service e
  | none =>
    match e with
    | .restart path readable result => load (s.log .restarted) path readable result
    | _ => s

end ContextIntelligence.RetentionJobs
