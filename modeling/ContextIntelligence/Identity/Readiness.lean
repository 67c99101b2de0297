import ContextIntelligence.Lib.Runs

/-!
# Readiness of the identity store

The initialization of an `_IdentityRuntime` and the health probes run in threads and outlive whoever
waits for them; shutdown waits for both. An action is what one thread does without letting the
others in. Timeouts, cancellations and outcomes are choices of the action. A probe is settled when
the loop has run its completion callback, and the initialization likewise.
-/

namespace ContextIntelligence.Identity.Readiness

/-! ## The state -/

inductive IdentityState where
  | initializing
  | ready
  | unavailable
  deriving DecidableEq, Repr

/-- `app.state`. A configuration of the application is given by its token, which also stands for its
store; a runtime by its number. -/
structure App where
  current : Nat
  configToken : Nat
  readyToken : Option Nat
  storeOwned : Bool
  identityState : IdentityState
  closing : Bool
  lifespanActive : Bool
  failureDetected : Nat → Bool

/-- How the action of a probe ended: `interrupted` with a `BaseException` that is no `Exception`;
`cancelled` is a dispatch that was aborted before the action began. -/
inductive Outcome where
  | healthy
  | unhealthy
  | raised
  | interrupted
  | cancelled
  deriving DecidableEq, Repr

inductive Probe where
  | queued
  | running
  | finished (o : Outcome)
  | settled (o : Outcome)
  deriving DecidableEq, Repr

inductive Reply where
  | pending
  | returned (answer : Bool)
  | raised
  deriving DecidableEq, Repr

/-- A call of `_verify_identity_runtime`: waiting for a slot, with a submitted probe, or ended
without one. -/
inductive Verification where
  | waiting
  | submitted (reply : Reply) (probe : Probe)
  | ended (reply : Reply)
  deriving DecidableEq, Repr

/-- What `_start_identity_ownership` leaves: it was aborted before it began, returned `None` or the
owner, which has a lock unless the store is unselected, or raised. -/
inductive InitResult where
  | aborted
  | nothing
  | owned (locked : Bool)
  | raised
  deriving DecidableEq, Repr

/-- Where the initialization stands: `owning` has published the owner and not taken the lock,
`loading` has taken it, `failing` is about to stop the store and release, `released` has done so,
`loaded` is about to publish readiness. -/
inductive Init where
  | absent
  | queued
  | started
  | owning (locked : Bool)
  | loading (locked : Bool)
  | failing (reraise : Bool)
  | released (reraise : Bool)
  | loaded (locked : Bool)
  | published (locked : Bool)
  | finished (r : InitResult)
  | settled (r : InitResult)
  deriving DecidableEq, Repr

inductive Lock where
  | free
  | held
  | releasedByInit
  | releasedByCleanup
  deriving DecidableEq, Repr

/-- Where `_identity_lifespan` stands; `off` is a runtime that only the factory made. -/
inductive Lifespan where
  | off
  | opened
  | waitInit
  | waitProbes
  | waitDrained
  | cleanup
  | cleaning
  | stopped (ok : Bool)
  | closed
  deriving DecidableEq, Repr

/-- `_IdentityRuntime`, with the verifications that were started for it. -/
structure Runtime where
  token : Nat
  closing : Bool
  admitted : Nat
  slots : Nat
  drained : Bool
  verifications : List Verification
  init : Init
  observerCancelled : Bool
  owned : Bool
  lock : Lock
  lifespan : Lifespan
  deriving DecidableEq, Repr

structure State where
  app : App
  runtimes : List Runtime

/-- `_IDENTITY_PROBE_CONCURRENCY`. -/
def probeConcurrency : Nat := 4

/-- `_IDENTITY_MAX_ADMITTED`. -/
def maxAdmitted : Nat := 36

/-- A new `_IdentityRuntime`. -/
def Runtime.fresh (token : Nat) : Runtime :=
  ⟨token, false, 0, probeConcurrency, true, [], .absent, false, false, .free, .off⟩

/-! ## Readiness -/

abbrev View := App × Runtime

/-- `_set_identity_state` for a runtime: one that is not current any more is ignored, and readiness
is refused to one that closes. -/
def setIdentityState (i : Nat) (new : IdentityState) (owned : Bool) (x : View) : View :=
  if x.1.current = i ∧ x.1.configToken = x.2.token then
    let new := if new = .ready ∧ (x.1.closing || x.2.closing || x.2.observerCancelled)
      then .unavailable else new
    ({ x.1 with
        readyToken := if new = .ready then some x.2.token else none
        storeOwned := owned && new = .ready
        identityState := new }, x.2)
  else x

/-- `_close_identity_runtime`. -/
def close (i : Nat) (x : View) : View :=
  let app := if x.1.current = i ∧ x.1.configToken = x.2.token then { x.1 with closing := true }
    else x.1
  setIdentityState i .unavailable false (app, { x.2 with closing := true })

/-- `_publish_identity_failure`. -/
def publishFailure (i : Nat) (x : View) : View :=
  if x.1.failureDetected x.2.token && x.1.identityState = .ready then
    setIdentityState i .unavailable false x
  else x

/-- What `_identity_runtime_ready` does before it answers. -/
def refresh (i : Nat) (x : View) : View :=
  publishFailure i (if x.2.observerCancelled then close i x else x)

/-- The answer of `_identity_runtime_ready`. -/
def isReady (i : Nat) (x : View) : Bool :=
  x.1.current = i && x.1.configToken = x.2.token && x.1.readyToken = some x.2.token
    && x.1.identityState = .ready && !x.1.closing && !x.2.closing
    && !x.1.failureDetected x.2.token

/-! ## Verifications -/

/-- What becomes of a dispatch: it is accepted; it raises and the abort wins; it raises although the
action has begun. -/
inductive Dispatch where
  | accepted
  | aborted
  | claimed
  deriving DecidableEq, Repr

/-- The accounts with one verification more that waits for a slot. -/
def Runtime.enter (rt : Runtime) : Runtime :=
  { rt with
    admitted := rt.admitted + 1
    drained := false
    verifications := rt.verifications ++ [.waiting] }

/-- `_identity_admission_finished`. -/
def Runtime.admissionFinished (rt : Runtime) : Runtime :=
  { rt with admitted := rt.admitted - 1, drained := rt.drained || rt.admitted - 1 = 0 }

def Runtime.put (j : Nat) (v : Verification) (rt : Runtime) : Runtime :=
  { rt with verifications := rt.verifications.set j v }

def Runtime.leave (j : Nat) (reply : Reply) (rt : Runtime) : Runtime :=
  (rt.put j (.ended reply)).admissionFinished

/-- The call that a failed dispatch ends in: `False`, or the error if it is no `Exception`. -/
def dispatchReply (isException : Bool) : Reply := if isException then .returned false else .raised

/-- A verification that has got its slot: it checks readiness and the deadline again and submits its
probe. -/
def proceed (i j : Nat) (late : Bool) (dispatch : Dispatch) (isException : Bool) (x : View) :
    View :=
  let x := refresh i x
  if isReady i x && !late then
    let taken := { x.2 with slots := x.2.slots - 1 }
    match dispatch with
    | .accepted => (x.1, taken.put j (.submitted .pending .queued))
    | .aborted =>
      close i (x.1, taken.put j (.submitted (dispatchReply isException) (.finished .cancelled)))
    | .claimed => close i (x.1, taken.put j (.submitted (dispatchReply isException) .running))
  else (x.1, x.2.leave j (.returned false))

/-- `_verify_identity_runtime` up to its first suspension. With `behind` the semaphore lets it wait
although a slot is free, because others wait already. -/
def verify (i : Nat) (behind late : Bool) (dispatch : Dispatch) (isException : Bool) (x : View) :
    View :=
  let x := refresh i x
  if isReady i x then
    if !x.1.storeOwned then
      (x.1, { x.2 with verifications := x.2.verifications ++ [.ended (.returned true)] })
    else if maxAdmitted ≤ x.2.admitted then
      (x.1, { x.2 with verifications := x.2.verifications ++ [.ended (.returned false)] })
    else
      let entered := (x.1, x.2.enter)
      if 0 < x.2.slots ∧ !behind then
        proceed i x.2.verifications.length late dispatch isException entered
      else entered
  else (x.1, { x.2 with verifications := x.2.verifications ++ [.ended (.returned false)] })

/-- `slots.acquire` returns to a waiting verification. -/
def grant (i j : Nat) (late : Bool) (dispatch : Dispatch) (isException : Bool) (x : View) : View :=
  if x.2.verifications[j]? = some .waiting ∧ 0 < x.2.slots then
    proceed i j late dispatch isException x
  else x

def giveUp (j : Nat) (cancelled : Bool) (x : View) : View :=
  if x.2.verifications[j]? = some .waiting then
    (x.1, x.2.leave j (if cancelled then .raised else .returned false))
  else x

inductive Resume where
  | timedOut
  | cancelled
  | done (late : Bool)
  deriving DecidableEq, Repr

/-- A verification behind `asyncio.wait`. -/
def resume (i j : Nat) (r : Resume) (x : View) : View :=
  match x.2.verifications[j]? with
  | some (.submitted .pending probe) =>
    match r, probe with
    | .timedOut, _ => (x.1, x.2.put j (.submitted (.returned false) probe))
    | .cancelled, _ => (x.1, x.2.put j (.submitted .raised probe))
    | .done late, .finished .healthy | .done late, .settled .healthy =>
      if late then (x.1, x.2.put j (.submitted (.returned false) probe))
      else
        let x := refresh i x
        (x.1, x.2.put j (.submitted (.returned (isReady i x)) probe))
    | .done late, .finished .interrupted | .done late, .settled .interrupted =>
      (x.1, x.2.put j (.submitted (if late then .returned false else .raised) probe))
    | .done _, .finished _ | .done _, .settled _ =>
      (x.1, x.2.put j (.submitted (.returned false) probe))
    | .done _, _ => x
  | _ => x

def probeThread (j : Nat) (o : Outcome) (x : View) : View :=
  match x.2.verifications[j]? with
  | some (.submitted reply .queued) => (x.1, x.2.put j (.submitted reply .running))
  | some (.submitted reply .running) => (x.1, x.2.put j (.submitted reply (.finished o)))
  | _ => x

/-- `_identity_probe_done`. -/
def settleProbe (i j : Nat) (x : View) : View :=
  match x.2.verifications[j]? with
  | some (.submitted reply (.finished o)) =>
    let x := if o = .unhealthy ∨ o = .raised then setIdentityState i .unavailable false x else x
    let rt := x.2.put j (.submitted reply (.settled o))
    (x.1, { rt with slots := rt.slots + 1 }.admissionFinished)
  | _ => x

/-! ## Initialization -/

inductive InitChoice where
  | goOn
  | unselected
  | selectionFails
  | fails (reraise : Bool)
  deriving DecidableEq, Repr

/-- The next step of `_start_identity_ownership` in its thread. -/
def initThread (i : Nat) (c : InitChoice) (x : View) : View :=
  let goto (init : Init) : View := (x.1, { x.2 with init := init })
  match x.2.init, c with
  | .queued, _ => goto .started
  | .started, .selectionFails =>
    setIdentityState i .unavailable false (x.1, { x.2 with init := .finished .nothing })
  | .started, .fails _ => goto (.finished .raised)
  | .started, .goOn => (x.1, { x.2 with owned := true, init := .owning true })
  | .started, .unselected => (x.1, { x.2 with owned := true, init := .owning false })
  | .owning _, .fails reraise => goto (.failing reraise)
  | .owning locked, _ =>
    (x.1, { x.2 with lock := if locked then .held else x.2.lock, init := .loading locked })
  | .loading _, .fails reraise => goto (.failing reraise)
  | .loading locked, _ => goto (.loaded locked)
  -- `store.stop` raises: the owner stays published and the lock is kept
  | .failing _, .fails _ => goto (.finished .raised)
  | .failing reraise, _ =>
    (x.1, { x.2 with
      lock := if x.2.lock = .held then .releasedByInit else x.2.lock
      owned := false
      init := .released reraise })
  | .released false, _ =>
    setIdentityState i .unavailable false (x.1, { x.2 with init := .finished .nothing })
  | .released true, _ => goto (.finished .raised)
  | .loaded locked, _ =>
    setIdentityState i .ready locked (x.1, { x.2 with init := .published locked })
  | .published locked, _ => goto (.finished (.owned locked))
  | _, _ => x

/-- `_identity_init_done`. -/
def settleInit (i : Nat) (x : View) : View :=
  match x.2.init with
  | .finished r =>
    let x := (x.1, { x.2 with init := .settled r })
    if r = .raised then setIdentityState i .unavailable false x else x
  | _ => x

/-! ## The lifespan -/

def Probe.isSettled : Probe → Bool
  | .settled _ => true
  | _ => false

def Verification.unsettled : Verification → Bool
  | .submitted _ probe => !probe.isSettled
  | _ => false

inductive LifespanChoice where
  | goOn
  | fails
  deriving DecidableEq, Repr

/-- The next step of `_identity_lifespan` behind its `yield`. A choice `fails` is a cancelled wait
for `drained`, a cleanup that could not be started, or one whose `store.stop` raised. -/
def lifespanStep (i : Nat) (c : LifespanChoice) (x : View) : View :=
  let goto (lifespan : Lifespan) : View := (x.1, { x.2 with lifespan := lifespan })
  match x.2.lifespan, c with
  | .opened, _ => close i (goto .waitInit)
  | .waitInit, _ =>
    match x.2.init with
    | .settled _ => goto .waitProbes
    | _ => x
  | .waitProbes, _ => if x.2.verifications.any Verification.unsettled then x else goto .waitDrained
  | .waitDrained, c =>
    if x.2.drained || c = .fails then
      match x.2.init with
      | .settled (.owned _) => goto .cleanup
      | _ =>
        if x.2.owned then goto .closed
        else ({ x.1 with lifespanActive := false }, { x.2 with lifespan := .closed })
    else x
  | .cleanup, .goOn => goto .cleaning
  | .cleanup, .fails => goto (.stopped false)
  | .cleaning, .fails => close i (goto (.stopped false))
  | .cleaning, .goOn =>
    close i (x.1, { x.2 with
      lock := if x.2.lock = .held then .releasedByCleanup else x.2.lock
      owned := false
      lifespan := .stopped true })
  | .stopped ok, _ =>
    ({ x.1 with lifespanActive := if ok then false else x.1.lifespanActive },
      { x.2 with lifespan := .closed })
  | _, _ => x

def cancelObserver (x : View) : View := (x.1, { x.2 with observerCancelled := true })

def observerNotices (i : Nat) (x : View) : View := if x.2.observerCancelled then close i x else x

/-! ## Actions -/

inductive Event where
  | verify (behind late : Bool) (dispatch : Dispatch) (isException : Bool)
  | grant (j : Nat) (late : Bool) (dispatch : Dispatch) (isException : Bool)
  | giveUp (j : Nat) (cancelled : Bool)
  | resume (j : Nat) (r : Resume)
  | probeThread (j : Nat) (o : Outcome)
  | settleProbe (j : Nat)
  | initThread (c : InitChoice)
  | settleInit
  | lifespan (c : LifespanChoice)
  | cancelObserver
  | observerNotices
  deriving DecidableEq, Repr

def Event.act (i : Nat) : Event → View → View
  | .verify behind late dispatch isException => Readiness.verify i behind late dispatch isException
  | .grant j late dispatch isException => Readiness.grant i j late dispatch isException
  | .giveUp j cancelled => Readiness.giveUp j cancelled
  | .resume j r => Readiness.resume i j r
  | .probeThread j o => Readiness.probeThread j o
  | .settleProbe j => Readiness.settleProbe i j
  | .initThread c => Readiness.initThread i c
  | .settleInit => Readiness.settleInit i
  | .lifespan c => Readiness.lifespanStep i c
  | .cancelObserver => Readiness.cancelObserver
  | .observerNotices => Readiness.observerNotices i

/-- `on` is an event of a runtime; `begin` a lifespan that starts, with the dispatch of its
initialization; `configure` a call of the application factory; `latch` a change of the failure flag
of a store. -/
inductive Action where
  | on (i : Nat) (e : Event)
  | begin (dispatch : Dispatch)
  | configure
  | latch (token : Nat) (failed : Bool)
  deriving DecidableEq, Repr

/-- The runtime of a lifespan whose initialization has been dispatched. -/
def dispatched (token : Nat) : Dispatch → Runtime
  | .accepted => { Runtime.fresh token with init := .queued, lifespan := .opened }
  | .aborted =>
    { Runtime.fresh token with
      init := .finished .aborted, lifespan := .waitInit, closing := true }
  | .claimed =>
    { Runtime.fresh token with init := .started, lifespan := .waitInit, closing := true }

/-- A lifespan starts, unless one is active: the runtime it replaces is closed for good. -/
def begin (dispatch : Dispatch) (s : State) : State :=
  if s.app.lifespanActive then s
  else
    ⟨{ s.app with
        current := s.runtimes.length
        readyToken := none
        storeOwned := false
        identityState := if dispatch = .accepted then .initializing else .unavailable
        closing := dispatch ≠ .accepted
        lifespanActive := true },
      s.runtimes.modify s.app.current (fun rt => { rt with closing := true })
        ++ [dispatched s.app.configToken dispatch]⟩

def configure (s : State) : State :=
  ⟨{ s.app with
      current := s.runtimes.length
      configToken := s.app.configToken + 1
      readyToken := none
      storeOwned := false
      identityState := .initializing
      closing := false },
    s.runtimes ++ [Runtime.fresh (s.app.configToken + 1)]⟩

def step (s : State) : Action → State
  | .on i e =>
    match s.runtimes[i]? with
    | none => s
    | some rt =>
      let y := e.act i (s.app, rt)
      ⟨y.1, s.runtimes.set i y.2⟩
  | .begin dispatch => begin dispatch s
  | .configure => configure s
  | .latch token failed =>
    ⟨{ s.app with failureDetected := Function.update s.app.failureDetected token failed },
      s.runtimes⟩

def start : State :=
  ⟨⟨0, 0, none, false, .initializing, false, false, fun _ => false⟩, [Runtime.fresh 0]⟩

end ContextIntelligence.Identity.Readiness
