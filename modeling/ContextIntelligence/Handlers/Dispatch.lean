import ContextIntelligence.Handlers.Recipes

/-!
# Dispatching an event

`process_event` ensures the session node, offloads blobs, records the event, runs the enrichers that
claim it, and touches the session. An exception ends the event; what it has put into the buffer and
the cursors stays there.
-/

namespace ContextIntelligence.Handlers

open Lib Lib.Effects ContextIntelligence.Graph

def orRaise {α : Type} (result : Except Fault α) : Hook α :=
  match result with
  | .ok a => pure a
  | .error fault => Eff.raise fault

/-- The time of the event, which `make_node_id` parses. -/
def epochOf (env : Env) (timestamp : String) : Except Fault ℤ :=
  match env.fromisoformat timestamp with
  | some t => .ok (env.epochMs t)
  | none => .error .valueError

/-- Blob processing. Without a blob store the payload stays as it is. -/
def offloaded (env : Env) (sessionId : NodeId) (e : Event) (epoch : ℤ) : Except Fault Payload :=
  match env.blobWrite with
  | none => .ok e.data
  | some write =>
    processEventData write sessionId (makeNodeId sessionId e.name epoch none e.identity) e.data

/-- The parsed time and the payload after blob processing. A payload without a timestamp is not
processed; `DefaultHandler` then raises on the time, as it does on one it cannot parse. -/
def prepare (env : Env) (sessionId : NodeId) (e : Event) : Except Fault Occurrence := do
  let timestamp := (e.data.str "timestamp").getD ""
  let epoch ← epochOf env timestamp
  let data ← offloaded env sessionId e epoch
  pure ⟨sessionId, e.name, data, timestamp, epoch, e.identity⟩

/-- The enrichers of `setup_handlers`, in order. -/
def enrichers (env : Env) : List (Occurrence → Hook Unit) :=
  [sessionHandler env, enrich orchestratorRunHandler, enrich iterationHandler,
    enrich (contentBlockHandler env), enrich toolCallHandler, enrich promptHandler,
    enrich cancellationHandler, enrich contextCompactionHandler, delegationHandler env,
    enrich skillLoadHandler, recipeRunHandler env, enrich (recipeStepHandler env)]

def runAll (hooks : List (Hook Unit)) : Hook Unit :=
  hooks.foldr (fun hook rest => do hook; rest) (pure ())

/-- `process_event`, for an event of the session. -/
def processEvent (env : Env) (sessionId : NodeId) (e : Event) : Hook Unit := do
  ensureSessionNode sessionId e.data e.workingDir
  let o ← orRaise (prepare env sessionId e)
  performAll (defaultHandler env o)
  runAll ((enrichers env).map fun enricher => enricher o)
  touchSession env sessionId o.timestamp

/-! ## A small server -/

def sampleEnv : Env where
  workspace := "default"
  createdBy := none
  fromisoformat := fun s => Assoc.get s
    [("2026-01-01T00:00:00+00:00", ⟨true, 0⟩), ("2026-01-01T00:00:01+00:00", ⟨true, 1000000⟩)]
  epochMs := fun t => t.micros / 1000
  dumps := fun _ => ""
  containerText := fun _ => ""
  blobWrite := none
  delegationOf := fun _ _ => none

def sampleEvent (name timestamp : String) : Event where
  name := name
  data := [("timestamp", .str timestamp)]
  workingDir := none
  identity := none

end ContextIntelligence.Handlers
