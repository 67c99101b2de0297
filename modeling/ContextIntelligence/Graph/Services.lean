import ContextIntelligence.Graph.Store
import ContextIntelligence.Lib.Effects

/-!
# The state of a worker and its session node

Each session has a worker with its own store buffer, its cache of sessions it has seen, and the
cursors by which the handlers of one event find what an earlier event created. Only reads can fail
while an event is dispatched: a `Neo4jError` is taken for an absent node, every other error is
raised.
-/

namespace ContextIntelligence.Graph

open Lib Lib.Effects

/-! ## The worker -/

structure DataLayer2State where
  executionStartTs : Option String
  activeIterationId : Option NodeId
  pendingToolBlockIds : Dict String NodeId
  lastPromptId : Option NodeId
  lastCompletedOrchRunId : Option NodeId
  iterationCount : ℕ

structure DataLayer3State where
  activeRecipeRunStack : List NodeId
  activeRecipeStepId : Option NodeId

/-- What a worker keeps in memory between two events: the cache of seen sessions, the cursors of the
two layers, and the state of single handlers. -/
structure Cursors where
  seenSessions : Finset NodeId
  layer2 : DataLayer2State
  layer3 : DataLayer3State
  toolGroups : Dict String (List NodeId)
  delegationGroups : Dict String (List NodeId)
  activeSkillNodes : Dict String NodeId

def Cursors.fresh : Cursors where
  seenSessions := ∅
  layer2 := ⟨none, none, Dict.empty, none, none, 0⟩
  layer3 := ⟨[], none⟩
  toolGroups := Dict.empty
  delegationGroups := Dict.empty
  activeSkillNodes := Dict.empty

inductive ReadFate where
  | ok
  | neo4jError
  | raised
  deriving DecidableEq, Repr

inductive Fault where
  | valueError
  | typeError
  | attributeError
  | driverError
  deriving DecidableEq, Repr

/-- A worker on its database, with the fates of the reads to come; when they are used up, reads
succeed. -/
structure World where
  cursors : Cursors
  buffer : Buffer
  db : Database
  fates : List ReadFate

abbrev Hook (α : Type) := Eff World Fault α

namespace World

def onBuffer (f : Buffer → Buffer) (w : World) : World := { w with buffer := f w.buffer }

def onCursors (f : Cursors → Cursors) (w : World) : World := { w with cursors := f w.cursors }

def markSeen (id : NodeId) (w : World) : World :=
  w.onCursors fun c => { c with seenSessions := insert id c.seenSessions }

def flush (env : Env) (w : World) : World :=
  { w with buffer := Buffer.empty, db := w.db.flush env w.buffer }

/-- `discard_buffer`. -/
def discardBuffer (w : World) : World := { w with buffer := Buffer.empty }

end World

/-! ## Reading and writing the graph -/

def readDb {α : Type} (query : Database → Option α) : Hook (Option α) := fun w =>
  match w.fates with
  | [] => (.ok (query w.db), w)
  | .ok :: rest => (.ok (query w.db), { w with fates := rest })
  | .neo4jError :: rest => (.ok none, { w with fates := rest })
  | .raised :: rest => (.error .driverError, { w with fates := rest })

/-- `get_node`: the buffered part alone if there is one, else the stored node. -/
def getNode (id : NodeId) : Hook (Option Node) := fun w =>
  match w.buffer.nodes.get id with
  | some fragment => (.ok (some fragment), w)
  | none => readDb (fun db => db.nodes id) w

def upsertNode (id : NodeId) (labels : Finset String) (fields : List (String × Value)) :
    Hook Unit :=
  Eff.modify (World.onBuffer (Buffer.upsertNode id labels fields))

def upsertEdge (src dst : NodeId) (fields : List (String × Value)) : Hook Unit :=
  Eff.modify (World.onBuffer (Buffer.upsertEdge src dst fields))

def setLabels (id : NodeId) (remove add : List String) : Hook Unit :=
  Eff.modify (World.onBuffer (Buffer.setLabels id remove add))

/-- A write that depends on nothing but the event and the cursors. -/
inductive Write where
  | node (id : NodeId) (labels : Finset String) (fields : List (String × Value))
  | edge (src dst : NodeId) (fields : List (String × Value))

def Buffer.perform (b : Buffer) : Write → Buffer
  | .node id labels fields => b.upsertNode id labels fields
  | .edge src dst fields => b.upsertEdge src dst fields

def performAll (writes : List Write) : Hook Unit :=
  Eff.modify (World.onBuffer fun b => writes.foldl Buffer.perform b)

/-! ## Payloads -/

/-- A value as a format string writes it. -/
def textOf (env : Env) : Json → String
  | .null => "None"
  | .bool b => if b then "True" else "False"
  | .int n => toString n
  | .float text => text
  | .str s => s
  | container => env.containerText container

abbrev Payload := List (String × Json)

namespace Payload

def get (data : Payload) (key : String) : Option Json := Assoc.get key data

def str (data : Payload) (key : String) : Option String :=
  match data.get key with
  | some (.str s) => some s
  | _ => none

/-- `data.get(key)` as a property. -/
def value (data : Payload) (key : String) : Value := .json ((data.get key).getD .null)

/-- A field as part of an id; `none` where it is missing or null. -/
def text (env : Env) (data : Payload) (key : String) : Option String :=
  ((data.get key).filter fun j => ¬ j.isNull).map (textOf env)

def optional (data : Payload) (key : String) (property : String) : List (String × Value) :=
  match data.get key with
  | none | some .null => []
  | some j => [(property, .json j)]

end Payload

/-! ## The session node -/

/-- The row `ensure_session_node` buffers: a bare one for a node that exists, and for a new one the
mark of a stub, with what the event says of it. -/
def sessionStub (sessionId : NodeId) (data : Payload) (workingDir : Option String)
    (existing : Option Node) : Finset String × List (String × Value) :=
  let dir := (workingDir.filter (· ≠ "")).map fun dir => ("working_dir", Value.str dir)
  let stub := [("status_if_absent", Value.str "running"), ("session_id", .str sessionId)]
  match existing with
  | some existing =>
    let kept := (existing.props "working_dir").any Value.truthy
    ({"Session"}, stub ++ if kept then [] else dir.toList)
  | none =>
    let truthy (key : String) : Option Json := (data.get key).filter Json.truthy
    let startedAt := ((truthy "timestamp").or (truthy "started_at")).map fun ts =>
      ("started_at", Value.json ts)
    let agent := (data.get "agent").map fun agent => ("agent", Value.json agent)
    ({"Session", "StubSession"}, stub ++ startedAt.toList ++ agent.toList ++ dir.toList)

/-- `ensure_session_node`. -/
def ensureSessionNode (sessionId : NodeId) (data : Payload) (workingDir : Option String) :
    Hook Unit := do
  let w ← Eff.get
  if sessionId ∈ w.cursors.seenSessions then
    pure ()
  else
    let existing ← getNode sessionId
    let row := sessionStub sessionId data workingDir existing
    upsertNode sessionId row.1 row.2
    Eff.modify (World.markSeen sessionId)

/-- The stored `last_updated` as `touch_session` reads it. -/
def currentInstant (env : Env) : Option Value → Except Fault (Option Instant)
  | none | some (.json .null) => .ok none
  | some (.time t) => .ok (some t)
  | some (.json (.str s)) =>
    match env.fromisoformat s with
    | some t => .ok (some t)
    | none => .error .valueError
  | some (.json _) => .error .typeError

/-- Whether `touch_session` writes the time: it is later than the current one, or there is none. A
comparison of a time with a zone and one without raises, so nothing is written. -/
def advances (env : Env) (timestamp : String) (current : Option Value) : Bool :=
  match env.fromisoformat timestamp, currentInstant env current with
  | some _, .ok none => true
  | some ts, .ok (some now) => ts.aware = now.aware ∧ now.micros < ts.micros
  | _, _ => false

/-- `touch_session`. -/
def touchSession (env : Env) (sessionId : NodeId) (timestamp : String) : Hook Unit :=
  Eff.quietly do
    match ← getNode sessionId with
    | none => pure ()
    | some node =>
      if advances env timestamp (node.props "last_updated") then
        upsertNode sessionId {"Session"} [("last_updated", .str timestamp)]
      else pure ()

end ContextIntelligence.Graph
