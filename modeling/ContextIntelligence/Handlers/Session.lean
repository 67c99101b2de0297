import ContextIntelligence.Graph.Services
import ContextIntelligence.Lib.TextLines

/-!
# The session handler

`SessionHandler` owns the lifecycle events of a session and its type label. The label machine
decides from the labels that `get_node` returned; the handler then enriches the session node, queues
the label patch and links the session to its parent.
-/

namespace ContextIntelligence.Handlers

open Lib.Effects ContextIntelligence.Graph

/-! ## Events -/

/-- An event of a session, as the queue line holds it. -/
structure Event where
  name : String
  data : Payload
  workingDir : Option String
  identity : Option String

/-- An event whose time has been parsed and whose blobs have been offloaded: what the handlers of
the pipeline work on. -/
structure Occurrence where
  sessionId : NodeId
  name : String
  data : Payload
  timestamp : String
  epoch : ℤ
  identity : Option String

/-- `make_node_id`, once the timestamp is parsed. -/
def makeNodeId (sessionId eventName : String) (epoch : ℤ) (disambiguator identity : Option String) :
    NodeId :=
  let safeEvent := eventName.map fun c => if c = ':' then '_' else c
  let suffix (part : Option String) : String := (part.map ("__" ++ ·)).getD ""
  s!"{sessionId}__{safeEvent}__{epoch}" ++ suffix disambiguator ++ suffix identity

def Occurrence.sourceId (o : Occurrence) (eventName : String) (disambiguator : Option String) :
    NodeId :=
  makeNodeId o.sessionId eventName o.epoch disambiguator o.identity

def sourcedFrom : List (String × Value) := [("type", .str "SOURCED_FROM")]

def semantic (type sst : String) : List (String × Value) :=
  [("type", .str type), ("sst_semantic", .str sst)]

/-! ## The label machine -/

inductive SessionType where
  | root
  | sub
  | forked
  deriving DecidableEq, Repr

def SessionType.label : SessionType → String
  | .root => "RootSession"
  | .sub => "SubSession"
  | .forked => "ForkedSession"

/-- `_current_type`; `none` for a bare session. -/
def currentType (labels : Finset String) : Option SessionType :=
  if "ForkedSession" ∈ labels then some .forked
  else if "SubSession" ∈ labels then some .sub
  else if "RootSession" ∈ labels then some .root
  else none

inductive Lifecycle where
  | start
  | fork
  | finish
  deriving DecidableEq, Repr

structure LabelTransition where
  add : List String
  remove : List String
  deriving DecidableEq, Repr

/-- `SessionLabelStateMachine.classify`. -/
def classify (current : Option SessionType) (event : Lifecycle) (hasParent : Bool) :
    LabelTransition :=
  match event, current with
  | .start, some .forked | .start, some .sub => ⟨[], []⟩
  | .start, some .root =>
    if hasParent then ⟨["SubSession", "SST_EVENT"], ["RootSession", "StubSession"]⟩ else ⟨[], []⟩
  | .start, none =>
    if hasParent then ⟨["Session", "SubSession", "SST_EVENT"], ["StubSession"]⟩
    else ⟨["RootSession", "Session", "SST_EVENT"], ["StubSession"]⟩
  | .fork, some .forked => ⟨[], []⟩
  | .fork, some type => ⟨["ForkedSession", "SST_EVENT"], [type.label, "StubSession"]⟩
  | .fork, none => ⟨["Session", "ForkedSession", "SST_EVENT"], ["StubSession"]⟩
  | .finish, some _ => ⟨[], []⟩
  | .finish, none => ⟨["IncompleteSession", "SST_EVENT"], ["StubSession"]⟩

/-- `str.strip`. -/
def strip (s : String) : String :=
  let white (c : Char) : Bool := Lib.TextLines.isWhite c.toNat
  String.ofList (((s.toList.dropWhile white).reverse.dropWhile white).reverse)

/-- `_parent_of`; the empty string where there is no parent. -/
def parentOf (data : Payload) : String :=
  let present (key : String) : Option String := (data.str key).filter (· ≠ "")
  strip (((present "parent_id").or (present "parent")).getD "")

/-! ## The handlers -/

/-- The labels `get_node` shows. -/
def readLabels (sessionId : NodeId) : Hook (Finset String) := do
  let existing ← getNode sessionId
  pure ((existing.map Node.labels).getD ∅)

def applyTransition (sessionId : NodeId) (t : LabelTransition) : Hook Unit :=
  if t.add = [] ∧ t.remove = [] then pure () else setLabels sessionId t.remove t.add

/-- `parent_id` as a property: null without a parent. -/
def parentValue (parentId : String) : Value :=
  if parentId = "" then .json .null else .str parentId

def linkParent (type parentId : String) (o : Occurrence) : Hook Unit := do
  ensureSessionNode parentId [] none
  upsertEdge parentId o.sessionId
    (semantic type "LEADS_TO" ++ [("occurred_at", .str o.timestamp)])

def startFields (o : Occurrence) : List (String × Value) :=
  [("started_at", .str o.timestamp), ("session_id", .str o.sessionId),
    ("parent_id", parentValue (parentOf o.data))]

def handleStart (o : Occurrence) : Hook Unit := do
  let parentId := parentOf o.data
  let labels ← readLabels o.sessionId
  upsertNode o.sessionId {"Session"} (startFields o)
  upsertEdge o.sessionId (o.sourceId "session:start" none) sourcedFrom
  let t := classify (currentType labels) .start (parentId ≠ "")
  applyTransition o.sessionId t
  if "SubSession" ∈ t.add ∧ parentId ≠ "" then linkParent "HAS_SUBSESSION" parentId o else pure ()

/-- What `_create_mount_plan` writes. -/
def mountPlan (o : Occurrence) : List Write :=
  let mountPlanId := s!"{o.sessionId}::mount_plan"
  [.node mountPlanId {"MountPlan", "SST_THING"} [],
    .edge o.sessionId mountPlanId (semantic "HAS_PART" "CONTAINS"),
    .edge mountPlanId (o.sourceId "session:fork" none) sourcedFrom]

/-- The edge rule of a fork: a session that had a type drops the edge of its old place. -/
def relinkParent (current : Option SessionType) (parentId : String) (o : Occurrence) :
    Hook Unit := do
  if current = some .root ∨ current = some .sub then
    Eff.modify (World.onBuffer (Buffer.removeEdge parentId o.sessionId))
  linkParent "FORKED" parentId o

def forkFields (env : Env) (o : Occurrence) : List (String × Value) :=
  let workspace := ((o.data.str "workspace").filter (· ≠ "")).getD env.workspace
  [("started_at", .str o.timestamp), ("workspace", .str workspace),
    ("session_id", .str o.sessionId), ("parent_id", parentValue (parentOf o.data))]

def handleFork (env : Env) (o : Occurrence) : Hook Unit := do
  let parentId := parentOf o.data
  let labels ← readLabels o.sessionId
  upsertNode o.sessionId {"Session"} (forkFields env o)
  upsertEdge o.sessionId (o.sourceId "session:fork" none) sourcedFrom
  let t := classify (currentType labels) .fork (parentId ≠ "")
  applyTransition o.sessionId t
  if "ForkedSession" ∈ t.add ∧ parentId ≠ "" then
    relinkParent (currentType labels) parentId o
  performAll (mountPlan o)

def endFields (o : Occurrence) : List (String × Value) :=
  let parentId := parentOf o.data
  [("ended_at", .str o.timestamp), ("status", .str "completed"), ("session_id", .str o.sessionId)]
    ++ if parentId = "" then [] else [("parent_id", .str parentId)]

/-- `_handle_end`. -/
def handleEnd (o : Occurrence) : Hook Unit := do
  let labels ← readLabels o.sessionId
  -- the labels just read go into the buffer with the row
  upsertNode o.sessionId ({"Session", "SST_EVENT"} ∪ labels) (endFields o)
  upsertEdge o.sessionId (o.sourceId "session:end" none) sourcedFrom
  applyTransition o.sessionId (classify (currentType labels) .finish (parentOf o.data ≠ ""))

/-- `SessionHandler`. -/
def sessionHandler (env : Env) (o : Occurrence) : Hook Unit :=
  if o.name = "session:start" then handleStart o
  else if o.name = "session:fork" then handleFork env o
  else if o.name = "session:end" then handleEnd o
  else pure ()

end ContextIntelligence.Handlers
