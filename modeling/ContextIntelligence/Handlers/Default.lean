import ContextIntelligence.Handlers.Session

/-!
# Recording an event

Every event becomes a node: `DefaultHandler` derives its labels from the event name, lifts the
fields of its family to properties and attaches it to its session. Before that, large fields of
the payload are offloaded to the blob store and replaced by a reference.
-/

namespace ContextIntelligence.Handlers

open Lib ContextIntelligence.Graph

/-! ## Labels -/

/-- `str.capitalize`, for the letters and digits a part is made of. -/
def capitalize : List Char → List Char
  | [] => []
  | c :: rest => c.toUpper :: rest.map Char.toLower

/-- `_pascal_parts`. -/
def pascalParts (raw : List Char) : List Char :=
  let parts := raw.splitOnP fun c => !c.isAlphanum
  let stem := parts.flatMap capitalize
  if stem.head?.any Char.isDigit then 'E' :: stem else stem

def stemOr (raw : List Char) : String :=
  match pascalParts raw with
  | [] => "Unnamed"
  | stem => String.ofList stem

/-- `derive_labels`. -/
def deriveLabels (eventName : String) : Finset String :=
  let chars := eventName.toList
  let full := stemOr chars
  let category := if ':' ∈ chars then stemOr ((chars.reverse.dropWhile (· ≠ ':')).drop 1).reverse
    else full
  {full ++ "Event", category ++ "Event", "Event"}

/-! ## Lifted fields -/

def liftedKeys : List (String × List String) :=
  [("artifact:", ["bytes", "path"]),
    ("delegate:", ["agent", "sub_session_id", "parent_session_id", "tool_call_id",
      "parallel_group_id"]),
    ("llm:", ["model", "provider"]),
    ("prompt:", ["prompt", "response_preview"]),
    ("recipe:", ["recipe_name", "current_step", "description", "status", "step_id", "total_steps",
      "parent_session_id"]),
    ("session:", ["parent"]),
    ("skill:", ["skill_directory", "skill_name"]),
    ("tool:", ["tool_name", "tool_input", "tool_call_id", "parallel_group_id"])]

/-- The keys `SessionLifter` takes out of `metadata`. -/
def metadataKeys : List String :=
  ["agent_name", "tool_call_id", "parallel_group_id", "recipe_name", "recipe_step",
    "recipe_step_index"]

def liftKeys (data : Payload) (keys : List String) : List (String × Value) :=
  keys.flatMap fun key => data.optional key key

def liftedFields (eventName : String) (data : Payload) : List (String × Value) :=
  let metadata := match eventName.startsWith "session:", data.get "metadata" with
    | true, some (.obj fields) => liftKeys fields metadataKeys
    | _, _ => []
  liftKeys data ["session_id", "parent_id"]
    ++ (liftedKeys.flatMap fun family =>
      if eventName.startsWith family.1 then liftKeys data family.2 else [])
    ++ metadata

/-- The node as which `DefaultHandler` records the event. -/
def Occurrence.eventNodeId (env : Env) (o : Occurrence) : NodeId :=
  o.sourceId o.name (o.data.text env "tool_call_id")

/-- `DefaultHandler`. -/
def defaultHandler (env : Env) (o : Occurrence) : List Write :=
  [.node (o.eventNodeId env) (deriveLabels o.name)
      ([("event_name", .str o.name), ("occurred_at", .str o.timestamp)]
        ++ liftedFields o.name o.data ++ [("data", .str (env.dumps (.obj o.data)))]),
    .edge o.sessionId (o.eventNodeId env)
      [("type", .str "HAS_EVENT"), ("occurred_at", .str o.timestamp)]]

/-! ## Blobs -/

def blobFields : List String :=
  ["raw", "result", "messages", "mount_plan", "context_snapshot", "debug"]

/-- The first step of `_lift_raw_fields`, for one field. -/
def promote (raw : Payload) (data : Payload) (field : String) : Payload :=
  match raw.get field, data.get field with
  | some j, none => Assoc.set field j data
  | _, _ => data

/-- `_lift_raw_fields`. -/
def liftRawFields (data : Payload) : Except Fault Payload :=
  match data.get "raw" with
  | some (.obj raw) =>
    let data := ["stop_reason", "finish_reason"].foldl (promote raw) data
    match Payload.get raw "usage", (data.get "usage").filter Json.truthy with
    | some (.obj rawUsage), none => .ok (Assoc.set "usage" (.obj rawUsage) data)
    | some (.obj rawUsage), some (.obj usage) =>
      let merged := usage.foldl (fun merged field => Assoc.set field.1 field.2 merged) rawUsage
      .ok (Assoc.set "usage" (.obj merged) data)
    | some (.obj _), some _ => .error .typeError
    | _, _ => .ok data
  | _ => .ok data

/-- One field of `process_event_data`. -/
def offload (write : String → NodeId → Json → Except String String) (sessionId nodeId : NodeId)
    (data : Payload) (field : String) : Payload :=
  match data.get field with
  | none | some .null => data
  | some j =>
    let reference := match write sessionId (nodeId ++ "__" ++ field) j with
      | .ok uri => ("$blob_ref", Json.str uri)
      | .error reason => ("$blob_error", .str ("write failed: " ++ reason))
    Assoc.set field (.obj [reference]) data

/-- `process_event_data`. -/
def processEventData (write : String → NodeId → Json → Except String String)
    (sessionId nodeId : NodeId) (data : Payload) : Except Fault Payload :=
  (liftRawFields data).map fun data => blobFields.foldl (offload write sessionId nodeId) data

end ContextIntelligence.Handlers
