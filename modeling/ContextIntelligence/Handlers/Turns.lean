import ContextIntelligence.Handlers.Default

/-!
# The enrichers of a turn

The data-layer-2 handlers assemble prompts, runs, iterations, content blocks and tool calls out of
their events. Each maps the cursors to new cursors and a list of writes; one that raises has written
nothing.
-/

namespace ContextIntelligence.Handlers

open Lib.Effects ContextIntelligence.Graph

abbrev Enricher := Occurrence → Cursors → Except Fault (Cursors × List Write)

def enrich (enricher : Enricher) (o : Occurrence) : Hook Unit := do
  let w ← Eff.get
  match enricher o w.cursors with
  | .error fault => Eff.raise fault
  | .ok (cursors, writes) =>
    Eff.modify (World.onCursors fun _ => cursors)
    performAll writes

/-- The fields of a value on which `.get` is called. -/
def fieldsOf : Json → Except Fault Payload
  | .obj fields => .ok fields
  | _ => .error .attributeError

theorem of_fieldsOf_bind {j : Json} {α : Type} {k : Payload → Except Fault α} {a : α}
    (h : (fieldsOf j >>= k) = .ok a) : ∃ fields, k fields = .ok a := by
  cases j with
  | obj fields => exact ⟨fields, h⟩
  | _ => cases h

def withLayer2 (c : Cursors) (f : DataLayer2State → DataLayer2State) : Cursors :=
  { c with layer2 := f c.layer2 }

/-! ## Orchestrator runs -/

def orchRunId (sessionId ts : String) : NodeId := s!"{sessionId}::orch_run::{ts}"

/-- `OrchestratorRunHandler`. -/
def orchestratorRunHandler : Enricher := fun o c =>
  match o.name, c.layer2.executionStartTs with
  | "execution:start", _ =>
    let run := orchRunId o.sessionId o.timestamp
    let triggers := c.layer2.lastPromptId.map fun prompt =>
      Write.edge prompt run (semantic "TRIGGERS" "LEADS_TO")
    .ok (withLayer2 c fun l => { l with executionStartTs := some o.timestamp },
      [.node run {"OrchestratorRun", "SST_EVENT"}
          [("session_id", .str o.sessionId), ("started_at", .str o.timestamp)],
        .edge o.sessionId run (semantic "HAS_EXECUTION" "CONTAINS"),
        .edge run (o.sourceId "execution:start" none) sourcedFrom] ++ triggers.toList)
  | "execution:end", some ts =>
    let run := orchRunId o.sessionId ts
    let response := (o.data.get "response").map fun response => ("response", Value.json response)
    .ok (c,
      [.node run {"OrchestratorRun", "SST_EVENT"}
          ([("ended_at", .str o.timestamp), ("status", o.data.value "status")] ++ response.toList),
        .edge run (o.sourceId "execution:end" none) sourcedFrom])
  | "orchestrator:complete", some ts =>
    let run := orchRunId o.sessionId ts
    let orchestrator := (o.data.str "orchestrator").getD ""
    .ok (withLayer2 c fun l =>
        { l with lastCompletedOrchRunId := some run, executionStartTs := none },
      [.node run {"OrchestratorRun", "SST_EVENT"}
          [("orchestrator_name", .str orchestrator), ("turn_count", o.data.value "turn_count"),
            ("completed_at", .str o.timestamp)],
        .node orchestrator {"Orchestrator", "SST_CONCEPT"}
          [("orchestrator", .str orchestrator)],
        .edge o.sessionId orchestrator (semantic "HAS_ATTRIBUTE" "EXPRESSES"),
        .edge run (o.sourceId "orchestrator:complete" none) sourcedFrom])
  | _, _ => .ok (c, [])

/-! ## Iterations -/

/-- `_handle_provider_request`: the counter names the iteration. -/
def handleProviderRequest : Enricher := fun o c =>
  let number := c.layer2.iterationCount + 1
  let iteration := s!"{o.sessionId}::iteration::{number}"
  let part := c.layer2.executionStartTs.map fun ts =>
    Write.edge (orchRunId o.sessionId ts) iteration (semantic "HAS_PART" "CONTAINS")
  .ok (withLayer2 c fun l =>
      { l with iterationCount := number, activeIterationId := some iteration },
    [.node iteration {"Iteration", "SST_EVENT"}
        [("session_id", .str o.sessionId), ("iteration_number", .json (.int number)),
          ("started_at", .str o.timestamp)]]
      ++ part.toList ++ [.edge iteration (o.sourceId "provider:request" none) sourcedFrom])

/-- `IterationHandler`. -/
def iterationHandler : Enricher := fun o c =>
  match o.name, c.layer2.activeIterationId with
  | "provider:request", _ => handleProviderRequest o c
  | "llm:request", some iteration =>
    .ok (c,
      [.node iteration {"Iteration", "SST_EVENT"}
          [("provider", o.data.value "provider"), ("model", o.data.value "model"),
            ("message_count", o.data.value "message_count"),
            ("has_system", o.data.value "has_system")],
        .edge iteration (o.sourceId "llm:request" none) sourcedFrom])
  | "llm:response", some iteration => do
      let usage ← fieldsOf (((o.data.get "usage").filter Json.truthy).getD (.obj []))
      .ok (c,
        [.node iteration {"Iteration", "SST_EVENT"}
            [("usage_input", Payload.value usage "input_tokens"),
              ("usage_output", Payload.value usage "output_tokens"),
              ("usage_cache_write", Payload.value usage "cache_creation_input_tokens")],
          .edge iteration (o.sourceId "llm:response" none) sourcedFrom])
  | _, _ => .ok (c, [])

/-! ## Content blocks -/

/-- The last part of an id split at `::`. -/
def lastPart (id : NodeId) : String := ((id.splitOn "::").getLast?).getD ""

def blockNodeId (env : Env) (o : Occurrence) (c : Cursors) : NodeId :=
  let iteration := (c.layer2.activeIterationId.map lastPart).getD "0"
  let index := textOf env ((o.data.get "block_index").getD .null)
  s!"{o.sessionId}::block::{iteration}::{index}"

/-- `ContentBlockHandler`. -/
def contentBlockHandler (env : Env) : Enricher := fun o c =>
  let block := blockNodeId env o c
  match o.name with
  | "content_block:start" =>
    let part := c.layer2.activeIterationId.map fun iteration =>
      Write.edge iteration block (semantic "HAS_PART" "CONTAINS")
    .ok (c,
      [.node block {"ContentBlock", "SST_EVENT"}
          [("session_id", .str o.sessionId), ("block_index", o.data.value "block_index"),
            ("started_at", .str o.timestamp)]]
        ++ part.toList ++ [.edge block (o.sourceId "content_block:start" none) sourcedFrom])
  | "content_block:end" => do
      let content ← fieldsOf (((o.data.get "block").filter Json.truthy).getD (.obj []))
      -- the id of a tool-call block waits for its `tool:pre`
      let cached := match Payload.str content "type", Payload.str content "id" with
        | some "tool_call", some id =>
          if id = "" then c
          else withLayer2 c fun l =>
            { l with pendingToolBlockIds := l.pendingToolBlockIds.set id block }
        | _, _ => c
      .ok (cached,
        [.node block {"ContentBlock", "SST_EVENT"}
            [("block_type", Payload.value content "type"), ("ended_at", .str o.timestamp)],
          .edge block (o.sourceId "content_block:end" none) sourcedFrom])
  | _ => .ok (c, [])

/-! ## Tool calls -/

/-- `_handle_pre`: links the call to its iteration, to the block that caused it and to the calls of
its parallel group. -/
def handleToolPre (toolCallId : NodeId) : Enricher := fun o c =>
  let group := o.data.str "parallel_group_id"
  let iteration := c.layer2.activeIterationId.map fun iteration =>
    Write.edge iteration toolCallId (semantic "HAS_TOOL_CALL" "CONTAINS")
  let caused := (c.layer2.pendingToolBlockIds.get toolCallId).map fun block =>
    Write.edge block toolCallId (semantic "CAUSED" "LEADS_TO")
  let members := (group.bind c.toolGroups.get).getD []
  let parallel := members.map fun prior =>
    Write.edge toolCallId prior (semantic "PARALLEL_EXECUTION" "NEAR")
  let popped := withLayer2 c fun l =>
    { l with pendingToolBlockIds := l.pendingToolBlockIds.erase toolCallId }
  let joined := match group with
    | none => popped
    | some id => { popped with toolGroups := popped.toolGroups.set id (members ++ [toolCallId]) }
  .ok (joined,
    [.node toolCallId {"ToolCall", "SST_EVENT"}
        ([("tool_name", o.data.value "tool_name"), ("tool_call_id", .str toolCallId),
          ("session_id", .str o.sessionId), ("tool_input", o.data.value "tool_input"),
          ("started_at", .str o.timestamp)]
        ++ o.data.optional "parallel_group_id" "parallel_group_id")]
      ++ iteration.toList ++ caused.toList ++ parallel
      ++ [.edge toolCallId (o.sourceId "tool:pre" (some toolCallId)) sourcedFrom])

/-- `ToolCallHandler`. -/
def toolCallHandler : Enricher := fun o c =>
  match o.name, (o.data.str "tool_call_id").filter (· ≠ "") with
  | "tool:pre", some toolCallId => handleToolPre toolCallId o c
  | "tool:error", some toolCallId =>
    let present (key : String) : Option Json := (o.data.get key).filter Json.truthy
    let error := ((present "error").or (present "error_message")).or (o.data.get "message")
    .ok (c,
      [.node toolCallId {"ToolCall", "SST_EVENT"}
          [("ended_at", .str o.timestamp), ("result_success", .json (.bool false)),
            ("result_error", .json (error.getD .null))],
        .edge toolCallId (o.sourceId "tool:error" (some toolCallId)) sourcedFrom])
  | "tool:post", some toolCallId => do
      let result ← fieldsOf ((o.data.get "result").getD (.obj []))
      let failed := match Payload.get result "error" with
        | none | some .null => false
        | some _ => true
      .ok (c,
        [.node toolCallId {"ToolCall", "SST_EVENT"}
            [("ended_at", .str o.timestamp), ("result_success", .json (.bool !failed)),
              ("result_output", Payload.value result "output"),
              ("result_error", Payload.value result "error")],
          .edge toolCallId (o.sourceId "tool:post" (some toolCallId)) sourcedFrom])
  | _, _ => .ok (c, [])

/-! ## Prompts, cancellations, compactions -/

/-- `PromptHandler`. -/
def promptHandler : Enricher := fun o c =>
  if o.name = "prompt:submit" then
    let prompt := s!"{o.sessionId}::prompt::{o.timestamp}"
    let enables := c.layer2.lastCompletedOrchRunId.map fun run =>
      Write.edge run prompt (semantic "ENABLES" "LEADS_TO")
    .ok (withLayer2 c fun l =>
      { l with lastCompletedOrchRunId := none, lastPromptId := some prompt },
      [.node prompt {"Prompt", "SST_EVENT"}
          [("session_id", .str o.sessionId),
            ("prompt", .json ((o.data.get "prompt").getD (.str ""))),
            ("occurred_at", .str o.timestamp)],
        .edge prompt (o.sourceId "prompt:submit" none) sourcedFrom,
        .edge o.sessionId prompt (semantic "HAS_PART" "CONTAINS")] ++ enables.toList)
  else .ok (c, [])

/-- `CancellationHandler`. -/
def cancellationHandler : Enricher := fun o c =>
  if o.name = "cancel:completed" then
    let cancellation := s!"{o.sessionId}::cancellation::{o.timestamp}"
    .ok (c,
      [.node cancellation {"Cancellation", "SST_EVENT"}
          [("session_id", .str o.sessionId), ("was_immediate", o.data.value "immediate"),
            ("occurred_at", .str o.timestamp)],
        .edge o.sessionId cancellation (semantic "HAS_PART" "CONTAINS"),
        .edge cancellation (o.sourceId "cancel:completed" none) sourcedFrom])
  else .ok (c, [])

/-- `ContextCompactionHandler`. -/
def contextCompactionHandler : Enricher := fun o c =>
  if o.name = "context:pre_compact" ∨ o.name = "context:post_compact" then
    let compaction := s!"{o.sessionId}::compaction::{o.timestamp}"
    .ok (c,
      [.node compaction {"ContextCompaction", "SST_EVENT"}
          [("session_id", .str o.sessionId), ("occurred_at", .str o.timestamp)],
        .edge o.sessionId compaction (semantic "HAS_COMPACTION" "CONTAINS"),
        .edge compaction (o.sourceId o.name none) sourcedFrom])
  else .ok (c, [])

end ContextIntelligence.Handlers
