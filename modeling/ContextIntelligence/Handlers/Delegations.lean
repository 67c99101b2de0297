import ContextIntelligence.Handlers.Turns

/-!
# Delegations and skills

The delegation handler is keyed by the parent session and the tool call. When an agent delegates
to itself, the real agent is found by walking up the chain of delegations. Skills are correlated
by name.
-/

namespace ContextIntelligence.Handlers

open ContextIntelligence.Graph

/-! ## Self-delegation -/

def isStr (value : Option Value) (s : String) : Bool :=
  match value with
  | some (.json (.str s')) => s' = s
  | _ => false

/-- `find_delegation_by_sub_session`: the first one in the buffer, else the database's answer. -/
def findDelegation (env : Env) (subSessionId : Scalar) : Hook (Option Props) := fun w =>
  let buffered := w.buffer.nodes.entries.find? fun entry =>
    "Delegation" ∈ entry.2.labels
      ∧ (entry.2.props "sub_session_id").bind Value.scalar = some subSessionId
  match buffered with
  | some entry => (.ok (some entry.2.props), w)
  | none => readDb (fun db => env.delegationOf db.nodes subSessionId) w

/-- `get_node` with the id of a delegation: the ids of nodes are strings. -/
def getSession : Scalar → Hook (Option Node)
  | .str id => getNode id
  | _ => readDb fun _ => none

/-- `_discriminate_root_vs_unresolved`. -/
def discriminateRoot (parentSession : Option Node) : String :=
  let labels := (parentSession.map Node.labels).getD ∅
  if "RootSession" ∈ labels then "root"
  else if "ForkedSession" ∈ labels then "forked"
  else "unresolved"

def unresolved : Value := .str "unresolved"

/-- `resolve_self_agent`, with the depth that is left and the sessions already visited. -/
def resolveSelfAgent (env : Env) : ℕ → Finset Scalar → Value → Hook Value
  | 0, _, _ => pure unresolved
  | depth + 1, visited, session =>
    match session.scalar with
    | none => Lib.Effects.Eff.raise .typeError
    | some sessionId =>
      if sessionId ∈ visited then pure unresolved
      else do
        match ← findDelegation env sessionId with
        | none =>
          let parentSession ← getSession sessionId
          pure (.str (discriminateRoot parentSession))
        | some delegation =>
          if isStr (delegation "agent") "self" then
            match (delegation "parent_session_id").filter Value.truthy with
            | some next => resolveSelfAgent env depth (insert sessionId visited) next
            | none => pure unresolved
          else pure (((delegation "agent").filter Value.truthy).getD unresolved)

def maxSelfDelegationDepth : ℕ := 8

/-- The id of the agent's node, as text where a delegation names something else. -/
def agentText (env : Env) : Value → String
  | .json j => textOf env j
  | .time t => toString t.micros

def resolveAgent (env : Env) (agent : String) (parentSessionId : NodeId) : Hook String :=
  if agent = "self" then do
    let resolved ← resolveSelfAgent env maxSelfDelegationDepth ∅ (.str parentSessionId)
    pure (agentText env resolved)
  else pure agent

/-! ## Delegations -/

def delegationId (parentSessionId toolCallId : String) : NodeId :=
  s!"{parentSessionId}::delegation::{toolCallId}"

/-- The parallel edges of a new delegation, and the group with it. -/
def joinDelegations (group : Option String) (delegation : NodeId) (c : Cursors) :
    Cursors × List Write :=
  match group with
  | none => (c, [])
  | some id =>
    let members := (c.delegationGroups.get id).getD []
    ({ c with delegationGroups := c.delegationGroups.set id (members ++ [delegation]) },
      members.map fun prior => Write.edge delegation prior (semantic "PARALLEL_AGENT" "NEAR"))

/-- The nodes of `_handle_spawned`. -/
def spawnedNodes (parentSessionId toolCallId resolved : String) (o : Occurrence) : List Write :=
  let agent := (o.data.str "agent").getD ""
  [.node (delegationId parentSessionId toolCallId) {"Delegation", "SST_EVENT"}
      ([("agent", .str agent), ("parent_session_id", .str parentSessionId),
        ("sub_session_id", .str ((o.data.str "sub_session_id").getD "")),
        ("tool_call_id", .str toolCallId), ("started_at", .str o.timestamp),
        ("is_self_delegation", .json (.bool (agent = "self")))]
      ++ o.data.optional "parallel_group_id" "parallel_group_id"
      ++ o.data.optional "context_depth" "context_depth"
      ++ o.data.optional "context_scope" "context_scope"
      ++ o.data.optional "model_role" "model_role"
      ++ if agent = "self" then [("resolved_agent", .str resolved)] else []),
    .node resolved {"Agent", "SST_CONCEPT"} [("agent", .str resolved)]]

/-- The edges of `_handle_spawned`. -/
def spawnedEdges (parentSessionId toolCallId resolved : String) : Enricher := fun o c =>
  let subSessionId := (o.data.str "sub_session_id").getD ""
  let delegation := delegationId parentSessionId toolCallId
  let (joined, parallel) := joinDelegations (o.data.str "parallel_group_id") delegation c
  let step := c.layer3.activeRecipeStepId.map fun step =>
    Write.edge step delegation (semantic "TRIGGERED" "LEADS_TO")
  .ok (joined,
    [.edge subSessionId resolved (semantic "HAS_AGENT" "EXPRESSES"),
      .edge delegation subSessionId (semantic "ENCOMPASSES" "CONTAINS"),
      .edge toolCallId delegation (semantic "TRIGGERED" "LEADS_TO")]
    ++ parallel ++ step.toList
    ++ [.edge delegation (makeNodeId parentSessionId "delegate:agent_spawned" o.epoch
      (some toolCallId) o.identity) sourcedFrom])

/-- `_handle_spawned`. -/
def handleSpawned (env : Env) (parentSessionId toolCallId : String) (o : Occurrence) :
    Hook Unit := do
  let resolved ← resolveAgent env ((o.data.str "agent").getD "") parentSessionId
  performAll (spawnedNodes parentSessionId toolCallId resolved o)
  ensureSessionNode ((o.data.str "sub_session_id").getD "")
    [("agent", .str ((o.data.str "agent").getD ""))] none
  enrich (spawnedEdges parentSessionId toolCallId resolved) o

/-- The properties of `_handle_lifecycle`. -/
def lifecycleFields (o : Occurrence) : List (String × Value) :=
  if o.name = "delegate:agent_completed" then
    [("ended_at", .str o.timestamp), ("success", .json (.bool true))]
  else if o.name = "delegate:agent_resumed" then [("resumed_at", .str o.timestamp)]
  else if o.name = "delegate:agent_cancelled" then [("cancelled_at", .str o.timestamp)]
  else [("ended_at", .str o.timestamp), ("success", .json (.bool false)),
    ("error", o.data.value "error")]

/-- `_handle_lifecycle`; the link goes to an id disambiguated by the delegation. -/
def handleLifecycle (parentSessionId toolCallId : String) : Enricher := fun o c =>
  let delegation := delegationId parentSessionId toolCallId
  .ok (c,
    [.node delegation {"Delegation", "SST_EVENT"} (lifecycleFields o),
      .edge delegation (makeNodeId parentSessionId o.name o.epoch (some delegation) o.identity)
        sourcedFrom])

def delegationEvents : List String :=
  ["delegate:agent_spawned", "delegate:agent_completed", "delegate:agent_resumed",
    "delegate:agent_cancelled", "delegate:error"]

/-- `DelegationHandler`. -/
def delegationHandler (env : Env) (o : Occurrence) : Hook Unit :=
  let present (key : String) : Option String := (o.data.str key).filter (· ≠ "")
  if o.name ∈ delegationEvents then
    match present "parent_session_id", (present "tool_call_id").or (present "sub_session_id") with
    | some parentSessionId, some toolCallId =>
      if o.name = "delegate:agent_spawned" then handleSpawned env parentSessionId toolCallId o
      else enrich (handleLifecycle parentSessionId toolCallId) o
    | _, _ => pure ()
  else pure ()

/-! ## Skills -/

/-- `SkillLoadHandler`. -/
def skillLoadHandler : Enricher := fun o c =>
  match o.name, (o.data.str "skill_name").filter (· ≠ "") with
  | "skill:loaded", some skill =>
    let load := s!"{o.sessionId}::skill::{skill}::{o.timestamp}"
    let parent := c.layer2.activeIterationId.getD o.sessionId
    .ok ({ c with activeSkillNodes := c.activeSkillNodes.set skill load },
      [.node load {"SkillLoad", "SST_EVENT"}
          [("skill_name", .str skill), ("started_at", .str o.timestamp),
            ("content_length", o.data.value "content_length"), ("source", o.data.value "source"),
            ("version", o.data.value "version"), ("context", o.data.value "context"),
            ("disable_model_invocation", o.data.value "disable_model_invocation"),
            ("user_invocable", o.data.value "user_invocable"),
            ("auto_loaded", .json ((o.data.get "auto_loaded").getD (.bool false)))],
        .edge parent load (semantic "HAS_SKILL_LOAD" "CONTAINS"),
        .edge load (o.sourceId "skill:loaded" (o.data.str "tool_call_id")) sourcedFrom])
  | "skill:unloaded", some skill =>
    match c.activeSkillNodes.get skill with
    | none => .ok (c, [])
    | some load =>
      .ok ({ c with activeSkillNodes := c.activeSkillNodes.erase skill },
        [.node load {"SkillLoad", "SST_EVENT"} [("ended_at", .str o.timestamp)],
          .edge load (o.sourceId "skill:unloaded" (o.data.str "tool_call_id")) sourcedFrom])
  | _, _ => .ok (c, [])

end ContextIntelligence.Handlers
