import ContextIntelligence.Handlers.Traced
import ContextIntelligence.Lib.Runs

/-!
# What an event asks of the store

The handlers of an event make their store calls in many branches, and most facts about the graph
only need to know what these calls can look like. `Asked` says it once: which properties a row may
bring, that an edge has a type, and that labels change as the label machine decides. All handlers
but that of the sessions also leave the type labels alone (`Requested`). `only_processEvent` goes
through all handlers.
-/

namespace ContextIntelligence.Handlers

open Lib Lib.Effects Lib.Recording ContextIntelligence.Graph

/-! ## Rows -/

def resultKeys : List String := ["result_success", "result_output", "result_error"]

/-- The event brings the result of the tool call. -/
def BringsResult (id : NodeId) (name : String) (data : Payload) : Prop :=
  name ∈ ["tool:post", "tool:error"] ∧ data.str "tool_call_id" = some id

instance (id : NodeId) (name : String) (data : Payload) : Decidable (BringsResult id name data) :=
  inferInstanceAs (Decidable (_ ∧ _))

/-- The labels of the nodes other than sessions that have a status. -/
def statusLabels : Finset String := {"OrchestratorRun", "RecipeRun", "Event"}

/-- A field that a row of a handler may have: the time of the last event is left to `touch_session`,
results go to the given nodes, and a session has no status but `completed`. -/
structure Allowed (results : NodeId → Prop) (id : NodeId) (labels : Finset String)
    (field : String × Value) : Prop where
  untouched : field.1 ≠ "last_updated"
  result : field.1 ∈ resultKeys → results id
  status : field.1 = "status" → ¬ Disjoint labels statusLabels ∨ field.2 = .str "completed"

variable {results : NodeId → Prop} {id : NodeId} {labels : Finset String}

/-- The keys about which `Allowed` says something. -/
def guardedKeys : List String :=
  ["last_updated", "status", "result_success", "result_output", "result_error"]

@[simp] theorem allowed_of_notMem {field : String × Value} (h : field.1 ∉ guardedKeys) :
    Allowed results id labels field := by
  simp only [guardedKeys, List.mem_cons, not_or] at h
  exact ⟨h.1, fun hres => by simp_all [resultKeys], fun hstat => absurd hstat h.2.1⟩

theorem allowed_status {value : Value} (h : ¬ Disjoint labels statusLabels) :
    Allowed results id labels ("status", value) :=
  ⟨by simp, by simp [resultKeys], fun _ => .inl h⟩

def AllAllowed (results : NodeId → Prop) (id : NodeId) (labels : Finset String)
    (fields : List (String × Value)) : Prop :=
  ∀ field ∈ fields, Allowed results id labels field

@[simp] theorem allAllowed_nil : AllAllowed results id labels [] := nofun

@[simp] theorem allAllowed_cons {field : String × Value} {fields : List (String × Value)} :
    AllAllowed results id labels (field :: fields)
      ↔ Allowed results id labels field ∧ AllAllowed results id labels fields :=
  List.forall_mem_cons

@[simp] theorem allAllowed_append {fields fields' : List (String × Value)} :
    AllAllowed results id labels (fields ++ fields')
      ↔ AllAllowed results id labels fields ∧ AllAllowed results id labels fields' :=
  List.forall_mem_append

@[simp] theorem allAllowed_toList_map {α : Type} {item : Option α} {field : α → String × Value} :
    AllAllowed results id labels (item.map field).toList
      ↔ ∀ a ∈ item, Allowed results id labels (field a) := by
  cases item <;> simp

theorem allAllowed_of_keys {fields : List (String × Value)}
    (h : ∀ key ∈ fields.map Prod.fst, key ∉ guardedKeys) : AllAllowed results id labels fields :=
  fun field hfield => allowed_of_notMem (h field.1 (List.mem_map_of_mem hfield))

theorem allAllowed_flatMap {α : Type} {items : List α} {fields : α → List (String × Value)}
    (h : ∀ a ∈ items, AllAllowed results id labels (fields a)) :
    AllAllowed results id labels (items.flatMap fields) := by
  intro field hfield
  obtain ⟨a, ha, hfield⟩ := List.mem_flatMap.1 hfield
  exact h a ha field hfield

@[simp] theorem allAllowed_optional {data : Payload} {key property : String}
    (h : ∀ value, Allowed results id labels (property, value)) :
    AllAllowed results id labels (data.optional key property) := by
  unfold Payload.optional
  split <;> simp [h]

/-! ## Calls -/

/-- An edge has a type, and labels change as the label machine says. -/
def FromHandlers : Call → Prop
  | .upsertEdge _ _ fields => ∃ type, Props.none.assign fields "type" = some (.str type)
  | .setLabels _ remove add =>
    ∃ current event hasParent, classify current event hasParent = ⟨add, remove⟩
  | .upsertNode _ _ _ | .removeEdge _ _ => True

/-- What the handlers may ask of the store. -/
def Asked (results : NodeId → Prop) : Call → Prop
  | .upsertNode id labels fields => AllAllowed results id labels fields
  | call => FromHandlers call

theorem Asked.fromHandlers {call : Call} (h : Asked results call) : FromHandlers call := by
  cases call with
  | upsertNode => trivial
  | _ => exact h

@[simp] theorem asked_node {fields : List (String × Value)} :
    Asked results (Write.node id labels fields).call
      ↔ AllAllowed results id labels fields := Iff.rfl

/-- The labels that say how a session began, or that its beginning is missing. -/
def typeLabels : Finset String := insert "IncompleteSession" terminalLabels

/-- The call brings no type label to the session and patches no labels. -/
def Sparing (sid : NodeId) : Call → Prop
  | .upsertNode id labels _ => id = sid → Disjoint labels typeLabels
  | .setLabels _ _ _ => False
  | .upsertEdge _ _ _ | .removeEdge _ _ => True

/-- What the handlers other than that of the sessions may ask. -/
structure Requested (results : NodeId → Prop) (call : Call) : Prop where
  asked : Asked results call
  sparing : ∀ sid, Sparing sid call

@[simp] theorem requested_node {fields : List (String × Value)} :
    Requested results (Write.node id labels fields).call
      ↔ AllAllowed results id labels fields ∧ Disjoint labels typeLabels :=
  ⟨fun h => ⟨h.asked, h.sparing id rfl⟩, fun h => ⟨h.1, fun _ _ => h.2⟩⟩

@[simp] theorem requested_sourcedFrom (src dst : NodeId) :
    Requested results (Write.edge src dst sourcedFrom).call := ⟨⟨_, rfl⟩, fun _ => trivial⟩

@[simp] theorem requested_semantic (src dst : NodeId) (type sst : String) :
    Requested results (Write.edge src dst (semantic type sst)).call :=
  ⟨⟨type, rfl⟩, fun _ => trivial⟩

def AllAsked (results : NodeId → Prop) (writes : List Write) : Prop :=
  ∀ write ∈ writes, Requested results write.call

@[simp] theorem allAsked_nil : AllAsked results [] := nofun

@[simp] theorem allAsked_cons {write : Write} {writes : List Write} :
    AllAsked results (write :: writes)
      ↔ Requested results write.call ∧ AllAsked results writes :=
  List.forall_mem_cons

@[simp] theorem allAsked_append {writes writes' : List Write} :
    AllAsked results (writes ++ writes') ↔ AllAsked results writes ∧ AllAsked results writes' :=
  List.forall_mem_append

@[simp] theorem allAsked_toList_map {α : Type} {item : Option α} {write : α → Write} :
    AllAsked results (item.map write).toList ↔ ∀ a ∈ item, Requested results (write a).call := by
  cases item <;> simp

@[simp] theorem allAsked_map {α : Type} {items : List α} {write : α → Write} :
    AllAsked results (items.map write) ↔ ∀ a ∈ items, Requested results (write a).call := by
  simp [AllAsked]

/-! ## Enrichers -/

def Asks (results : NodeId → Prop) (enricher : Enricher) (o : Occurrence) : Prop :=
  ∀ c c' writes, enricher o c = .ok (c', writes) → AllAsked results writes

section Enrichers

variable (env : Env) (o : Occurrence)

theorem asks_orchestratorRunHandler : Asks results orchestratorRunHandler o := by
  intro c c' writes h
  unfold orchestratorRunHandler at h
  split at h <;> cases h
  · simp +decide [guardedKeys]
  · simp +decide [guardedKeys, allowed_status, statusLabels]
  · simp +decide [guardedKeys]
  · exact allAsked_nil

theorem asks_iterationHandler : Asks results iterationHandler o := by
  intro c c' writes h
  unfold iterationHandler at h
  split at h
  · cases h
    simp +decide [guardedKeys]
  · cases h
    simp +decide [guardedKeys]
  · obtain ⟨usage, h⟩ := of_fieldsOf_bind h
    cases h
    simp +decide [guardedKeys]
  · cases h
    exact allAsked_nil

theorem asks_contentBlockHandler : Asks results (contentBlockHandler env) o := by
  intro c c' writes h
  simp only [contentBlockHandler] at h
  split at h
  · cases h
    simp +decide [guardedKeys]
  · obtain ⟨content, h⟩ := of_fieldsOf_bind h
    cases h
    simp +decide [guardedKeys]
  · cases h
    exact allAsked_nil

/-- The nodes to which an event brings a result. -/
def resultsOf (o : Occurrence) (id : NodeId) : Prop := BringsResult id o.name o.data

theorem asks_toolCallHandler : Asks (resultsOf o) toolCallHandler o := by
  intro c c' writes h
  -- the events that bring a result bring it to the node of their own call
  have hresult : ∀ {toolCallId : String}, o.name ∈ ["tool:post", "tool:error"] →
      (o.data.str "tool_call_id").filter (· ≠ "") = some toolCallId →
      ∀ key ∈ resultKeys, ∀ value, Allowed (resultsOf o) toolCallId {"ToolCall", "SST_EVENT"}
        (key, value) := by
    intro toolCallId hname hid key hkey value
    have hother : ∀ key ∈ resultKeys, key ≠ "last_updated" ∧ key ≠ "status" := by decide
    exact ⟨(hother key hkey).1, fun _ => ⟨hname, (Option.filter_eq_some_iff.1 hid).1⟩,
      fun hstatus => absurd hstatus (hother key hkey).2⟩
  unfold toolCallHandler at h
  split at h
  · cases h
    simp +decide [guardedKeys]
  · rename_i hname hid
    cases h
    have hfields := hresult (by rw [hname]; decide) hid
    simp only [resultKeys, List.forall_mem_cons] at hfields
    simp +decide [guardedKeys, hfields]
  · rename_i hname hid
    obtain ⟨result, h⟩ := of_fieldsOf_bind h
    cases h
    have hfields := hresult (by rw [hname]; decide) hid
    simp only [resultKeys, List.forall_mem_cons] at hfields
    simp +decide [guardedKeys, hfields]
  · cases h
    exact allAsked_nil

theorem asks_promptHandler : Asks results promptHandler o := by
  intro c c' writes h
  unfold promptHandler at h
  split at h <;> cases h <;> simp +decide [guardedKeys]

theorem asks_cancellationHandler : Asks results cancellationHandler o := by
  intro c c' writes h
  unfold cancellationHandler at h
  split at h <;> cases h <;> simp +decide [guardedKeys]

theorem asks_contextCompactionHandler : Asks results contextCompactionHandler o := by
  intro c c' writes h
  unfold contextCompactionHandler at h
  split at h <;> cases h <;> simp +decide [guardedKeys]

theorem asks_skillLoadHandler : Asks results skillLoadHandler o := by
  intro c c' writes h
  unfold skillLoadHandler at h
  split at h
  · cases h
    simp +decide [guardedKeys]
  · split at h <;> cases h <;> simp +decide [guardedKeys]
  · cases h
    exact allAsked_nil

theorem asks_recipeRunEnricher : Asks results recipeRunEnricher o := by
  intro c c' writes h
  unfold recipeRunEnricher at h
  split at h <;> cases h <;> simp +decide [guardedKeys]

theorem asked_newStep {results : NodeId → Prop} {o : Occurrence} {c c' : Cursors}
    {stepId : NodeId → NodeId}
    {fields : List (String × Value)} {disambiguator : Option String} {writes : List Write}
    (hkeys : ∀ key ∈ fields.map Prod.fst, key ∉ guardedKeys)
    (h : newStep o c stepId fields disambiguator = (c', writes)) : AllAsked results writes := by
  unfold newStep at h
  split at h <;> obtain ⟨-, rfl⟩ := Prod.mk.inj h
  · exact allAsked_nil
  · simp +decide [allAllowed_of_keys hkeys]

theorem asks_recipeStepHandler : Asks results (recipeStepHandler env) o := by
  intro c c' writes h
  unfold recipeStepHandler at h
  split at h
  · exact asked_newStep (by simp [guardedKeys]) (Except.ok.inj h)
  · refine asked_newStep ?_ (Except.ok.inj h)
    unfold Payload.optional
    split <;> simp [guardedKeys]
  · exact asked_newStep (by simp [guardedKeys]) (Except.ok.inj h)
  · split at h <;> cases h <;> simp
  · cases h
    exact allAsked_nil

theorem asks_spawnedEdges (parentSessionId toolCallId resolved : String) :
    Asks results (spawnedEdges parentSessionId toolCallId resolved) o := by
  intro c c' writes h
  cases h
  cases o.data.str "parallel_group_id" <;> simp

theorem asks_handleLifecycle (parentSessionId toolCallId : String) :
    Asks results (handleLifecycle parentSessionId toolCallId) o := by
  intro c c' writes h
  cases h
  have hfields : AllAllowed results (delegationId parentSessionId toolCallId)
      {"Delegation", "SST_EVENT"}
      (lifecycleFields o) := by
    unfold lifecycleFields
    split
    · simp [guardedKeys]
    · split
      · simp [guardedKeys]
      · split <;> simp [guardedKeys]
  simp +decide [hfields]

theorem asks_pushRecipeRun (sourceEvent : String) (disambiguator : Option String) :
    Asks results (pushRecipeRun sourceEvent disambiguator) o := by
  intro c c' writes h
  cases h
  simp

theorem asked_defaultHandler : ∀ write ∈ defaultHandler env o, Asked results write.call := by
  have hlabel : ¬ Disjoint (deriveLabels o.name) statusLabels := by
    refine Finset.not_disjoint_iff.2 ⟨"Event", ?_, by decide⟩
    simp [deriveLabels]
  have hlift : ∀ {data : Payload} {keys : List String},
      (∀ key ∈ keys, key ∉ "last_updated" :: resultKeys) →
      AllAllowed results (o.eventNodeId env) (deriveLabels o.name) (liftKeys data keys) := by
    intro data keys h
    refine allAllowed_flatMap fun key hkey => allAllowed_optional fun value => ?_
    have hkey := h key hkey
    rw [List.mem_cons, not_or] at hkey
    exact ⟨hkey.1, fun hres => absurd hres hkey.2, fun _ => .inl hlabel⟩
  have hfamilies : ∀ family ∈ liftedKeys, ∀ key ∈ family.2, key ∉ "last_updated" :: resultKeys := by
    decide
  have hfields : AllAllowed results (o.eventNodeId env) (deriveLabels o.name)
      (liftedFields o.name o.data) := by
    refine allAllowed_append.2 ⟨allAllowed_append.2 ⟨hlift (by decide), ?_⟩, ?_⟩
    · refine allAllowed_flatMap fun family hfamily => ?_
      split
      · exact hlift (hfamilies family hfamily)
      · exact allAllowed_nil
    · split
      · exact hlift (by decide)
      · exact allAllowed_nil
  have hedge : Asked results (Write.edge o.sessionId (o.eventNodeId env)
      [("type", .str "HAS_EVENT"), ("occurred_at", .str o.timestamp)]).call := ⟨_, rfl⟩
  simp [defaultHandler, hfields, hedge, guardedKeys]

end Enrichers

/-! ## Hooks -/

namespace Traced

variable (env : Env)

theorem allAllowed_sessionStub (sid : NodeId) (data : Payload) (workingDir : Option String)
    (existing : Option Node) :
    AllAllowed results id labels (sessionStub sid data workingDir existing).2 := by
  cases existing with
  | none => simp [sessionStub, guardedKeys]
  | some node =>
    simp only [sessionStub]
    split <;> simp [guardedKeys]

theorem disjoint_sessionStub (id : NodeId) (data : Payload) (workingDir : Option String)
    (existing : Option Node) : Disjoint (sessionStub id data workingDir existing).1 typeLabels := by
  cases existing with
  | none => exact (by decide : Disjoint {"Session", "StubSession"} typeLabels)
  | some node => exact (by decide : Disjoint {"Session"} typeLabels)

/-- What `ensure_session_node` asks is no more than any event may ask. -/
theorem only_stub (id : NodeId) (data : Payload) (workingDir : Option String) :
    Only (fun call => ∀ results, Requested results call)
      (ensureSessionNode id data workingDir) := by
  refine Only.bind (Only.lift _) fun w => Only.ite (Only.pure ()) ?_
  refine Only.bind (Only.lift _) fun existing => ?_
  refine Only.bind (only_call fun results => ⟨?_, fun _ _ => ?_⟩) fun _ => Only.lift _
  · exact allAllowed_sessionStub _ _ _ _
  · exact disjoint_sessionStub _ _ _ _

theorem only_ensureSessionNode (id : NodeId) (data : Payload) (workingDir : Option String) :
    Only (Requested results) (ensureSessionNode id data workingDir) :=
  (only_stub id data workingDir).mono fun _ h => h results

theorem only_applyTransition (id : NodeId) (current : Option SessionType) (event : Lifecycle)
    (hasParent : Bool) :
    Only (Asked results) (applyTransition id (classify current event hasParent)) :=
  Only.ite (Only.pure ()) (only_call ⟨current, event, hasParent, rfl⟩)

theorem only_linkParent (type parentId : String) (o' : Occurrence) :
    Only (Requested results) (linkParent type parentId o') :=
  Only.bind (only_ensureSessionNode _ _ _) fun _ => only_call ⟨⟨type, rfl⟩, fun _ => trivial⟩

theorem only_relinkParent (current : Option SessionType) (parentId : String) (o' : Occurrence) :
    Only (Requested results) (relinkParent current parentId o') := by
  unfold relinkParent
  split
  · exact Only.bind (only_call ⟨trivial, fun _ => trivial⟩) fun _ => only_linkParent _ _ _
  · exact only_linkParent _ _ _

variable (o : Occurrence)

theorem only_mountPlan : Only (Requested results) (performAll (mountPlan o)) :=
  only_performAll (show AllAsked results (mountPlan o) by simp +decide [mountPlan])

theorem only_sessionHandler : Only (Asked results) (sessionHandler env o) := by
  have hsource : ∀ name,
      Asked results (.upsertEdge o.sessionId (o.sourceId name none) sourcedFrom) :=
    fun _ => ⟨_, rfl⟩
  have hasked : ∀ call, Requested results call → Asked results call := fun _ => Requested.asked
  have hplan := (only_mountPlan o).mono hasked
  refine Only.ite ?_ (Only.ite ?_ (Only.ite ?_ (Only.pure ())))
  all_goals refine Only.bind (Only.lift _) fun labels => Only.bind (only_call ?_) fun _ =>
    Only.bind (only_call (hsource _)) fun _ => ?_
  · simp [Asked, startFields, guardedKeys]
  · exact Only.bind (only_applyTransition _ _ _ _) fun _ =>
      Only.ite ((only_linkParent _ _ o).mono hasked) (Only.pure ())
  · simp [Asked, forkFields, guardedKeys]
  · exact Only.bind (only_applyTransition _ _ _ _) fun _ =>
      Only.ite (Only.bind ((only_relinkParent _ _ o).mono hasked) fun _ => hplan) hplan
  · have hstatus : ∀ labels, Allowed results o.sessionId labels ("status", .str "completed") :=
      fun _ => ⟨by simp, by simp [resultKeys], fun _ => .inr rfl⟩
    simp only [Asked, endFields]
    split <;> simp [hstatus, guardedKeys]
  · exact only_applyTransition _ _ _ _

theorem only_delegationHandler : Only (Requested results) (delegationHandler env o) := by
  unfold delegationHandler
  refine Only.ite ?_ (Only.pure ())
  split
  · refine Only.ite ?_ (only_enrich (asks_handleLifecycle o _ _))
    refine Only.bind (Only.lift _) fun resolved => Only.bind (only_performAll ?_) fun _ => ?_
    · show AllAsked results (spawnedNodes _ _ resolved o)
      simp only [spawnedNodes]
      split <;> simp +decide [guardedKeys]
    · exact Only.bind (only_ensureSessionNode _ _ _) fun _ =>
        only_enrich (asks_spawnedEdges o _ _ _)
  · exact Only.pure ()

theorem only_handleRecipeStart (sourceEvent : String) (disambiguator : Option String)
    (o : Occurrence) : Only (Requested results)
      (handleRecipeStart sourceEvent disambiguator o) := by
  refine Only.bind (only_performAll ?_) fun _ => Only.bind ?_ fun _ =>
    only_enrich (asks_pushRecipeRun o _ _)
  · show AllAsked results (recipeStartNodes o)
    simp only [recipeStartNodes]
    split <;> simp +decide [guardedKeys, allowed_status, statusLabels]
  · unfold linkParentRun
    split
    · exact Only.pure ()
    · exact Only.bind (only_ensureSessionNode _ _ _) fun _ => only_call ⟨⟨_, rfl⟩, fun _ => trivial⟩

theorem only_recipeRunHandler : Only (Requested results) (recipeRunHandler env o) := by
  refine Only.bind (Only.lift _) fun w => Only.ite (only_handleRecipeStart _ _ o) ?_
  exact Only.ite (only_handleRecipeStart _ _ o) (only_enrich (asks_recipeRunEnricher o))

def beforeTool (env : Env) : List (Occurrence → Trace Unit) := (enrichers env).take 4

def afterTool (env : Env) : List (Occurrence → Trace Unit) := (enrichers env).drop 5

/-- The handlers behind that of the sessions and before that of the tool calls. -/
theorem only_beforeTool :
    ∀ hook ∈ (beforeTool env).tail.map fun enricher => enricher o,
      Only (Requested results) hook := by
  simp only [beforeTool, enrichers, List.take_succ_cons, List.take_zero, List.tail_cons,
    List.map_cons, List.map_nil, List.forall_mem_cons, List.not_mem_nil, false_imp_iff,
    implies_true, and_true]
  exact ⟨only_enrich (asks_orchestratorRunHandler o), only_enrich (asks_iterationHandler o),
    only_enrich (asks_contentBlockHandler env o)⟩

theorem only_afterTool :
    ∀ hook ∈ (afterTool env).map fun enricher => enricher o, Only (Requested results) hook := by
  simp only [afterTool, enrichers, List.drop_succ_cons, List.drop_zero, List.map_cons,
    List.map_nil, List.forall_mem_cons, List.not_mem_nil, false_imp_iff, implies_true, and_true]
  exact ⟨only_enrich (asks_promptHandler o), only_enrich (asks_cancellationHandler o),
    only_enrich (asks_contextCompactionHandler o), only_delegationHandler env o,
    only_enrich (asks_skillLoadHandler o), only_recipeRunHandler env o,
    only_enrich (asks_recipeStepHandler env o)⟩

/-- Only the handler of tool calls brings results. -/
theorem only_tail :
    ∀ hook ∈ (enrichers env).tail.map fun enricher => enricher o,
      Only (Requested (resultsOf o)) hook := by
  have hsplit : (enrichers env).tail
    = (beforeTool env).tail ++ enrich toolCallHandler :: afterTool env := rfl
  rw [hsplit, List.map_append, List.map_cons, List.forall_mem_append, List.forall_mem_cons]
  exact ⟨only_beforeTool env o, only_enrich (asks_toolCallHandler o), only_afterTool env o⟩

theorem only_enrichers :
    ∀ hook ∈ (enrichers env).map fun enricher => enricher o, Only (Asked (resultsOf o)) hook := by
  have hsplit : enrichers env = sessionHandler env :: (enrichers env).tail := rfl
  rw [hsplit, List.map_cons, List.forall_mem_cons]
  exact ⟨only_sessionHandler env o, fun hook hhook =>
    (only_tail env o hook hhook).mono fun _ => Requested.asked⟩

theorem only_touchSession {env : Env} {P : Call → Prop} {sid : NodeId} {timestamp : String}
    (h : P (.upsertNode sid {"Session"} [("last_updated", .str timestamp)])) :
    Only P (touchSession env sid timestamp) := by
  refine Only.quietly (Only.bind (Only.lift _) fun existing => ?_)
  cases existing with
  | none => exact Only.pure ()
  | some node => exact Only.ite (only_call h) (Only.pure ())

/-- A property of all calls of an event: of what `ensure_session_node` asks, of what the handlers
ask, and of the time of the event. -/
theorem only_processEvent {env : Env} {P : Call → Prop} {sid : NodeId} {e : Event}
    (hstub : ∀ call, (∀ results, Asked results call) → P call)
    (hasked : ∀ o, prepare env sid e = .ok o → ∀ call, Asked (resultsOf o) call → P call)
    (htouch : ∀ timestamp, P (.upsertNode sid {"Session"} [("last_updated", .str timestamp)])) :
    Only P (processEvent env sid e) := by
  refine only_processEvent_of ?_ (fun o hprep write hwrite => ?_) (fun o hprep => ?_)
    fun timestamp => only_touchSession (htouch timestamp)
  · exact (only_stub _ _ _).mono fun call h => hstub call fun results => (h results).asked
  · exact hasked o hprep _ (asked_defaultHandler env o write hwrite)
  · exact fun w call hcall => hasked o hprep call (only_runAll (only_enrichers env o) w call hcall)

theorem fromHandlers_processEvent (env : Env) (sid : NodeId) (e : Event) :
    Only FromHandlers (processEvent env sid e) :=
  only_processEvent (fun _ h => (h fun _ => True).fromHandlers) (fun _ _ _ h => h.fromHandlers)
    fun _ => trivial

end Traced

/-! ## Handlers of other events -/

/-- The events each enricher claims, in the order of `enrichers`. -/
def handledEvents : List (List String) :=
  [["session:start", "session:fork", "session:end"],
    ["execution:start", "execution:end", "orchestrator:complete"],
    ["provider:request", "llm:request", "llm:response"],
    ["content_block:start", "content_block:end"],
    ["tool:pre", "tool:post", "tool:error"],
    ["prompt:submit"],
    ["cancel:completed"],
    ["context:pre_compact", "context:post_compact"],
    delegationEvents,
    ["skill:loaded", "skill:unloaded"],
    ["recipe:start", "recipe:complete", "recipe:approval", "recipe:loop_iteration",
      "recipe:loop_complete"],
    ["recipe:step", "recipe:approval", "recipe:loop_iteration", "tool:pre"]]

namespace Traced

/-- The handler does nothing in this state. -/
def Idle (hook : Trace Unit) (w : World) : Prop := hook.run w = (.ok (), w) ∧ hook.calls w = []

theorem idle_enrich {enricher : Enricher} {o : Occurrence} {w : World}
    (h : enricher o w.cursors = .ok (w.cursors, [])) : Idle (enrich enricher o) w := by
  constructor
  · simp only [run_enrich, Handlers.enrich, Eff.bind_apply, Eff.get_apply, h]
    rfl
  · simp only [enrich, h, List.map_nil]

theorem idle_of_not_handled (env : Env) (o : Occurrence) (w : World) :
    List.Forall₂ (fun names enricher => o.name ∉ names → Idle (enricher o) w)
      handledEvents (enrichers env) := by
  unfold handledEvents enrichers
  repeat' apply List.Forall₂.cons
  any_goals exact List.Forall₂.nil
  all_goals intro h
  · simp only [List.mem_cons, List.not_mem_nil, or_false, not_or] at h
    simp only [sessionHandler, h, if_false]
    exact ⟨rfl, rfl⟩
  · apply idle_enrich
    unfold orchestratorRunHandler
    split <;> simp_all
  · apply idle_enrich
    unfold iterationHandler
    split <;> simp_all
  · apply idle_enrich
    simp only [contentBlockHandler]
    split <;> simp_all
  · apply idle_enrich
    unfold toolCallHandler
    split <;> simp_all
  · apply idle_enrich
    simp_all [promptHandler]
  · apply idle_enrich
    simp_all [cancellationHandler]
  · apply idle_enrich
    simp_all [contextCompactionHandler]
  · simp only [delegationHandler, h, if_false]
    exact ⟨rfl, rfl⟩
  · apply idle_enrich
    unfold skillLoadHandler
    split <;> simp_all
  · simp only [List.mem_cons, List.not_mem_nil, or_false, not_or] at h
    have hget : (Recorded.lift Eff.get : Trace World).run w = (.ok w, w) := rfl
    have hidle : Idle (enrich recipeRunEnricher o) w := by
      apply idle_enrich
      unfold recipeRunEnricher
      split <;> simp_all
    simp only [recipeRunHandler, h, false_and, if_false]
    exact ⟨(Eff.bind_of_ok hget).trans hidle.1, (Recorded.calls_bind_of_ok hget).trans hidle.2⟩
  · apply idle_enrich
    unfold recipeStepHandler
    split <;> simp_all

end Traced

/-- The enrichers do nothing about an event that none of them claims. -/
theorem runAll_of_unclaimed (env : Env) {o : Occurrence}
    (h : ∀ names ∈ handledEvents, o.name ∉ names)
    (w : World) : runAll ((enrichers env).map fun enricher => enricher o) w = (.ok (), w) := by
  rw [← Traced.run_enrichers, ← Traced.run_runAll]
  have hidle := Traced.idle_of_not_handled env o w
  generalize handledEvents = claims at h hidle
  generalize Traced.enrichers env = hooks at hidle ⊢
  induction hidle with
  | nil => rfl
  | cons hfirst _ ih =>
    obtain ⟨hname, hrest⟩ := List.forall_mem_cons.1 h
    exact (Eff.bind_of_ok (hfirst hname).1).trans (ih hrest)

end ContextIntelligence.Handlers
