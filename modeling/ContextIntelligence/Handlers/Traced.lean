import ContextIntelligence.Graph.Calls
import ContextIntelligence.Handlers.CursorFrames
import ContextIntelligence.Lib.Recording

/-!
# The store calls of an event

The handlers with a record of the calls they make on the store. Each traced handler runs as the one
it traces (`run_processEvent`), and the buffer is changed by the recorded calls and by nothing else
(`buffer_processEvent`).
-/

namespace ContextIntelligence.Handlers

open Lib Lib.Effects Lib.Recording ContextIntelligence.Graph

variable (env : Env)

abbrev Trace (α : Type) := Recorded World Fault Call α

namespace Traced

/-! ## Primitives and services -/

def call (c : Call) : Trace Unit := ⟨Eff.modify (World.onBuffer (·.call c)), fun _ => [c]⟩

def performAll (writes : List Write) : Trace Unit :=
  ⟨Graph.performAll writes, fun _ => writes.map Write.call⟩

def enrich (enricher : Enricher) (o : Occurrence) : Trace Unit where
  run := Handlers.enrich enricher o
  calls w :=
    match enricher o w.cursors with
    | .error _ => []
    | .ok (_, writes) => writes.map Write.call

def ensureSessionNode (sessionId : NodeId) (data : Payload) (workingDir : Option String) :
    Trace Unit := do
  let w ← Recorded.lift Eff.get
  if sessionId ∈ w.cursors.seenSessions then
    pure ()
  else
    let existing ← Recorded.lift (getNode sessionId)
    let row := sessionStub sessionId data workingDir existing
    call (.upsertNode sessionId row.1 row.2)
    Recorded.lift (Eff.modify (World.markSeen sessionId))

def touchSession (env : Env) (sessionId : NodeId) (timestamp : String) : Trace Unit :=
  Recorded.quietly do
    match ← Recorded.lift (getNode sessionId) with
    | none => pure ()
    | some node =>
      if advances env timestamp (node.props "last_updated") then
        call (.upsertNode sessionId {"Session"} [("last_updated", .str timestamp)])
      else pure ()

/-! ## The session handler -/

def applyTransition (sessionId : NodeId) (t : LabelTransition) : Trace Unit :=
  if t.add = [] ∧ t.remove = [] then pure () else call (.setLabels sessionId t.remove t.add)

def linkParent (type parentId : String) (o : Occurrence) : Trace Unit := do
  ensureSessionNode parentId [] none
  call (.upsertEdge parentId o.sessionId
    (semantic type "LEADS_TO" ++ [("occurred_at", .str o.timestamp)]))

def handleStart (o : Occurrence) : Trace Unit := do
  let parentId := parentOf o.data
  let labels ← Recorded.lift (readLabels o.sessionId)
  call (.upsertNode o.sessionId {"Session"} (startFields o))
  call (.upsertEdge o.sessionId (o.sourceId "session:start" none) sourcedFrom)
  let t := classify (currentType labels) .start (parentId ≠ "")
  applyTransition o.sessionId t
  if "SubSession" ∈ t.add ∧ parentId ≠ "" then linkParent "HAS_SUBSESSION" parentId o else pure ()

def relinkParent (current : Option SessionType) (parentId : String) (o : Occurrence) :
    Trace Unit := do
  if current = some .root ∨ current = some .sub then
    call (.removeEdge parentId o.sessionId)
  linkParent "FORKED" parentId o

def handleFork (env : Env) (o : Occurrence) : Trace Unit := do
  let parentId := parentOf o.data
  let labels ← Recorded.lift (readLabels o.sessionId)
  call (.upsertNode o.sessionId {"Session"} (forkFields env o))
  call (.upsertEdge o.sessionId (o.sourceId "session:fork" none) sourcedFrom)
  let t := classify (currentType labels) .fork (parentId ≠ "")
  applyTransition o.sessionId t
  if "ForkedSession" ∈ t.add ∧ parentId ≠ "" then
    relinkParent (currentType labels) parentId o
  performAll (mountPlan o)

def handleEnd (o : Occurrence) : Trace Unit := do
  let labels ← Recorded.lift (readLabels o.sessionId)
  call (.upsertNode o.sessionId ({"Session", "SST_EVENT"} ∪ labels) (endFields o))
  call (.upsertEdge o.sessionId (o.sourceId "session:end" none) sourcedFrom)
  applyTransition o.sessionId (classify (currentType labels) .finish (parentOf o.data ≠ ""))

def sessionHandler (env : Env) (o : Occurrence) : Trace Unit :=
  if o.name = "session:start" then handleStart o
  else if o.name = "session:fork" then handleFork env o
  else if o.name = "session:end" then handleEnd o
  else pure ()

/-! ## Delegations and recipes -/

def handleSpawned (env : Env) (parentSessionId toolCallId : String) (o : Occurrence) :
    Trace Unit := do
  let resolved ← Recorded.lift (resolveAgent env ((o.data.str "agent").getD "") parentSessionId)
  performAll (spawnedNodes parentSessionId toolCallId resolved o)
  ensureSessionNode ((o.data.str "sub_session_id").getD "")
    [("agent", .str ((o.data.str "agent").getD ""))] none
  enrich (spawnedEdges parentSessionId toolCallId resolved) o

def delegationHandler (env : Env) (o : Occurrence) : Trace Unit :=
  let present (key : String) : Option String := (o.data.str key).filter (· ≠ "")
  if o.name ∈ delegationEvents then
    match present "parent_session_id", (present "tool_call_id").or (present "sub_session_id") with
    | some parentSessionId, some toolCallId =>
      if o.name = "delegate:agent_spawned" then handleSpawned env parentSessionId toolCallId o
      else enrich (handleLifecycle parentSessionId toolCallId) o
    | _, _ => pure ()
  else pure ()

def linkParentRun (o : Occurrence) : Trace Unit :=
  match (o.data.str "parent_session_id").filter (· ≠ "") with
  | none => pure ()
  | some parent => do
      ensureSessionNode parent [] none
      call (.upsertEdge parent (recipeRunId o) (semantic "SPAWNED_RECIPE_RUN" "LEADS_TO"))

def handleRecipeStart (sourceEvent : String) (disambiguator : Option String) (o : Occurrence) :
    Trace Unit := do
  performAll (recipeStartNodes o)
  linkParentRun o
  enrich (pushRecipeRun sourceEvent disambiguator) o

def recipeRunHandler (env : Env) (o : Occurrence) : Trace Unit := do
  let w ← Recorded.lift Eff.get
  if o.name = "recipe:start" then handleRecipeStart "recipe:start" none o
  else if o.name = "recipe:approval" ∧ w.cursors.layer3.activeRecipeRunStack = [] then
    handleRecipeStart "recipe:approval" (o.data.text env "stage_name") o
  else enrich recipeRunEnricher o

/-! ## Events -/

def enrichers (env : Env) : List (Occurrence → Trace Unit) :=
  [sessionHandler env, enrich orchestratorRunHandler, enrich iterationHandler,
    enrich (contentBlockHandler env), enrich toolCallHandler, enrich promptHandler,
    enrich cancellationHandler, enrich contextCompactionHandler, delegationHandler env,
    enrich skillLoadHandler, recipeRunHandler env, enrich (recipeStepHandler env)]

def runAll (hooks : List (Trace Unit)) : Trace Unit :=
  hooks.foldr (fun hook rest => do hook; rest) (pure ())

def processEvent (env : Env) (sessionId : NodeId) (e : Event) : Trace Unit := do
  ensureSessionNode sessionId e.data e.workingDir
  let o ← Recorded.lift (orRaise (prepare env sessionId e))
  performAll (defaultHandler env o)
  runAll ((enrichers env).map fun enricher => enricher o)
  touchSession env sessionId o.timestamp

/-! ## Forgetting the record -/

@[simp] theorem run_call (c : Call) : (call c).run = Eff.modify (World.onBuffer (·.call c)) := rfl

@[simp] theorem run_performAll (writes : List Write) :
    (performAll writes).run = Graph.performAll writes := rfl

@[simp] theorem run_enrich (enricher : Enricher) (o : Occurrence) :
    (enrich enricher o).run = Handlers.enrich enricher o := rfl

@[simp] theorem run_ensureSessionNode (sid : NodeId) (data : Payload) (workingDir : Option String) :
    (ensureSessionNode sid data workingDir).run
      = Graph.ensureSessionNode sid data workingDir := by
  simp [ensureSessionNode, Graph.ensureSessionNode, upsertNode, Buffer.call]

@[simp] theorem run_touchSession (sid : NodeId) (timestamp : String) :
    (touchSession env sid timestamp).run = Graph.touchSession env sid timestamp := by
  simp only [touchSession, Graph.touchSession, Recorded.run_quietly, Recorded.run_bind,
    Recorded.run_lift]
  congr 2
  funext existing
  cases existing with
  | none => rfl
  | some node => simp [upsertNode, Buffer.call]

@[simp] theorem run_applyTransition (sid : NodeId) (t : LabelTransition) :
    (applyTransition sid t).run = Handlers.applyTransition sid t := by
  simp [applyTransition, Handlers.applyTransition, setLabels, Buffer.call]

@[simp] theorem run_linkParent (type parentId : String) (o : Occurrence) :
    (linkParent type parentId o).run = Handlers.linkParent type parentId o := by
  simp [linkParent, Handlers.linkParent, upsertEdge, Buffer.call]

@[simp] theorem run_relinkParent (current : Option SessionType) (parentId : String)
    (o : Occurrence) :
    (relinkParent current parentId o).run = Handlers.relinkParent current parentId o := by
  simp [relinkParent, Handlers.relinkParent, Buffer.call]

@[simp] theorem run_sessionHandler (o : Occurrence) :
    (sessionHandler env o).run = Handlers.sessionHandler env o := by
  simp [sessionHandler, Handlers.sessionHandler, handleStart, Handlers.handleStart, handleFork,
    Handlers.handleFork, handleEnd, Handlers.handleEnd, upsertNode, upsertEdge, Buffer.call]

@[simp] theorem run_handleSpawned (parentSessionId toolCallId : String) (o : Occurrence) :
    (handleSpawned env parentSessionId toolCallId o).run
      = Handlers.handleSpawned env parentSessionId toolCallId o := by
  simp [handleSpawned, Handlers.handleSpawned]

@[simp] theorem run_delegationHandler (o : Occurrence) :
    (delegationHandler env o).run = Handlers.delegationHandler env o := by
  simp only [delegationHandler, Handlers.delegationHandler]
  rw [Recorded.run_ite]
  congr 1
  generalize (o.data.str "parent_session_id").filter _ = parent
  generalize ((o.data.str "tool_call_id").filter _).or _ = toolCall
  cases parent <;> cases toolCall <;> simp

@[simp] theorem run_linkParentRun (o : Occurrence) :
    (linkParentRun o).run = Handlers.linkParentRun o := by
  simp only [linkParentRun, Handlers.linkParentRun]
  generalize (o.data.str "parent_session_id").filter _ = parent
  cases parent with
  | none => rfl
  | some parent => simp [upsertEdge, Buffer.call]

@[simp] theorem run_recipeRunHandler (o : Occurrence) :
    (recipeRunHandler env o).run = Handlers.recipeRunHandler env o := by
  simp [recipeRunHandler, Handlers.recipeRunHandler, handleRecipeStart, Handlers.handleRecipeStart]

/-- The traced hooks run as the hooks. -/
theorem run_runAll (hooks : List (Trace Unit)) :
    (runAll hooks).run = Handlers.runAll (hooks.map Recorded.run) := by
  induction hooks with
  | nil => rfl
  | cons hook rest ih =>
    simp only [runAll, List.foldr_cons, Recorded.run_bind, Handlers.runAll, List.map_cons]
    congr 1
    funext _
    exact ih

/-- The hooks of a list are reached where those in front of them return. -/
theorem mem_calls_runAll_append {hooks hooks' : List (Trace Unit)} {w w₁ : World} {call : Call}
    (h : (runAll hooks).run w = (.ok (), w₁)) (hcall : call ∈ (runAll hooks').calls w₁) :
    call ∈ (runAll (hooks ++ hooks')).calls w := by
  induction hooks generalizing w with
  | nil =>
    cases h
    exact hcall
  | cons hook rest ih =>
    change (hook.run >>= fun _ => (runAll rest).run) w = _ at h
    rcases hrun : hook.run w with ⟨fault | a, w'⟩
    · rw [Eff.bind_of_error hrun] at h
      cases h
    · rw [Eff.bind_of_ok hrun] at h
      exact Recorded.mem_calls_bind_right hrun (ih h)

theorem run_enrichers (o : Occurrence) :
    (((enrichers env).map fun enricher => enricher o).map Recorded.run)
      = (Handlers.enrichers env).map fun enricher => enricher o := by
  simp [enrichers, Handlers.enrichers]

/-- A traced event runs as the event. -/
theorem run_processEvent (sid : NodeId) (e : Event) :
    (processEvent env sid e).run = Handlers.processEvent env sid e := by
  simp only [processEvent, Handlers.processEvent, Recorded.run_bind, Recorded.run_lift,
    run_ensureSessionNode, run_performAll, run_runAll, run_enrichers, run_touchSession]

/-! ## The buffer moves by the calls -/

abbrev OnStore {α : Type} (m : Trace α) : Prop := Acts World.buffer Buffer.call m

theorem buffer_consumesFates : ConsumesFates (Keeps World.buffer) := fun _ _ _ _ => rfl

theorem onStore_call (c : Call) : OnStore (call c) := fun _ => rfl

theorem onStore_performAll (writes : List Write) : OnStore (performAll writes) :=
  fun w => foldl_perform writes w.buffer

theorem onStore_enrich (enricher : Enricher) (o : Occurrence) : OnStore (enrich enricher o) := by
  intro w
  simp only [enrich, Handlers.enrich, Eff.bind_apply, Eff.get_apply]
  cases enricher o w.cursors with
  | error fault => rfl
  | ok result => exact foldl_perform result.2 w.buffer

theorem onStore_ensureSessionNode (id : NodeId) (data : Payload) (workingDir : Option String) :
    OnStore (ensureSessionNode id data workingDir) := by
  refine Acts.bind (Acts.lift Respects.get) fun w => Acts.ite (Acts.pure ()) ?_
  refine Acts.bind (Acts.lift (buffer_consumesFates.getNode id)) fun existing => ?_
  exact Acts.bind (onStore_call _) fun _ => Acts.lift (Respects.modify fun _ => rfl)

theorem onStore_touchSession (id : NodeId) (timestamp : String) :
    OnStore (touchSession env id timestamp) := by
  refine Acts.quietly (Acts.bind (Acts.lift (buffer_consumesFates.getNode id)) fun existing => ?_)
  cases existing with
  | none => exact Acts.pure ()
  | some node => exact Acts.ite (onStore_call _) (Acts.pure ())

theorem onStore_applyTransition (id : NodeId) (t : LabelTransition) :
    OnStore (applyTransition id t) :=
  Acts.ite (Acts.pure ()) (onStore_call _)

theorem onStore_linkParent (type parentId : String) (o : Occurrence) :
    OnStore (linkParent type parentId o) :=
  Acts.bind (onStore_ensureSessionNode _ _ _) fun _ => onStore_call _

theorem onStore_relinkParent (current : Option SessionType) (parentId : String) (o : Occurrence) :
    OnStore (relinkParent current parentId o) := by
  unfold relinkParent
  split
  · exact Acts.bind (onStore_call _) fun _ => onStore_linkParent _ _ o
  · exact onStore_linkParent _ _ o

theorem onStore_sessionHandler (o : Occurrence) : OnStore (sessionHandler env o) := by
  refine Acts.ite ?_ (Acts.ite ?_ (Acts.ite ?_ (Acts.pure ())))
  all_goals
    refine Acts.bind (Acts.lift (buffer_consumesFates.readLabels _)) fun labels => ?_
    refine Acts.bind (onStore_call _) fun _ => Acts.bind (onStore_call _) fun _ => ?_
  · refine Acts.bind (onStore_applyTransition _ _) fun _ => ?_
    exact Acts.ite (onStore_linkParent _ _ o) (Acts.pure ())
  · refine Acts.bind (onStore_applyTransition _ _) fun _ => ?_
    exact Acts.ite (Acts.bind (onStore_relinkParent _ _ o) fun _ => onStore_performAll _)
      (onStore_performAll _)
  · exact onStore_applyTransition _ _

theorem onStore_delegationHandler (o : Occurrence) : OnStore (delegationHandler env o) := by
  unfold delegationHandler
  refine Acts.ite ?_ (Acts.pure ())
  split
  · refine Acts.ite ?_ (onStore_enrich _ o)
    refine Acts.bind (Acts.lift (buffer_consumesFates.resolveAgent env _ _)) fun resolved => ?_
    refine Acts.bind (onStore_performAll _) fun _ => ?_
    exact Acts.bind (onStore_ensureSessionNode _ _ _) fun _ => onStore_enrich _ o
  · exact Acts.pure ()

theorem onStore_handleRecipeStart (sourceEvent : String) (disambiguator : Option String)
    (o : Occurrence) : OnStore (handleRecipeStart sourceEvent disambiguator o) := by
  refine Acts.bind (onStore_performAll _) fun _ => Acts.bind ?_ fun _ => onStore_enrich _ o
  unfold linkParentRun
  split
  · exact Acts.pure ()
  · exact Acts.bind (onStore_ensureSessionNode _ _ _) fun _ => onStore_call _

theorem onStore_recipeRunHandler (o : Occurrence) : OnStore (recipeRunHandler env o) := by
  refine Acts.bind (Acts.lift Respects.get) fun w => Acts.ite (onStore_handleRecipeStart _ _ o) ?_
  exact Acts.ite (onStore_handleRecipeStart _ _ o) (onStore_enrich _ o)

theorem onStore_runAll {hooks : List (Trace Unit)} (h : ∀ hook ∈ hooks, OnStore hook) :
    OnStore (runAll hooks) := by
  induction hooks with
  | nil => exact Acts.pure ()
  | cons hook rest ih =>
    apply Acts.bind (h hook (List.mem_cons_self ..))
    exact fun _ => ih fun hook' hmem => h hook' (List.mem_cons_of_mem _ hmem)

/-- Every handler moves the buffer by its calls. -/
theorem onStore_enrichers (o : Occurrence) :
    ∀ hook ∈ (enrichers env).map fun enricher => enricher o, OnStore hook := by
  simp only [enrichers, List.map_cons, List.map_nil, List.forall_mem_cons, List.not_mem_nil,
    false_imp_iff, implies_true, and_true]
  exact ⟨onStore_sessionHandler env o, onStore_enrich _ o, onStore_enrich _ o, onStore_enrich _ o,
    onStore_enrich _ o, onStore_enrich _ o, onStore_enrich _ o, onStore_enrich _ o,
    onStore_delegationHandler env o, onStore_enrich _ o, onStore_recipeRunHandler env o,
    onStore_enrich _ o⟩

theorem onStore_processEvent (sid : NodeId) (e : Event) : OnStore (processEvent env sid e) := by
  refine Acts.bind (onStore_ensureSessionNode _ _ _) fun _ => Acts.bind (Acts.lift ?_) fun o => ?_
  · unfold orRaise
    split
    · exact Respects.pure _
    · exact Respects.raise _
  · refine Acts.bind (onStore_performAll _) fun _ => ?_
    apply Acts.bind (onStore_runAll (onStore_enrichers env o))
    exact fun _ => onStore_touchSession env sid o.timestamp

/-! ## Properties of all store calls -/

section Only

variable {P : Call → Prop}

theorem only_call {call : Call} (h : P call) : Only P (Traced.call call) := by
  rintro w _ ⟨⟩
  · exact h
  · contradiction

theorem only_performAll {writes : List Write} (h : ∀ write ∈ writes, P write.call) :
    Only P (performAll writes) := by
  intro w call hcall
  obtain ⟨write, hwrite, rfl⟩ := List.mem_map.1 hcall
  exact h write hwrite

theorem only_enrich {enricher : Enricher} {o : Occurrence}
    (h : ∀ c c' writes, enricher o c = .ok (c', writes) → ∀ write ∈ writes, P write.call) :
    Only P (enrich enricher o) := by
  intro w call hcall
  simp only [enrich] at hcall
  cases hrun : enricher o w.cursors with
  | error fault =>
    rw [hrun] at hcall
    cases hcall
  | ok result =>
    rw [hrun] at hcall
    obtain ⟨write, hwrite, rfl⟩ := List.mem_map.1 hcall
    exact h _ _ _ hrun write hwrite

theorem only_runAll {hooks : List (Trace Unit)} (h : ∀ hook ∈ hooks, Only P hook) :
    Only P (runAll hooks) := by
  induction hooks with
  | nil => exact Only.pure ()
  | cons hook rest ih =>
    apply Only.bind (h hook (List.mem_cons_self ..))
    exact fun _ => ih fun hook' hmem => h hook' (List.mem_cons_of_mem _ hmem)

/-- A property of the calls of an event started in `w`; those of the enrichers are made where the
event has been recorded. -/
theorem calls_processEvent_of {env : Env} {sid : NodeId} {e : Event} {w : World}
    (hens : Only P (ensureSessionNode sid e.data e.workingDir))
    (hdef : ∀ o, prepare env sid e = .ok o → ∀ write ∈ defaultHandler env o, P write.call)
    (hhooks : ∀ o w', prepare env sid e = .ok o →
      Graph.ensureSessionNode sid e.data e.workingDir w = (.ok (), w') →
      ∀ call ∈ (runAll ((enrichers env).map fun enricher => enricher o)).calls
        (Graph.performAll (defaultHandler env o) w').2, P call)
    (htouch : ∀ timestamp, Only P (touchSession env sid timestamp)) :
    ∀ call ∈ (processEvent env sid e).calls w, P call := by
  intro call hcall
  rcases hrun : (ensureSessionNode sid e.data e.workingDir).run w with ⟨fault | _, w'⟩
  · rw [processEvent, Recorded.calls_bind_of_error hrun] at hcall
    exact hens w call hcall
  rw [processEvent, Recorded.calls_bind_of_ok hrun] at hcall
  rcases List.mem_append.1 hcall with hcall | hcall
  · exact hens w call hcall
  cases hprep : prepare env sid e with
  | error fault =>
    rw [hprep] at hcall
    have hraise : (Recorded.lift (orRaise (.error fault)) : Trace Occurrence).run w'
      = (.error fault, w') := rfl
    rw [Recorded.calls_bind_of_error hraise] at hcall
    cases hcall
  | ok o =>
    rw [hprep] at hcall
    have hok : (Recorded.lift (orRaise (.ok o)) : Trace Occurrence).run w' = (.ok o, w') := rfl
    have hrec : (performAll (defaultHandler env o)).run w'
      = (.ok (), (Graph.performAll (defaultHandler env o) w').2) := rfl
    rw [Recorded.calls_bind_of_ok hok, Recorded.calls_lift, List.nil_append,
      Recorded.calls_bind_of_ok hrec] at hcall
    rw [run_ensureSessionNode] at hrun
    rcases List.mem_append.1 hcall with hcall | hcall
    · exact only_performAll (hdef o hprep) w' call hcall
    · exact Only.bind_at (hhooks o w' hprep hrun) (fun _ => htouch o.timestamp) call hcall

theorem only_processEvent_of {env : Env} {sid : NodeId} {e : Event}
    (hens : Only P (ensureSessionNode sid e.data e.workingDir))
    (hdef : ∀ o, prepare env sid e = .ok o → ∀ write ∈ defaultHandler env o, P write.call)
    (hhooks : ∀ o, prepare env sid e = .ok o →
      Only P (runAll ((enrichers env).map fun enricher => enricher o)))
    (htouch : ∀ timestamp, Only P (touchSession env sid timestamp)) :
    Only P (processEvent env sid e) :=
  fun _ => calls_processEvent_of hens hdef (fun o _ hprep _ => hhooks o hprep _) htouch

end Only

end Traced

/-- The store calls an event makes, started in `w`. -/
def storeCalls (env : Env) (sessionId : NodeId) (e : Event) (w : World) : List Call :=
  (Traced.processEvent env sessionId e).calls w

/-- An event moves the buffer by its calls alone. -/
theorem buffer_processEvent (sid : NodeId) (e : Event) (w : World) :
    (processEvent env sid e w).2.buffer
      = (storeCalls env sid e w).foldl Buffer.call w.buffer := by
  rw [← Traced.run_processEvent]
  exact Traced.onStore_processEvent env sid e w

end ContextIntelligence.Handlers
