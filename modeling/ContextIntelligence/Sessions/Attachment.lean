import ContextIntelligence.Graph.Flush
import ContextIntelligence.Handlers.Frames
import ContextIntelligence.Handlers.Requests

/-!
# Events stay attached

The buffer has one slot for each ordered pair of nodes, and the type of an edge is one of the fields
in the slot. What a flush writes for a pair is the type that was requested last.
-/

namespace ContextIntelligence.Sessions

open Lib Lib.Recording Lib.Runs ContextIntelligence.Graph Handlers

/-! ## Workers -/

/-- What happens to a worker: it dispatches events, of whatever session, with whatever fates of
their reads; it flushes or discards its buffer; it is lost and created again. -/
inductive WorkerAction where
  | dispatch (sessionId : NodeId) (e : Event) (fates : List ReadFate)
  | flush
  | discard
  | recreate

def workerStep (env : Env) (w : World) : WorkerAction → World
  | .dispatch sessionId e fates =>
    { (processEvent env sessionId e { w with fates := fates }).2 with fates := [] }
  | .flush => w.flush env
  | .discard => w.discardBuffer
  | .recreate => { w with cursors := Cursors.fresh, buffer := Buffer.empty }

def newWorker (db : Database) : World := ⟨Cursors.fresh, Buffer.empty, db, []⟩

/-! ## Requests -/

def requestOf : Call → Option (NodeId × NodeId × String)
  | .upsertEdge src dst fields => some (src, dst, edgeType (Props.none.assign fields))
  | _ => none

def lastStep (pair : NodeId × NodeId) (last : Option String) : Call → Option String
  | .upsertEdge src dst fields =>
    if (src, dst) = pair then some (edgeType (Props.none.assign fields)) else last
  | .removeEdge src dst => if (src, dst) = pair then none else last
  | _ => last

/-- The type requested last for a pair, if it was not removed again. -/
def lastRequest (calls : List Call) (pair : NodeId × NodeId) : Option String :=
  calls.foldl (lastStep pair) none

/-- The node as which `DefaultHandler` records the event, if the event gets that far. -/
def eventRecorded (env : Env) (sessionId : NodeId) (e : Event) (w : World) : Option NodeId :=
  match ensureSessionNode sessionId e.data e.workingDir w, prepare env sessionId e with
  | (.ok _, _), .ok o => some (o.eventNodeId env)
  | _, _ => none

/-! ## Runs -/

/-- What a worker has asked of the store: the calls, and the events with their sessions. -/
structure EdgeLog where
  calls : List Call
  events : List (NodeId × NodeId)

def EdgeLog.empty : EdgeLog := ⟨[], []⟩

/-- A worker, with what was flushed and what is pending in its buffer. -/
structure EdgeRun where
  world : World
  flushed : EdgeLog
  pending : EdgeLog

def dispatchCalls (env : Env) (sessionId : NodeId) (e : Event) (fates : List ReadFate) (w : World) :
    List Call :=
  storeCalls env sessionId e { w with fates := fates }

def edgeStep (env : Env) (r : EdgeRun) (action : WorkerAction) : EdgeRun :=
  let w := workerStep env r.world action
  match action with
  | .dispatch sessionId e fates =>
    { r with
      world := w
      pending :=
        { calls := r.pending.calls ++ dispatchCalls env sessionId e fates r.world
          events := r.pending.events ++ (eventRecorded env sessionId e
            { r.world with fates := fates }).toList.map fun node => (sessionId, node) } }
  | .flush =>
    { world := w
      flushed := ⟨r.flushed.calls ++ r.pending.calls, r.flushed.events ++ r.pending.events⟩
      pending := EdgeLog.empty }
  | .discard => { r with world := w, pending := EdgeLog.empty }
  | .recreate => { r with world := w, pending := EdgeLog.empty }

def EdgeRun.initial (db : Database) : EdgeRun := ⟨newWorker db, EdgeLog.empty, EdgeLog.empty⟩

def Persists (env : Env) (w : World) (src dst : NodeId) (type : String) : Prop :=
  ((w.flush env).db.relationships src dst type).isSome

/-- Once the buffer is flushed, every recorded event is attached to its session and every requested
edge is stored. -/
structure Attached (env : Env) (r : EdgeRun) : Prop where
  events : ∀ p ∈ r.flushed.events ++ r.pending.events, Persists env r.world p.1 p.2 "HAS_EVENT"
  edges : ∀ call ∈ r.flushed.calls ++ r.pending.calls, ∀ src dst type,
    requestOf call = some (src, dst, type) → Persists env r.world src dst type

def Stored (db : Database) (src dst : NodeId) (type : String) : Prop :=
  (db.relationships src dst type).isSome

/-- Of the types requested for a pair, those that are not stored yet are the last one. -/
def Settled (db : Database) (calls : List Call) : Prop :=
  ∀ call ∈ calls, ∀ src dst type, requestOf call = some (src, dst, type) →
    Stored db src dst type ∨ lastRequest calls (src, dst) = some type

/-- After the dispatch no pending type hides another one that is not stored. -/
def LastSuffices (env : Env) (r : EdgeRun) : WorkerAction → Prop
  | .dispatch sessionId e fates =>
    Settled r.world.db (r.pending.calls ++ dispatchCalls env sessionId e fates r.world)
  | _ => True

/-! ## The slot of a pair holds the last type -/

def slotType (b : Buffer) (pair : NodeId × NodeId) : Option String :=
  (b.edges.get pair).map edgeType

theorem edgeType_of_typed {fields : List (String × Value)} {type : String}
    (h : Props.none.assign fields "type" = some (.str type)) (p : Props) :
    edgeType (p.assign fields) = edgeType (Props.none.assign fields) := by
  unfold edgeType
  rw [Props.assign_apply p, h]
  rfl

theorem slotType_call {b : Buffer} {call : Call} (hcall : FromHandlers call)
    (pair : NodeId × NodeId) :
    slotType (b.call call) pair = lastStep pair (slotType b pair) call := by
  cases call with
  | upsertNode id labels fields => rfl
  | setLabels id remove add => rfl
  | removeEdge src dst =>
    simp only [slotType, Buffer.call, Buffer.removeEdge, Dict.get_erase, lastStep]
    split <;> rfl
  | upsertEdge src dst fields =>
    obtain ⟨type, htype⟩ := hcall
    simp only [slotType, Buffer.call, Buffer.upsertEdge, Dict.get_set, lastStep]
    split
    · rw [Option.map_some, edgeType_of_typed htype]
    · rfl

theorem slotType_foldl {b : Buffer} {calls : List Call} (hcalls : ∀ call ∈ calls, FromHandlers call)
    (pair : NodeId × NodeId) :
    slotType (calls.foldl Buffer.call b) pair = calls.foldl (lastStep pair) (slotType b pair) := by
  induction calls generalizing b with
  | nil => rfl
  | cons call rest ih =>
    obtain ⟨hfirst, hrest⟩ := List.forall_mem_cons.1 hcalls
    rw [List.foldl_cons, List.foldl_cons, ih hrest, slotType_call hfirst]

/-- The buffer is what the pending calls have made of an empty one. -/
structure Logged (r : EdgeRun) : Prop where
  buffer : r.world.buffer = r.pending.calls.foldl Buffer.call Buffer.empty
  shaped : ∀ call ∈ r.pending.calls, FromHandlers call

variable {env : Env} {r : EdgeRun}

theorem persists_iff (h : Logged r) {src dst : NodeId} {type : String} :
    Persists env r.world src dst type
      ↔ Stored r.world.db src dst type ∨ lastRequest r.pending.calls (src, dst) = some type := by
  have hslot : slotType r.world.buffer (src, dst) = lastRequest r.pending.calls (src, dst) := by
    rw [h.buffer, slotType_foldl h.shaped]
    rfl
  rw [← hslot]
  simp only [Persists, World.flush, isSome_relationships_flush, Stored, slotType,
    Option.map_eq_some_iff]

/-! ## Dispatches -/

theorem logged_dispatch (h : Logged r) (sid : NodeId) (e : Event)
    (fates : List ReadFate) : Logged (edgeStep env r (.dispatch sid e fates)) := by
  refine ⟨?_, ?_⟩
  · simp only [edgeStep, workerStep, buffer_processEvent, List.foldl_append, ← h.buffer,
      dispatchCalls]
  · intro call hcall
    rcases List.mem_append.1 hcall with hcall | hcall
    · exact h.shaped call hcall
    · exact Traced.fromHandlers_processEvent env sid e _ call hcall

theorem hasEvent_requested {sid : NodeId} {e : Event} {w : World} {node : NodeId}
    (h : eventRecorded env sid e w = some node) :
    ∃ call ∈ storeCalls env sid e w, requestOf call = some (sid, node, "HAS_EVENT") := by
  unfold eventRecorded at h
  split at h
  · rename_i w' o hens hprep
    cases h
    obtain ⟨rfl, -⟩ := prepare_fields hprep
    have hfirst : (Traced.ensureSessionNode o.sessionId e.data e.workingDir).run w
        = (.ok (), w') := by
      rw [Traced.run_ensureSessionNode]
      exact hens
    have hsec : (Recorded.lift (orRaise (prepare env o.sessionId e)) : Trace Occurrence).run w'
        = (.ok o, w') := by
      rw [hprep]
      rfl
    refine ⟨.upsertEdge o.sessionId (o.eventNodeId env)
      [("type", .str "HAS_EVENT"), ("occurred_at", .str o.timestamp)], ?_, rfl⟩
    exact Recorded.mem_calls_bind_right hfirst (Recorded.mem_calls_bind_right hsec
      (Recorded.mem_calls_bind_left (List.mem_cons_of_mem _ (List.mem_cons_self ..))))
  · cases h

/-! ## Every run -/

def EventsRequested (log : EdgeLog) : Prop :=
  ∀ p ∈ log.events, ∃ call ∈ log.calls, requestOf call = some (p.1, p.2, "HAS_EVENT")

/-- What holds between two actions while the condition is met. -/
structure Kept (r : EdgeRun) : Prop where
  logged : Logged r
  settled : Settled r.world.db r.pending.calls
  stored : ∀ call ∈ r.flushed.calls, ∀ src dst type, requestOf call = some (src, dst, type) →
    Stored r.world.db src dst type
  pendingEvents : EventsRequested r.pending
  flushedEvents : EventsRequested r.flushed

theorem Kept.attached (h : Kept r) : Attached env r := by
  have hedges : ∀ call ∈ r.flushed.calls ++ r.pending.calls, ∀ src dst type,
      requestOf call = some (src, dst, type) → Persists env r.world src dst type := by
    intro call hcall src dst type hreq
    rw [persists_iff h.logged]
    rcases List.mem_append.1 hcall with hcall | hcall
    · exact .inl (h.stored call hcall src dst type hreq)
    · exact h.settled call hcall src dst type hreq
  refine ⟨?_, hedges⟩
  intro p hp
  rcases List.mem_append.1 hp with hp | hp
  · obtain ⟨call, hcall, hreq⟩ := h.flushedEvents p hp
    exact hedges call (List.mem_append_left _ hcall) _ _ _ hreq
  · obtain ⟨call, hcall, hreq⟩ := h.pendingEvents p hp
    exact hedges call (List.mem_append_right _ hcall) _ _ _ hreq

theorem EventsRequested.append {log log' : EdgeLog} (h : EventsRequested log)
    (h' : EventsRequested log') :
    EventsRequested ⟨log.calls ++ log'.calls, log.events ++ log'.events⟩ := by
  intro p hp
  rcases List.mem_append.1 hp with hp | hp
  · obtain ⟨call, hcall, hreq⟩ := h p hp
    exact ⟨call, List.mem_append_left _ hcall, hreq⟩
  · obtain ⟨call, hcall, hreq⟩ := h' p hp
    exact ⟨call, List.mem_append_right _ hcall, hreq⟩

theorem kept_dispatch (h : Kept r) {sid : NodeId} {e : Event}
    {fates : List ReadFate} (hsettle : LastSuffices env r (.dispatch sid e fates)) :
    Kept (edgeStep env r (.dispatch sid e fates)) := by
  have hdb : (edgeStep env r (.dispatch sid e fates)).world.db = r.world.db := by
    simp only [edgeStep, workerStep, db_processEvent]
  refine ⟨logged_dispatch h.logged sid e fates, ?_, ?_, ?_, h.flushedEvents⟩
  · rw [hdb]
    exact hsettle
  · rw [hdb]
    exact h.stored
  · have hnew : EventsRequested ⟨dispatchCalls env sid e fates r.world,
        (eventRecorded env sid e { r.world with fates := fates }).toList.map
          fun node => (sid, node)⟩ := by
      intro p hp
      obtain ⟨node, hnode, rfl⟩ := List.mem_map.1 hp
      exact hasEvent_requested (Option.mem_toList.1 hnode)
    exact h.pendingEvents.append hnew

theorem kept_empty (h : Kept r) (cursors : Cursors) (fates : List ReadFate) :
    Kept ⟨⟨cursors, Buffer.empty, r.world.db, fates⟩, r.flushed, EdgeLog.empty⟩ :=
  ⟨⟨rfl, nofun⟩, nofun, h.stored, nofun, h.flushedEvents⟩

theorem kept_flush (h : Kept r) : Kept (edgeStep env r .flush) := by
  refine ⟨⟨rfl, nofun⟩, nofun, ?_, nofun, h.flushedEvents.append h.pendingEvents⟩
  exact h.attached.edges

theorem kept_edgeStep (r : EdgeRun) (action : WorkerAction) (h : Kept r)
    (hlast : LastSuffices env r action) : Kept (edgeStep env r action) := by
  cases action with
  | dispatch sid e fates => exact kept_dispatch h hlast
  | flush => exact kept_flush h
  | discard => exact kept_empty h _ _
  | recreate => exact kept_empty h _ _

theorem lastSuffices_of_attached (r : EdgeRun) (action : WorkerAction) (h : Kept r)
    (hattached : Attached env (edgeStep env r action)) : LastSuffices env r action := by
  cases action with
  | dispatch sid e fates =>
    intro call hcall src dst type hreq
    have hpersisted := hattached.edges call (List.mem_append_right _ hcall) src dst type hreq
    rw [persists_iff (logged_dispatch h.logged sid e fates)] at hpersisted
    simpa only [edgeStep, workerStep, db_processEvent] using hpersisted
  | flush => trivial
  | discard => trivial
  | recreate => trivial

theorem kept_initial (db : Database) : Kept (EdgeRun.initial db) := by
  unfold EdgeRun.initial EdgeLog.empty
  exact ⟨⟨rfl, nofun⟩, nofun, nofun, nofun, nofun⟩

/-- In every run, whatever is flushed has its events attached and all requested types of edges
stored, throughout, exactly when at each dispatch every pending type that is not stored yet is the
one requested last for its pair. -/
theorem attached_iff (env : Env) (db : Database) (actions : List WorkerAction) :
    Always (edgeStep env) (Attached env) (EdgeRun.initial db) actions
      ↔ Along (edgeStep env) (LastSuffices env) (EdgeRun.initial db) actions :=
  always_iff_along kept_edgeStep (fun _ h => h.attached) lastSuffices_of_attached
    (kept_initial db) actions

def startAndFlush : List WorkerAction :=
  [.dispatch "s" (sampleEvent "session:start" "2026-01-01T00:00:00+00:00") [], .flush]

theorem startAndFlush_detached :
    ¬ Attached sampleEnv
      (run (edgeStep sampleEnv) (EdgeRun.initial Database.empty) startAndFlush) := by
  intro h
  have hattached := h.events ("s", "s__session_start__0") (by decide +kernel)
  exact absurd hattached (by unfold Persists; decide +kernel)

end ContextIntelligence.Sessions
