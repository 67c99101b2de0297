import ContextIntelligence.Graph.Flush
import ContextIntelligence.Handlers.Frames
import ContextIntelligence.Handlers.Payloads
import ContextIntelligence.Handlers.Requests

/-!
# The results of tool calls

`ToolCallHandler` records whether the result of a `tool:post` event is an error, the error and the
output. With a blob store `result` is offloaded before it runs, so it finds a reference and records
a success without output (`offloadedFailure_not_recorded`).
-/

namespace ContextIntelligence.Handlers

open Lib Lib.Effects Lib.Recording Lib.Runs ContextIntelligence.Graph

variable (env : Env)

/-! ## What the graph holds of a result -/

def stored (db : Database) (id : NodeId) (key : String) : Option Value :=
  (db.nodes id).bind fun node => node.props key

/-- A property as the graph holds it once the buffer of the worker is written. -/
def recorded (env : Env) (w : World) (id : NodeId) (key : String) : Option Value :=
  stored (w.db.flush env w.buffer) id key

def resultField (result : Payload) (key : String) : Json := (result.get key).getD .null

/-- The node of the call holds the result: success exactly without an error that is not null, and
the error and the output in the form in which the store keeps a value. -/
structure RecordedAs (env : Env) (result : Payload) (id : NodeId) (w : World) : Prop where
  success : recorded env w id "result_success"
    = some (.json (.bool ((resultField result "error").isNull)))
  output : recorded env w id "result_output"
    = sanitize env "result_output" (.json (resultField result "output"))
  error : recorded env w id "result_error"
    = sanitize env "result_error" (.json (resultField result "error"))

variable {key : String}

def specialKeys : List String :=
  ["status", "working_dir", "workspace", "node_id", "created_by", "labels", "status_if_absent"]

theorem stored_flush (b : Buffer) (db : Database) (id : NodeId) (hkey : key ∉ specialKeys) :
    stored (db.flush env b) id key
      = (rowValue env (b.fragment id).props key).or (stored db id key) := by
  simp only [specialKeys, List.mem_cons, List.not_mem_nil, or_false, not_or] at hkey
  obtain ⟨hstat, hdir, hwork, hid, hby, hlab, hgap⟩ := hkey
  have hspec : key ∉ ["labels", "created_by", "working_dir", "status_if_absent"] := by
    simp [hlab, hby, hdir, hgap]
  have hplaceholder : (placeholder env id).props key = none := by
    simp [placeholder, Props.assign, Props.none, hwork, hid]
  have hcreated : (created env id).props key = none := by
    simp [created, Props.fill, Function.update_of_ne hby, hplaceholder]
  simp only [stored, nodes_flush, Buffer.fragment]
  cases hrow : b.nodes.get id with
  | none =>
    cases hnode : db.nodes id with
    | none =>
      by_cases hend : b.HasEnd id
      · simp [writeRow, hend, hplaceholder, rowValue, Node.blank, Props.none]
      · simp [writeRow, hend, rowValue, Node.blank, Props.none]
    | some node => simp [writeRow, Node.relabel, rowValue, Node.blank, Props.none]
  | some row =>
    have hold : ((db.nodes id).getD (created env id)).props key
        = (db.nodes id).bind fun node => node.props key := by
      cases db.nodes id <;> simp [hcreated]
    simp [writeRow, Node.relabel, mergeRow_eq, Props.fill, Function.update_of_ne hstat,
      Function.update_of_ne hdir, Props.overlay, buildNodeProps, hspec, hwork, hold]

theorem not_special (hkey : key ∈ resultKeys) : key ∉ specialKeys :=
  (by decide : ∀ key ∈ resultKeys, key ∉ specialKeys) key hkey

theorem recorded_eq (w : World) (id : NodeId) (hkey : key ∈ resultKeys) :
    recorded env w id key
      = (rowValue env (w.buffer.fragment id).props key).or (stored w.db id key) :=
  stored_flush env w.buffer w.db id (not_special hkey)

/-! ## The handlers that write no result -/

/-- The call writes none of the three properties of the node. -/
def ClearCall (id : NodeId) : Call → Prop
  | .upsertNode id' _ fields => id' = id → ∀ field ∈ fields, field.1 ∉ resultKeys
  | _ => True

theorem Asked.clear {results : NodeId → Prop} {id : NodeId} {call : Call} (h : Asked results call)
    (hid : ¬ results id) : ClearCall id call := by
  cases call with
  | upsertNode id' labels fields =>
    rintro rfl field hfield hkey
    exact hid ((h field hfield).result hkey)
  | _ => trivial

theorem assign_of_clear {fields : List (String × Value)}
    (h : ∀ field ∈ fields, field.1 ∉ resultKeys)
    (hkey : key ∈ resultKeys) (p : Props) : p.assign fields key = p key := by
  refine assign_of_notMem (fun hmem => ?_) p
  obtain ⟨field, hfield, rfl⟩ := List.mem_map.1 hmem
  exact h field hfield hkey

def buffered (id : NodeId) (b : Buffer) : List (Option Value) :=
  resultKeys.map (b.fragment id).props

theorem buffered_call {id : NodeId} (call : Call) (h : ClearCall id call) (b : Buffer) :
    Keeps (buffered id) b (b.call call) := by
  refine List.map_congr_left fun key hkey => ?_
  cases call with
  | upsertNode id' labels fields =>
    simp only [Buffer.call, fragment_upsertNode]
    split
    · rename_i hid
      exact (assign_of_clear (h hid) hkey _).trans (by rw [hid])
    · rfl
  | upsertEdge src dst fields => rfl
  | removeEdge src dst => rfl
  | setLabels id' remove add => exact congrFun (props_setLabels b id' remove add id) key

theorem keeps_of_only {α : Type} {id : NodeId} {m : Trace α} (hacts : Traced.OnStore m)
    (honly : Only (ClearCall id) m) : Respects (Keeps fun w => buffered id w.buffer) m.run :=
  fun w => hacts.related honly buffered_call w

namespace Traced

variable {id : NodeId}

theorem clear_touchSession (sid : NodeId) (timestamp : String) :
    Only (ClearCall id) (touchSession env sid timestamp) :=
  only_touchSession fun _ => by simp [resultKeys]

/-- The handlers behind that of tool calls write no result, not even of the event itself. -/
theorem clear_afterTool (o : Occurrence) :
    ∀ hook ∈ (afterTool env).map fun enricher => enricher o, Only (ClearCall id) hook := by
  intro hook hhook w call hcall
  have hasked : Asked (fun _ => False) call := (only_afterTool env o hook hhook w call hcall).asked
  exact hasked.clear not_false

theorem only_processEvent_clear (env : Env) (sessionId : NodeId) {e : Event}
    (h : ∀ o, prepare env sessionId e = .ok o → ¬ BringsResult id o.name o.data) :
    Only (ClearCall id) (processEvent env sessionId e) :=
  only_processEvent (fun _ hstub => (hstub fun _ => False).clear not_false)
    (fun o hprep _ hasked => hasked.clear (h o hprep)) fun _ _ => by simp [resultKeys]

end Traced

/-! ## The event that brings the result -/

section Post

variable {env} {sessionId id : NodeId} {e : Event} {o : Occurrence} {w : World}
  {result : Payload}

/-- What `_handle_post` puts into the buffer. -/
def resultValues (result : Payload) : List (Option Value) :=
  [some (.json (.bool ((resultField result "error").isNull))),
    some (.json (resultField result "output")), some (.json (resultField result "error"))]

theorem buffered_toolCallHandler (hname : o.name = "tool:post")
    (hid : (o.data.str "tool_call_id").filter (· ≠ "") = some id)
    (hresult : o.data.get "result" = some (.obj result)) (w : World) :
    buffered id (enrich toolCallHandler o w).2.buffer = resultValues result := by
  have hrun : toolCallHandler o w.cursors = .ok (w.cursors,
      [.node id {"ToolCall", "SST_EVENT"}
          [("ended_at", .str o.timestamp),
            ("result_success", .json (.bool ((resultField result "error").isNull))),
            ("result_output", Payload.value result "output"),
            ("result_error", Payload.value result "error")],
        .edge id (o.sourceId "tool:post" (some id)) sourcedFrom]) := by
    simp only [toolCallHandler, hname, hid, hresult, Option.getD_some, fieldsOf, resultField,
      bind, Except.bind]
    -- the handler and `Json.isNull` tell a null error from others in the same way
    rcases Payload.get result "error" with _ | value
    · rfl
    · cases value <;> rfl
  simp only [enrich, Eff.bind_apply, Eff.get_apply, hrun]
  simp [buffered, resultValues, resultKeys, performAll, World.onBuffer, World.onCursors,
    Buffer.perform, Buffer.upsertEdge, Buffer.fragment, Buffer.upsertNode, Props.assign,
    Payload.value, resultField]

theorem runAll_split {before after : List (Hook Unit)} {hook : Hook Unit}
    (h : (runAll (before ++ hook :: after) w).1 = .ok ()) :
    ∃ w₁, (runAll (before ++ hook :: after) w).2 = (runAll after (hook w₁).2).2 := by
  have hall : runAll (before ++ hook :: after) w
      = (runAll before >>= fun _ => hook >>= fun _ => runAll after) w := by
    rw [runAll_append]
    rfl
  rw [hall] at h ⊢
  rcases hbefore : runAll before w with ⟨fault | _, w₁⟩
  · rw [Eff.bind_of_error hbefore] at h
    cases h
  rw [Eff.bind_of_ok hbefore] at h ⊢
  rcases hrun : hook w₁ with ⟨fault | _, w₂⟩
  · rw [Eff.bind_of_error hrun] at h
    cases h
  · exact ⟨w₁, by rw [Eff.bind_of_ok hrun, hrun]⟩

theorem buffered_processEvent (hname : e.name = "tool:post")
    (hid : (e.data.str "tool_call_id").filter (· ≠ "") = some id)
    (hresult : ∀ o, prepare env sessionId e = .ok o → o.data.get "result" = some (.obj result))
    (hok : (processEvent env sessionId e w).1 = .ok ()) :
    buffered id (processEvent env sessionId e w).2.buffer = resultValues result := by
  have hreturn : processEvent env sessionId e w = (.ok (), (processEvent env sessionId e w).2) :=
    Prod.ext hok rfl
  obtain ⟨o, w₁, w₃, hprep, -, hall, hrun⟩ := processEvent_ok hreturn
  have hid' : (o.data.str "tool_call_id").filter (· ≠ "") = some id := by
    rwa [Payload.str, get_prepare (by decide) (by decide) hprep]
  have hsplit : (enrichers env).map (fun enricher => enricher o)
      = (((Traced.beforeTool env).map fun enricher => enricher o).map Recorded.run)
        ++ enrich toolCallHandler o
          :: (((Traced.afterTool env).map fun enricher => enricher o).map Recorded.run) := by
    rw [← Traced.run_enrichers]
    rfl
  rw [hsplit] at hall
  obtain ⟨w₂, hw₂⟩ := runAll_split (congrArg Prod.fst hall)
  rw [hall] at hw₂
  rw [hrun, show w₃ = _ from hw₂, ← Traced.run_runAll, ← Traced.run_touchSession]
  have hafter : ∀ hook ∈ (Traced.afterTool env).map fun enricher => enricher o,
      Traced.OnStore hook := fun hook hmem =>
    Traced.onStore_enrichers env o hook (by
      obtain ⟨enricher, henricher, rfl⟩ := List.mem_map.1 hmem
      exact List.mem_map_of_mem (List.mem_of_mem_drop henricher))
  have htouch : Respects (Keeps fun w => buffered id w.buffer)
      (Traced.touchSession env sessionId o.timestamp).run :=
    keeps_of_only (Traced.onStore_touchSession env sessionId o.timestamp)
      (Traced.clear_touchSession env sessionId o.timestamp)
  have hothers : Respects (Keeps fun w => buffered id w.buffer)
      (Traced.runAll ((Traced.afterTool env).map fun enricher => enricher o)).run :=
    keeps_of_only (Traced.onStore_runAll hafter) (Traced.only_runAll (Traced.clear_afterTool env o))
  have htool := buffered_toolCallHandler ((prepare_fields hprep).2.1.trans hname) hid'
    (hresult o hprep) w₂
  exact (htouch _).trans ((hothers _).trans htool)

theorem get_result_offloaded {write : String → NodeId → Json → Except String String}
    {nodeId : NodeId} {data data' : Payload} (hresult : data.get "result" = some (.obj result))
    (h : processEventData write sessionId nodeId data = .ok data') :
    ∃ key text, key ∈ ["$blob_ref", "$blob_error"]
      ∧ data'.get "result" = some (.obj [(key, .str text)]) := by
  obtain ⟨lifted, hlift, rfl⟩ := of_processEventData h
  have hblobs : blobFields
      = ["raw"] ++ "result" :: ["messages", "mount_plan", "context_snapshot", "debug"] := rfl
  rw [hblobs, List.foldl_append, List.foldl_cons, get_foldl_offload (by decide)]
  have hbefore : (["raw"].foldl (offload write sessionId nodeId) lifted).get "result"
      = some (.obj result) := by
    rw [get_foldl_offload (by decide), get_liftRawFields (by decide) hlift, hresult]
  simp only [offload, hbefore]
  cases write sessionId (nodeId ++ "__" ++ "result") (.obj result) with
  | ok uri => exact ⟨"$blob_ref", uri, by decide, Assoc.get_set_self _ _ _⟩
  | error reason => exact ⟨"$blob_error", _, by decide, Assoc.get_set_self _ _ _⟩

/-- Nothing of the result is lost when it is replaced: it has neither an error nor an output. -/
def Blank (result : Payload) : Prop :=
  resultField result "error" = .null ∧ resultField result "output" = .null

theorem exists_seen_result (hresult : e.data.get "result" = some (.obj result))
    (hblob : env.blobWrite = none ∨ Blank result) (hprep : prepare env sessionId e = .ok o) :
    ∃ seen, o.data.get "result" = some (.obj seen) ∧ resultValues seen = resultValues result := by
  obtain ⟨epoch, hdata⟩ := of_prepare hprep
  unfold offloaded at hdata
  split at hdata
  · rw [← Except.ok.inj hdata]
    exact ⟨result, hresult, rfl⟩
  · rename_i write hwrite
    obtain ⟨herr, houtput⟩ : Blank result := by
      rcases hblob with hnone | hblank
      · rw [hnone] at hwrite
        cases hwrite
      · exact hblank
    obtain ⟨key, text, hkey, hseen⟩ := get_result_offloaded hresult hdata
    refine ⟨_, hseen, ?_⟩
    simp only [List.mem_cons, List.not_mem_nil, or_false] at hkey
    rcases hkey with rfl | rfl
    · simp only [resultValues, herr, houtput]
      rfl
    · simp only [resultValues, herr, houtput]
      rfl

end Post

/-! ## Later events -/

/-- What happens after the event: another event, a flush, or the flush of another worker. -/
inductive Later where
  | event (sessionId : NodeId) (e : Event)
  | flush
  | others (b : Buffer)

def later (env : Env) (w : World) : Later → World
  | .event sessionId e => (processEvent env sessionId e w).2
  | .flush => w.flush env
  | .others b => { w with db := w.db.flush env b }

def SparesResult (id : NodeId) : Later → Prop
  | .event _ e => ¬ BringsResult id e.name e.data
  | .flush => True
  | .others b => ∀ key ∈ resultKeys, (b.fragment id).props key = none

section Later

variable {env} {id : NodeId} {w : World}

theorem recorded_congr {w w' : World} (hdb : w'.db = w.db)
    (hbuffer : buffered id w'.buffer = buffered id w.buffer) (hkey : key ∈ resultKeys) :
    recorded env w' id key = recorded env w id key := by
  have hprop : (w'.buffer.fragment id).props key = (w.buffer.fragment id).props key :=
    List.map_inj_left.1 hbuffer key hkey
  rw [recorded_eq env w' id hkey, recorded_eq env w id hkey, rowValue, rowValue, hprop, hdb]

theorem recorded_event {sid : NodeId} {e : Event} (h : ¬ BringsResult id e.name e.data)
    (hkey : key ∈ resultKeys) :
    recorded env (processEvent env sid e w).2 id key = recorded env w id key := by
  have hbrings : ∀ o, prepare env sid e = .ok o → ¬ BringsResult id o.name o.data := by
    intro o hprep
    have hget : o.data.get "tool_call_id" = e.data.get "tool_call_id" :=
      get_prepare (by decide) (by decide) hprep
    simpa only [BringsResult, Payload.str, hget, (prepare_fields hprep).2.1] using h
  have hdb : (processEvent env sid e w).2.db = w.db := db_processEvent env sid e w
  have hbuffer := keeps_of_only (Traced.onStore_processEvent env sid e)
    (Traced.only_processEvent_clear env sid hbrings) w
  rw [Traced.run_processEvent] at hbuffer
  exact recorded_congr hdb hbuffer hkey

theorem recorded_later {a : Later} (h : SparesResult id a) (hkey : key ∈ resultKeys) :
    recorded env (later env w a) id key = recorded env w id key := by
  cases a with
  | event sessionId e => exact recorded_event h hkey
  | flush =>
    simp only [later, recorded, World.flush, flush_empty]
  | others b =>
    have hstore : stored (w.db.flush env b) id key = stored w.db id key := by
      rw [stored_flush env b w.db id (not_special hkey), rowValue, h key hkey]
      rfl
    simp only [later, recorded_eq env _ id hkey, hstore]

end Later

def Unstained (db : Database) (id : NodeId) (result : Payload) : Prop :=
  (resultField result "output" = .null → stored db id "result_output" = none)
    ∧ (resultField result "error" = .null → stored db id "result_error" = none)

section Results

variable {env} {sessionId id : NodeId} {e : Event} {w : World} {result : Payload}

theorem sanitize_or {j : Json} {old : Option Value} {key : String}
    (hkey : key.endsWith "_at" = false) (h : j = .null → old = none) :
    (sanitize env key (.json j)).or old = sanitize env key (.json j) := by
  cases j with
  | null => rw [h rfl, Option.or_none]
  | str s => simp [sanitize, hkey]
  | arr items =>
    simp only [sanitize]
    split <;> rfl
  | _ => rfl

theorem recordedAs_of_buffered (hbuffer : buffered id w.buffer = resultValues result)
    (hdb : Unstained w.db id result) : RecordedAs env result id w := by
  simp only [buffered, resultKeys, resultValues, List.map_cons, List.map_nil, List.cons.injEq,
    and_true] at hbuffer
  obtain ⟨hsucc, houtput, herr⟩ := hbuffer
  have hrow : ∀ {key : String} {j : Json}, key ∉ temporalProps →
      (w.buffer.fragment id).props key = some (.json j) →
      rowValue env (w.buffer.fragment id).props key = sanitize env key (.json j) := by
    intro key j hkey hprop
    rw [rowValue, hprop, Option.bind_some]
    cases j with
    | str s => simp [convertTemporal, hkey, Value.str]
    | _ => rfl
  refine ⟨?_, ?_, ?_⟩
  · rw [recorded_eq env w id (by decide), hrow (by decide) hsucc]
    rfl
  · rw [recorded_eq env w id (by decide), hrow (by decide) houtput]
    exact sanitize_or (by decide +kernel) hdb.1
  · rw [recorded_eq env w id (by decide), hrow (by decide) herr]
    exact sanitize_or (by decide +kernel) hdb.2

end Results

/-! ## Runs -/

def failedCall : Event where
  name := "tool:post"
  data := [("timestamp", .str "2026-01-01T00:00:00+00:00"), ("tool_call_id", .str "t"),
    ("result", .obj [("error", .str "boom"), ("output", .str "partial")])]
  workingDir := none
  identity := none

def blobEnv : Env :=
  { sampleEnv with blobWrite := some fun _ key _ => .ok ("ci-blob://s/" ++ key) }

def emptyWorker : World := ⟨Cursors.fresh, Buffer.empty, Database.empty, []⟩

def repeatedCall : Event where
  name := "tool:post"
  data := [("timestamp", .str "2026-01-01T00:00:01+00:00"), ("tool_call_id", .str "t"),
    ("result", .obj [("output", .str "done")])]
  workingDir := none
  identity := none

def failedWorker : World := ((processEvent sampleEnv "s" failedCall emptyWorker).2).flush sampleEnv

end ContextIntelligence.Handlers
