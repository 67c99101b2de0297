import ContextIntelligence.Handlers.ToolResults
import ContextIntelligence.Sessions.Join

/-!
# Facts of a session that are written once

Workers with surroundings, cursors and a store of their own process events of any session on one
database, and their flushes commit transaction by transaction. `created_by` is only given to a new
node and `working_dir` only fills a gap, so both stay. `status` is an ordinary property of a row:
besides `session:end` the nodes of events, orchestrator runs and recipe runs bring one, and a
completed session stays completed unless such a node gets its id (`completed_overwritten`).
-/

namespace ContextIntelligence.Sessions

open Lib Lib.Runs ContextIntelligence.Graph Handlers ContextIntelligence.Store

/-! ## Workers -/

structure Server where
  db : Database
  stores : ℕ → Flusher
  cursors : ℕ → Cursors

/-- The worker as an event finds it. -/
def Server.world (s : Server) (worker : ℕ) (fates : List ReadFate) : World :=
  ⟨s.cursors worker, (s.stores worker).buffer, s.db, fates⟩

def Server.setStore (s : Server) (worker : ℕ) (store : Flusher) : Server :=
  { s with stores := Function.update s.stores worker store }

def Server.setCursors (s : Server) (worker : ℕ) (cursors : Cursors) : Server :=
  { s with cursors := Function.update s.cursors worker cursors }

inductive ServerAction where
  | dispatch (worker : ℕ) (sessionId : NodeId) (e : Event) (fates : List ReadFate)
  /-- The flush takes its snapshot. -/
  | openFlush (worker : ℕ) (lim : Limits)
  /-- The next transaction commits; after the last one the flush is done. -/
  | commit (worker : ℕ)
  /-- A transaction fails for good and the snapshot is restored. -/
  | fail (worker : ℕ)
  | discard (worker : ℕ)
  /-- A new worker, with a cold cache, in the place of the old one. -/
  | respawn (worker : ℕ)

variable (envs : ℕ → Env)

def serverStep (s : Server) : ServerAction → Server
  | .dispatch worker sessionId e fates =>
    let w := (processEvent (envs worker) sessionId e (s.world worker fates)).2
    (s.setStore worker { s.stores worker with buffer := w.buffer }).setCursors worker w.cursors
  | .openFlush worker lim =>
    let store := s.stores worker
    match store.inflight with
    | some _ => s
    | none => s.setStore worker ⟨Buffer.empty, some (store.buffer, transactions lim store.buffer)⟩
  | .commit worker =>
    let store := s.stores worker
    match store.inflight with
    | none => s
    | some (_, []) => s.setStore worker { store with inflight := none }
    | some (snapshot, tx :: rest) =>
      { s.setStore worker { store with inflight := some (snapshot, rest) } with
        db := s.db.flush (envs worker) tx }
  | .fail worker =>
    let store := s.stores worker
    match store.inflight with
    | none => s
    | some (snapshot, _) => s.setStore worker ⟨restore snapshot store.buffer, none⟩
  | .discard worker => s.setStore worker ⟨Buffer.empty, none⟩
  | .respawn worker => (s.setStore worker ⟨Buffer.empty, none⟩).setCursors worker Cursors.fresh

def Server.on (db : Database) : Server :=
  ⟨db, fun _ => ⟨Buffer.empty, none⟩, fun _ => Cursors.fresh⟩

/-- The call makes no event, orchestrator run or recipe run of the node. -/
def SparesNode (id : NodeId) : Call → Prop
  | .upsertNode id' labels _ => id' = id → Disjoint labels statusLabels
  | _ => True

instance (id : NodeId) (call : Call) : Decidable (SparesNode id call) := by
  cases call <;> unfold SparesNode <;> infer_instance

/-- No node of another kind gets the id of the session. -/
def SparesSession (id : NodeId) (s : Server) : ServerAction → Prop
  | .dispatch worker sessionId e fates =>
    ∀ call ∈ storeCalls (envs worker) sessionId e (s.world worker fates), SparesNode id call
  | _ => True

/-- A value that a node has stays through the step. -/
def Stays (id : NodeId) (key : String) (v : Value) (s : Server) (action : ServerAction) : Prop :=
  stored s.db id key = some v → stored (serverStep envs s action).db id key = some v

/-! ## Commits -/

section Commits

variable {env : Env} {db : Database} {id : NodeId} {key : String} {v : Value}

/-- What a transaction brings for a property of the node. -/
def brings (env : Env) (tx : Buffer) (id : NodeId) (key : String) : Option Value :=
  (tx.nodes.get id).bind fun row => buildNodeProps env row.props key

theorem fill_of_some {p : Props} (h : p key = some v) (gap : String) (value : Option Value) :
    p.fill gap value key = some v := by
  by_cases heq : key = gap
  · subst heq
    simp [Props.fill, h]
  · simp [Props.fill, heq, h]

theorem stored_commit (tx : Buffer) (h : stored db id key = some v) :
    stored (db.flush env tx) id key = some ((brings env tx id key).getD v) := by
  obtain ⟨node, hnode, hprop⟩ := Option.bind_eq_some_iff.1 h
  rw [stored, nodes_flush, hnode]
  cases hrow : tx.nodes.get id with
  | none => simpa [writeRow, Node.relabel, brings, hrow] using hprop
  | some row =>
    have hover : (buildNodeProps env row.props).overlay node.props key
        = some ((brings env tx id key).getD v) := by
      simp only [Props.overlay, brings, hrow, hprop, Option.bind_some]
      cases buildNodeProps env row.props key <;> rfl
    simpa [writeRow, mergeRow_eq, Node.relabel] using fill_of_some (fill_of_some hover ..) ..

/-- Neither `created_by` nor `working_dir` is a property of a row. -/
theorem brings_eq_none (tx : Buffer) (hkey : key ∈ ["created_by", "working_dir"]) :
    brings env tx id key = none := by
  simp only [List.mem_cons, List.not_mem_nil, or_false] at hkey
  rcases hkey with rfl | rfl <;> cases hrow : tx.nodes.get id <;>
    simp [brings, hrow, buildNodeProps]

end Commits

/-- A step either leaves the database alone or commits the next transaction of a worker. -/
theorem db_serverStep (s : Server) (action : ServerAction) :
    (serverStep envs s action).db = s.db
      ∨ ∃ worker snapshot tx rest, (s.stores worker).inflight = some (snapshot, tx :: rest)
        ∧ (serverStep envs s action).db = s.db.flush (envs worker) tx := by
  cases action with
  | dispatch worker sessionId e fates => exact .inl rfl
  | openFlush worker lim =>
    refine .inl ?_
    simp only [serverStep]
    split <;> rfl
  | commit worker =>
    simp only [serverStep]
    split
    · exact .inl rfl
    · exact .inl rfl
    · rename_i snapshot tx rest hinflight
      exact .inr ⟨worker, snapshot, tx, rest, hinflight, rfl⟩
  | fail worker =>
    refine .inl ?_
    simp only [serverStep]
    split <;> rfl
  | discard worker => exact .inl rfl
  | respawn worker => exact .inl rfl

/-! ## Rows that only complete a session -/

variable {id : NodeId}

/-- The row of the node, if there is one, has no status but `completed`. -/
def OnlyCompletes (id : NodeId) (b : Buffer) : Prop :=
  ∀ v, (b.fragment id).props "status" = some v → v = .str "completed"

theorem onlyCompletes_empty : OnlyCompletes id Buffer.empty := nofun

theorem mem_of_assign {p : Props} {fields : List (String × Value)} {key : String} {v : Value}
    (h : p.assign fields key = some v) : (key, v) ∈ fields ∨ p key = some v := by
  induction fields using List.reverseRecOn with
  | nil => exact .inr h
  | append_singleton rest field ih =>
    simp only [Props.assign, List.foldl_append, List.foldl_cons, List.foldl_nil] at h ih
    by_cases hkey : key = field.1
    · rw [hkey, Function.update_self, Option.some.injEq] at h
      refine .inl (List.mem_append_right _ (List.mem_singleton.2 ?_))
      rw [hkey, ← h]
    · rw [Function.update_of_ne hkey] at h
      exact (ih h).imp_left (List.mem_append_left _)

/-- Every status that a call writes to the node is `completed`. -/
def Completes (id : NodeId) : Call → Prop
  | .upsertNode id' _ fields => id' = id → ∀ v, ("status", v) ∈ fields → v = .str "completed"
  | _ => True

/-- What the handlers ask of a node that is no event and no run. -/
theorem completes_of_asked {results : NodeId → Prop} {call : Call} (h : Asked results call)
    (hspares : SparesNode id call) : Completes id call := by
  cases call with
  | upsertNode id' labels fields =>
    intro hid v hfield
    exact ((h ("status", v) hfield).status rfl).resolve_left (not_not_intro (hspares hid))
  | _ => trivial

theorem OnlyCompletes.call {b : Buffer} {call : Call} (h : OnlyCompletes id b)
    (hcall : Completes id call) : OnlyCompletes id (b.call call) := by
  cases call with
  | upsertNode id' labels fields =>
    intro v hv
    simp only [Buffer.call, fragment_upsertNode] at hv
    split at hv
    next hid =>
      subst hid
      rcases mem_of_assign hv with hfield | hold
      · exact hcall rfl v hfield
      · exact h v hold
    next => exact h v hv
  | upsertEdge src dst fields => exact h
  | removeEdge src dst => exact h
  | setLabels id' remove add =>
    intro v hv
    exact h v (by rwa [Buffer.call, props_setLabels] at hv)

theorem OnlyCompletes.foldl {calls : List Call} {b : Buffer} (h : OnlyCompletes id b)
    (hcalls : ∀ call ∈ calls, Completes id call) :
    OnlyCompletes id (calls.foldl Buffer.call b) := by
  induction calls generalizing b with
  | nil => exact h
  | cons call rest ih =>
    obtain ⟨hcall, hrest⟩ := List.forall_mem_cons.1 hcalls
    exact ih (h.call hcall) hrest

/-- **Only `session:end` writes a status of a session**, whatever the event. -/
theorem completes_of_spared {env : Env} {sid : NodeId} {e : Event} {w : World}
    (h : ∀ call ∈ storeCalls env sid e w, SparesNode id call) :
    ∀ call ∈ storeCalls env sid e w, Completes id call := by
  intro call hcall
  refine Traced.only_processEvent (P := fun call => SparesNode id call → Completes id call)
    (fun _ hstub => completes_of_asked (hstub fun _ => True)) (fun _ _ _ => completes_of_asked)
    (fun timestamp _ _ v hfield => ?_) w call hcall (h call hcall)
  simp at hfield

theorem OnlyCompletes.restore {snapshot newer : Buffer} (h : OnlyCompletes id snapshot)
    (h' : OnlyCompletes id newer) : OnlyCompletes id (restore snapshot newer) := by
  intro v hv
  rw [Buffer.fragment, Store.restore, get_updateWith] at hv
  cases hnew : newer.nodes.get id with
  | some row =>
    rw [hnew] at hv
    exact h' v (by rwa [Buffer.fragment, hnew])
  | none =>
    rw [hnew, Option.none_or] at hv
    exact h v hv

theorem get_of_transactions {lim : Limits} {b tx : Buffer} {row : Node}
    (htx : tx ∈ transactions lim b) (hrow : tx.nodes.get id = some row) :
    b.nodes.get id = some row := by
  simp only [transactions, List.mem_append, List.mem_map] at htx
  rcases htx with ⟨rows, hrows, rfl⟩ | ⟨patches, -, rfl⟩ | ⟨edges, -, rfl⟩
  · have hflat := flatten_nodeChunks (b := b) lim
    have hnodup : (rows.map Prod.fst).Nodup := by
      refine List.Nodup.sublist ((List.sublist_flatten_of_mem hrows).map Prod.fst) ?_
      rw [hflat]
      exact nodup_sortedNodes
    have hmem : (id, row) ∈ sortedNodes b := by
      rw [← hflat]
      refine List.mem_flatten.2 ⟨rows, hrows, Assoc.mem_of_get ?_⟩
      rwa [← Dict.get_ofList hnodup]
    rw [← get_sortedNodes, Dict.get_ofList nodup_sortedNodes]
    exact Assoc.get_of_mem nodup_sortedNodes hmem
  · cases hrow
  · cases hrow

theorem OnlyCompletes.transaction {lim : Limits} {b tx : Buffer} (h : OnlyCompletes id b)
    (htx : tx ∈ transactions lim b) : OnlyCompletes id tx := by
  intro v hv
  cases hrow : tx.nodes.get id with
  | none =>
    rw [Buffer.fragment, hrow] at hv
    cases hv
  | some row =>
    refine h v ?_
    rwa [Buffer.fragment, get_of_transactions htx hrow, ← hrow]

theorem brings_of_onlyCompletes {env : Env} {tx : Buffer} (h : OnlyCompletes id tx) :
    (brings env tx id "status").getD (.str "completed") = .str "completed" := by
  cases hrow : tx.nodes.get id with
  | none => simp [brings, hrow]
  | some row =>
    have hstatus : row.props "status" = none ∨ row.props "status" = some (.str "completed") := by
      cases hv : row.props "status" with
      | none => exact .inl rfl
      | some v => exact .inr (congrArg some (h v (by rwa [Buffer.fragment, hrow])))
    have hend : "status".endsWith "_at" = false := by decide +kernel
    rcases hstatus with hstatus | hstatus <;>
      simp [brings, hrow, buildNodeProps, rowValue, hstatus, convertTemporal, temporalProps,
        sanitize, Value.str, hend]

/-! ## Whole runs -/

/-- Nothing that the worker buffers or is about to commit gives the session another status. -/
structure Flusher.Completing (id : NodeId) (store : Flusher) : Prop where
  buffer : OnlyCompletes id store.buffer
  snapshot : ∀ snapshot rest, store.inflight = some (snapshot, rest) → OnlyCompletes id snapshot
  rest : ∀ snapshot rest, store.inflight = some (snapshot, rest) →
    ∀ tx ∈ rest, OnlyCompletes id tx

theorem Flusher.Completing.idle {b : Buffer} (h : OnlyCompletes id b) :
    Flusher.Completing id ⟨b, none⟩ :=
  ⟨h, nofun, nofun⟩

def Completing (id : NodeId) (s : Server) : Prop :=
  ∀ worker, (s.stores worker).Completing id

theorem Completing.setStore {s : Server} (h : Completing id s) {worker : ℕ} {store : Flusher}
    (hstore : store.Completing id) : Completing id (s.setStore worker store) := by
  intro other
  by_cases hother : other = worker
  · subst hother
    simpa only [Server.setStore, Function.update_self] using hstore
  · simpa only [Server.setStore, Function.update_of_ne hother] using h other

theorem completing_step (s : Server) (action : ServerAction)
    (h : Completing id s) (hspares : SparesSession envs id s action) :
    Completing id (serverStep envs s action) := by
  cases action with
  | dispatch worker sessionId e fates =>
    have hbuffer : OnlyCompletes id
        (processEvent (envs worker) sessionId e (s.world worker fates)).2.buffer := by
      rw [buffer_processEvent]
      exact (h worker).buffer.foldl (completes_of_spared hspares)
    exact h.setStore ⟨hbuffer, (h worker).snapshot, (h worker).rest⟩
  | openFlush worker lim =>
    simp only [serverStep]
    split
    · exact h
    · refine h.setStore ⟨onlyCompletes_empty, ?_, ?_⟩
      · rintro _ _ ⟨⟩
        exact (h worker).buffer
      · rintro _ _ ⟨⟩ tx htx
        exact (h worker).buffer.transaction htx
  | commit worker =>
    simp only [serverStep]
    split
    · exact h
    · exact h.setStore (.idle (h worker).buffer)
    · rename_i snapshot tx rest hinflight
      refine h.setStore ⟨(h worker).buffer, ?_, ?_⟩
      · rintro _ _ ⟨⟩
        exact (h worker).snapshot _ _ hinflight
      · rintro _ _ ⟨⟩ tx' htx'
        exact (h worker).rest _ _ hinflight tx' (List.mem_cons_of_mem tx htx')
  | fail worker =>
    simp only [serverStep]
    split
    · exact h
    · rename_i snapshot rest hinflight
      exact h.setStore (.idle (((h worker).snapshot _ _ hinflight).restore (h worker).buffer))
  | discard worker => exact h.setStore (.idle onlyCompletes_empty)
  | respawn worker => exact h.setStore (.idle onlyCompletes_empty)

/-- Whoever processes what in which order: `created_by` and `working_dir` are written once, and a
completed session stays completed if no event, orchestrator run or recipe run gets its id. -/
theorem session_facts_kept (envs : ℕ → Env) (db : Database) (id : NodeId)
    (actions : List ServerAction) :
    Along (serverStep envs) (fun s action => ∀ key ∈ ["created_by", "working_dir"], ∀ v,
        Stays envs id key v s action) (Server.on db) actions
      ∧ (Along (serverStep envs) (SparesSession envs id) (Server.on db) actions →
        Along (serverStep envs) (Stays envs id "status" (.str "completed")) (Server.on db)
          actions) := by
  constructor
  · refine along_of_invariant (I := fun _ => True) (fun _ _ _ => trivial) ?_ trivial actions
    intro s action _ key hkey v hv
    rcases db_serverStep envs s action with hdb | ⟨worker, _, tx, _, -, hdb⟩
    · rwa [hdb]
    · rw [hdb, stored_commit tx hv, brings_eq_none tx hkey]
      rfl
  · intro hspares
    refine hspares.map_of_invariant (I := Completing id) (completing_step envs) ?_
      fun _ => .idle onlyCompletes_empty
    intro s action h _ hv
    rcases db_serverStep envs s action with hdb | ⟨worker, snapshot, tx, rest, hinflight, hdb⟩
    · rwa [hdb]
    · rw [hdb, stored_commit tx hv,
        brings_of_onlyCompletes ((h worker).rest _ _ hinflight tx List.mem_cons_self)]

def oneRowEach : Limits := ⟨1, 1, fun _ => 1, fun _ => 1, fun _ => 1⟩

/-- A session ends and is flushed; then a second worker, with a cold cache, gets its start again and
a recipe run, and its first flush fails. -/
theorem session_facts_kept_replayed :
    let recipe : Event := { sampleEvent "recipe:start" "2026-01-01T00:00:01+00:00" with
      data := [("timestamp", .str "2026-01-01T00:00:01+00:00"), ("status", .str "running")] }
    let actions : List ServerAction :=
      [.dispatch 0 "s" (sampleEvent "session:end" "2026-01-01T00:00:01+00:00") [],
        .openFlush 0 oneRowEach, .commit 0,
        .dispatch 1 "s" (sampleEvent "session:start" "2026-01-01T00:00:00+00:00") [],
        .dispatch 1 "s" recipe [], .openFlush 1 oneRowEach, .commit 1, .fail 1,
        .openFlush 1 oneRowEach, .commit 1, .commit 1]
    let envs := fun _ : ℕ => sampleEnv
    Along (serverStep envs) (SparesSession envs "s") (Server.on Database.empty) actions
      ∧ Along (serverStep envs) (Stays envs "s" "status" (.str "completed"))
        (Server.on Database.empty) actions := by
  intro recipe actions envs
  have hspares : Along (serverStep envs) (SparesSession envs "s") (Server.on Database.empty)
      actions := by
    refine ⟨?_, trivial, trivial, ?_, ?_, trivial, trivial, trivial, trivial, trivial, trivial,
      trivial⟩
    all_goals
      unfold SparesSession
      decide +kernel
  exact ⟨hspares, (session_facts_kept envs Database.empty "s" actions).2 hspares⟩

/-- A session whose id is that of a recipe run is no longer completed once the run has started. -/
theorem completed_overwritten :
    let run : NodeId := "s::recipe_run::2026-01-01T00:00:01+00:00"
    let ended := (processEvent sampleEnv run
      (sampleEvent "session:end" "2026-01-01T00:00:00+00:00") (newWorker Database.empty)).2.flush
        sampleEnv
    let started := (processEvent sampleEnv "s"
      { sampleEvent "recipe:start" "2026-01-01T00:00:01+00:00" with
        data := [("timestamp", .str "2026-01-01T00:00:01+00:00"), ("status", .str "running")] }
      (newWorker ended.db)).2.flush sampleEnv
    (stored ended.db run "status").bind Value.scalar = some (.str "completed")
      ∧ (stored started.db run "status").bind Value.scalar = some (.str "running") := by
  decide +kernel

end ContextIntelligence.Sessions
