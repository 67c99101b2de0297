import ContextIntelligence.Graph.Flush
import ContextIntelligence.Handlers.Dispatch
import ContextIntelligence.Lib.Runs
import ContextIntelligence.Store.Chunks

/-!
# Workspaces and creators

A worker is bound to a workspace and a contributor when it is created, and then drains whatever its
log holds. While every worker is bound to the client of its key, each record ends up where its
envelope says. A replay creates a missing worker from whatever line comes first; and an edge creates
the nodes it needs without a creator.
-/

namespace ContextIntelligence.Pipeline

open Lib Lib.Runs ContextIntelligence.Graph Handlers

/-! ## Records and workers -/

/-- A workspace and a contributor: what an envelope carries and what a worker is bound to. -/
structure Binding where
  workspace : String
  createdBy : Option String
  deriving DecidableEq, Repr

/-- The one workspace and contributor that a worker key is used with. -/
structure Client extends Binding where
  named : workspace ≠ ""

inductive Line where
  | torn
  | record (envelope : Binding) (sessionId : NodeId) (event : Event)

/-- `_parse_workspace_and_creator`. -/
def parseWorkspaceAndCreator : Line → Option Binding
  | .torn => none
  | .record envelope _ _ => if envelope.workspace = "" then none else some envelope

/-- A worker, with the envelopes of the records that went into its buffer. -/
structure Worker where
  key : String
  binding : Binding
  cursors : Cursors
  buffer : Buffer
  dispatched : List Binding

/-- The server: the graph by workspaces, every worker that is still running, the keys that have a
registered one, and the files of each key. -/
structure Server where
  partitions : String → Database
  pool : List Worker
  registered : String → Bool
  log : String → List Line
  dead : String → List Line

namespace Server

/-- `get_or_create`: an existing worker keeps its binding. -/
def getOrCreate (key : String) (binding : Binding) (s : Server) : Server :=
  if s.registered key then s
  else
    { s with
      pool := s.pool ++ [⟨key, binding, Cursors.fresh, Buffer.empty, []⟩]
      registered := Function.update s.registered key true }

def append (key : String) (line : Line) (s : Server) : Server :=
  { s with log := Function.update s.log key (s.log key ++ [line]) }

end Server

variable (env : Env)

def boundTo (binding : Binding) : Env :=
  { env with workspace := binding.workspace, createdBy := binding.createdBy }

/-! ## Steps -/

inductive ServerAction where
  /-- `post_events`; the append may leave a torn line. -/
  | ingest (key : String) (sessionId : NodeId) (event : Event) (torn : Bool)
  | tearLog (key : String) (position : ℕ)
  | tearDead (key : String) (position : ℕ)
  /-- A worker dispatches a line of its log, in whatever order and however often. -/
  | dispatch (worker : ℕ) (position : ℕ) (fates : List ReadFate)
  /-- A flush that commits the first rows and then the first edges; it succeeds if these are all. -/
  | flush (worker : ℕ) (rows edges : ℕ)
  | discard (worker : ℕ)
  | commit (key : String) (count : ℕ)
  | deadLetter (key : String) (position : ℕ)
  /-- `replay_dead_letters`, for one of the records it has read. -/
  | replay (key : String) (position : ℕ)
  | purge (key : String)
  | restart
  /-- `_recover_one_session`. -/
  | recover (key : String)
  | deregister (key : String)

def tearAt (position : ℕ) (lines : List Line) : List Line :=
  lines.take position ++ .torn :: lines.drop position

/-- A worker after one record: what its handlers wrote is in the buffer. -/
def Worker.dispatch (partitions : String → Database) (w : Worker) (envelope : Binding)
    (sessionId : NodeId) (event : Event) (fates : List ReadFate) : Worker :=
  let world := (processEvent (boundTo env w.binding) sessionId event
    ⟨w.cursors, w.buffer, partitions w.binding.workspace, fates⟩).2
  { w with
    cursors := world.cursors
    buffer := world.buffer
    dispatched := w.dispatched ++ [envelope] }

def Worker.emptied (w : Worker) : Worker := { w with buffer := Buffer.empty, dispatched := [] }

/-- What a flush commits that stops after some rows, or with all rows after some edges. -/
def committed (b : Buffer) (rows edges : ℕ) : Buffer :=
  if rows < b.nodes.entries.length then
    ⟨Dict.ofList ((Store.sortedNodes b).take rows), Dict.empty, []⟩
  else ⟨b.nodes, Dict.ofList ((Store.sortedEdges b).take edges), b.patches⟩

def commitsAll (b : Buffer) (rows edges : ℕ) : Bool :=
  b.nodes.entries.length ≤ rows ∧ b.edges.entries.length ≤ edges

def serverStep (clients : String → Client) (s : Server) : ServerAction → Server
  | .ingest key sessionId event torn =>
    let line := if torn then .torn else .record (clients key).toBinding sessionId event
    (s.getOrCreate key (clients key).toBinding).append key line
  | .tearLog key position =>
    { s with log := Function.update s.log key (tearAt position (s.log key)) }
  | .tearDead key position =>
    { s with dead := Function.update s.dead key (tearAt position (s.dead key)) }
  | .dispatch worker position fates =>
    match s.pool[worker]? with
    | none => s
    | some w =>
      match (s.log w.key)[position]? with
      | some (.record envelope sessionId event) =>
        let w' := w.dispatch env s.partitions envelope sessionId event fates
        { s with pool := s.pool.set worker w' }
      | _ => s
  | .flush worker rows edges =>
    match s.pool[worker]? with
    | none => s
    | some w =>
      { s with
        partitions := Function.update s.partitions w.binding.workspace
          ((s.partitions w.binding.workspace).flush (boundTo env w.binding)
            (committed w.buffer rows edges))
        pool := s.pool.set worker (if commitsAll w.buffer rows edges then w.emptied else w) }
  | .discard worker =>
    match s.pool[worker]? with
    | none => s
    | some w => { s with pool := s.pool.set worker w.emptied }
  | .commit key count => { s with log := Function.update s.log key ((s.log key).drop count) }
  | .deadLetter key position =>
    { s with
      dead := Function.update s.dead key (s.dead key ++ ((s.log key)[position]?).toList) }
  | .replay key position =>
    match (s.dead key)[position]? with
    | none => s
    | some line =>
      (s.getOrCreate key ((parseWorkspaceAndCreator line).getD ⟨"", none⟩)).append key line
  | .purge key => { s with dead := Function.update s.dead key [] }
  | .restart => { s with pool := [], registered := fun _ => false }
  | .recover key =>
    match (s.log key).head?.bind parseWorkspaceAndCreator with
    | none => s
    | some binding => s.getOrCreate key binding
  | .deregister key => { s with registered := Function.update s.registered key false }

/-! ## Where records end up -/

/-- A step writes only what records asked for, under the workspace of their envelope, and stamps the
nodes it creates with the creator of their envelope. -/
def StoredByEnvelope (clients : String → Client) (s : Server) (action : ServerAction) : Prop :=
  match action with
  | .flush worker _ _ => ∀ w, s.pool[worker]? = some w → ∀ envelope ∈ w.dispatched,
      (∀ workspace, workspace ≠ envelope.workspace →
        (serverStep env clients s action).partitions workspace = s.partitions workspace)
      ∧ ∀ id node, (s.partitions envelope.workspace).nodes id = none →
        ((serverStep env clients s action).partitions envelope.workspace).nodes id = some node →
          node.props "created_by" = envelope.createdBy.map .str
  | _ => (serverStep env clients s action).partitions = s.partitions

/-- A replay that has to create the worker begins with a line that names a workspace, and a worker
bound to a contributor flushes no edge whose ends are neither in the flush nor stored. -/
def Attributed (s : Server) : ServerAction → Prop
  | .replay key position => s.registered key = true
      ∨ ∀ line ∈ (s.dead key)[position]?, (parseWorkspaceAndCreator line).isSome
  | .flush worker rows edges => ∀ w ∈ s.pool[worker]?, w.binding.createdBy = none
      ∨ ∀ ends ∈ (committed w.buffer rows edges).edges.keys, ∀ id ∈ [ends.1, ends.2],
        ((committed w.buffer rows edges).nodes.get id).isSome
          ∨ ((s.partitions w.binding.workspace).nodes id).isSome
  | _ => True

instance (s : Server) (action : ServerAction) : Decidable (Attributed s action) := by
  unfold Attributed
  split <;> infer_instance

/-! ## Bindings -/

/-- Every record in the lines carries the envelope of the client. -/
def Owned (client : Client) (lines : List Line) : Prop :=
  ∀ envelope sessionId event, Line.record envelope sessionId event ∈ lines →
    envelope = client.toBinding

/-- Every worker is bound to the client of its key, and so are the records it has and will have. -/
structure Bound (clients : String → Client) (s : Server) : Prop where
  workers : ∀ w ∈ s.pool, w.binding = (clients w.key).toBinding
  dispatched : ∀ w ∈ s.pool, ∀ envelope ∈ w.dispatched, envelope = (clients w.key).toBinding
  logs : ∀ key, Owned (clients key) (s.log key)
  deads : ∀ key, Owned (clients key) (s.dead key)

theorem Owned.parse {client : Client} {lines : List Line} (h : Owned client lines) {line : Line}
    (hmem : line ∈ lines) {binding : Binding}
    (hparse : parseWorkspaceAndCreator line = some binding) : binding = client.toBinding := by
  cases line with
  | torn => cases hparse
  | record envelope sid event =>
    have henv := h envelope sid event hmem
    rw [henv, parseWorkspaceAndCreator, if_neg client.named] at hparse
    exact (Option.some.inj hparse).symm

theorem Owned.append {client : Client} {lines more : List Line} (h : Owned client lines)
    (hmore : Owned client more) : Owned client (lines ++ more) := by
  intro envelope sid event hmem
  rcases List.mem_append.1 hmem with hmem | hmem
  · exact h envelope sid event hmem
  · exact hmore envelope sid event hmem

theorem Owned.subset {client : Client} {lines part : List Line} (h : Owned client lines)
    (hpart : part ⊆ lines) : Owned client part :=
  fun envelope sid event hmem => h envelope sid event (hpart hmem)

theorem owned_torn (client : Client) : Owned client [.torn] := by
  intro envelope sid event hmem
  cases List.mem_singleton.1 hmem

theorem Owned.tearAt {client : Client} {lines : List Line} (h : Owned client lines) (position : ℕ) :
    Owned client (tearAt position lines) :=
  (h.subset (List.take_subset position lines)).append
    ((owned_torn client).append (h.subset (List.drop_subset position lines)))

section Steps

variable {clients : String → Client} {s : Server}

theorem owned_update {files : String → List Line} (h : ∀ key, Owned (clients key) (files key))
    {key : String} {lines : List Line} (hlines : Owned (clients key) lines) (key' : String) :
    Owned (clients key') (Function.update files key lines key') := by
  by_cases hkey : key' = key
  · subst hkey
    rwa [Function.update_self]
  · rw [Function.update_of_ne hkey]
    exact h key'

theorem Bound.getOrCreate (h : Bound clients s) {key : String} {binding : Binding}
    (hbind : s.registered key = true ∨ binding = (clients key).toBinding) :
    Bound clients (s.getOrCreate key binding) := by
  unfold Server.getOrCreate
  split
  · exact h
  · next hnew =>
    have hbind := hbind.resolve_left hnew
    refine ⟨fun w hw => ?_, fun w hw => ?_, h.logs, h.deads⟩
    · rcases List.mem_append.1 hw with hw | hw
      · exact h.workers w hw
      · rw [List.mem_singleton.1 hw]
        exact hbind
    · rcases List.mem_append.1 hw with hw | hw
      · exact h.dispatched w hw
      · rw [List.mem_singleton.1 hw]
        exact fun envelope hmem => absurd hmem List.not_mem_nil

theorem Bound.append (h : Bound clients s) {key : String} {line : Line}
    (hline : Owned (clients key) [line]) : Bound clients (s.append key line) :=
  ⟨h.workers, h.dispatched, owned_update h.logs ((h.logs key).append hline), h.deads⟩

theorem Bound.setWorker (h : Bound clients s) {worker : ℕ} {w : Worker}
    (hget : s.pool[worker]? = some w) (w' : Worker) (hkey : w'.key = w.key)
    (hbind : w'.binding = w.binding)
    (hdispatch : ∀ envelope ∈ w'.dispatched, envelope = (clients w.key).toBinding)
    (partitions : String → Database) :
    Bound clients { s with partitions := partitions, pool := s.pool.set worker w' } := by
  have hmem := List.mem_of_getElem? hget
  refine ⟨fun v hv => ?_, fun v hv => ?_, h.logs, h.deads⟩
  · rcases List.mem_or_eq_of_mem_set hv with hv | rfl
    · exact h.workers v hv
    · rw [hbind, hkey]
      exact h.workers w hmem
  · rcases List.mem_or_eq_of_mem_set hv with hv | rfl
    · exact h.dispatched v hv
    · rw [hkey]
      exact hdispatch

theorem bound_step (s : Server) (action : ServerAction) (h : Bound clients s)
    (hattributed : Attributed s action) : Bound clients (serverStep env clients s action) := by
  cases action with
  | ingest key sid event torn =>
    refine (h.getOrCreate (.inr rfl)).append ?_
    cases torn with
    | true => exact owned_torn (clients key)
    | false =>
      intro envelope sessionId' event' hmem
      cases List.mem_singleton.1 hmem
      rfl
  | tearLog key position =>
    exact ⟨h.workers, h.dispatched, owned_update h.logs ((h.logs key).tearAt position), h.deads⟩
  | tearDead key position =>
    exact ⟨h.workers, h.dispatched, h.logs, owned_update h.deads ((h.deads key).tearAt position)⟩
  | dispatch worker position fates =>
    cases hwork : s.pool[worker]? with
    | none => simpa only [serverStep, hwork] using h
    | some w =>
      cases hline : (s.log w.key)[position]? with
      | none => simpa only [serverStep, hwork, hline] using h
      | some line =>
        cases line with
        | torn => simpa only [serverStep, hwork, hline] using h
        | record envelope sid event =>
          simp only [serverStep, hwork, hline]
          refine h.setWorker hwork
            (w.dispatch env s.partitions envelope sid event fates) rfl rfl
            (fun other hother => ?_) _
          rcases List.mem_append.1 hother with hother | hother
          · exact h.dispatched w (List.mem_of_getElem? hwork) other hother
          · rw [List.mem_singleton.1 hother]
            exact h.logs w.key envelope sid event (List.mem_of_getElem? hline)
  | flush worker rows edges =>
    cases hwork : s.pool[worker]? with
    | none => simpa only [serverStep, hwork] using h
    | some w =>
      simp only [serverStep, hwork]
      split
      · exact h.setWorker hwork w.emptied rfl rfl
          (fun _ hmem => absurd hmem List.not_mem_nil) _
      · exact h.setWorker hwork w rfl rfl (h.dispatched w (List.mem_of_getElem? hwork)) _
  | discard worker =>
    cases hwork : s.pool[worker]? with
    | none => simpa only [serverStep, hwork] using h
    | some w =>
      simp only [serverStep, hwork]
      exact h.setWorker hwork w.emptied rfl rfl
        (fun _ hmem => absurd hmem List.not_mem_nil) _
  | commit key count =>
    exact ⟨h.workers, h.dispatched,
      owned_update h.logs ((h.logs key).subset (List.drop_subset count _)), h.deads⟩
  | deadLetter key position =>
    refine ⟨h.workers, h.dispatched, h.logs, owned_update h.deads ((h.deads key).append ?_)⟩
    apply (h.logs key).subset
    intro line hline
    exact List.mem_of_getElem? (Option.mem_toList.1 hline)
  | replay key position =>
    cases hline : (s.dead key)[position]? with
    | none => simpa only [serverStep, hline] using h
    | some line =>
      have hmem := List.mem_of_getElem? hline
      simp only [serverStep, hline]
      apply Bound.append
      · apply h.getOrCreate
        apply hattributed.imp_right
        intro hparsed
        obtain ⟨binding, hbind⟩ := Option.isSome_iff_exists.1 (hparsed line hline)
        rw [hbind, Option.getD_some]
        exact (h.deads key).parse hmem hbind
      · exact (h.deads key).subset (List.cons_subset.2 ⟨hmem, List.nil_subset _⟩)
  | purge key =>
    exact ⟨h.workers, h.dispatched, h.logs,
      owned_update h.deads fun _ _ _ hmem => absurd hmem List.not_mem_nil⟩
  | restart =>
    exact ⟨fun w hw => absurd hw List.not_mem_nil, fun w hw => absurd hw List.not_mem_nil, h.logs,
      h.deads⟩
  | recover key =>
    cases hparse : (s.log key).head?.bind parseWorkspaceAndCreator with
    | none => simpa only [serverStep, hparse] using h
    | some binding =>
      simp only [serverStep, hparse]
      obtain ⟨line, hline, hbind⟩ := Option.bind_eq_some_iff.1 hparse
      exact h.getOrCreate (.inr ((h.logs key).parse (List.mem_of_head? hline) hbind))
  | deregister key => exact ⟨h.workers, h.dispatched, h.logs, h.deads⟩

/-! ## Flushes -/

theorem created_by_created (id : NodeId) :
    (created env id).props "created_by" = env.createdBy.map .str := by
  have hplaceholder : (placeholder env id).props "created_by" = none := by
    simp [placeholder, Props.assign, Props.none]
  simp [created, Props.fill, hplaceholder]

theorem created_by_mergeRow (id : NodeId) (row : Node) :
    (mergeRow env id row none).props "created_by" = env.createdBy.map .str := by
  rw [mergeRow_eq]
  simp [Props.fill, Props.overlay, buildNodeProps, created_by_created]

theorem created_by_flush {env : Env} {b : Buffer} {db : Database} {id : NodeId} {node : Node}
    (hends : env.createdBy = none ∨ ∀ ends ∈ b.edges.keys, ∀ id ∈ [ends.1, ends.2],
      (b.nodes.get id).isSome ∨ (db.nodes id).isSome)
    (hbefore : db.nodes id = none) (hafter : (db.flush env b).nodes id = some node) :
    node.props "created_by" = env.createdBy.map .str := by
  rw [nodes_flush, hbefore] at hafter
  cases hrow : b.nodes.get id with
  | some row =>
    rw [hrow] at hafter
    cases hafter
    exact created_by_mergeRow env id row
  | none =>
    rw [hrow, writeRow, Option.map_none, Option.none_or] at hafter
    split at hafter
    next hend =>
      cases hafter
      rcases hends with hnobody | hknown
      · have hsame : placeholder env id = created env id := by simp [created, hnobody]
        rw [hsame, created_by_created]
      · obtain ⟨ends, hkey, hid⟩ := hend
        rcases hknown ends hkey id (by simpa [eq_comm] using hid) with hsome | hsome
        · rw [hrow] at hsome
          cases hsome
        · rw [hbefore] at hsome
          cases hsome
    next => cases hafter

theorem storedByEnvelope (s : Server) (action : ServerAction) (h : Bound clients s)
    (hattributed : Attributed s action) : StoredByEnvelope env clients s action := by
  have hcreate (key : String) (binding : Binding) :
      (s.getOrCreate key binding).partitions = s.partitions := by
    unfold Server.getOrCreate
    split <;> rfl
  cases action with
  | flush worker rows edges =>
    intro w hwork envelope henv
    have hmem := List.mem_of_getElem? hwork
    have hbind : w.binding = envelope :=
      (h.workers w hmem).trans (h.dispatched w hmem envelope henv).symm
    have hpar : (serverStep env clients s (.flush worker rows edges)).partitions
        = Function.update s.partitions w.binding.workspace
          ((s.partitions w.binding.workspace).flush (boundTo env w.binding)
            (committed w.buffer rows edges)) := by
      simp only [serverStep, hwork]
    rw [hpar, ← hbind]
    constructor
    · intro workspace hother
      rw [Function.update_of_ne hother]
    · intro id node hbefore hafter
      rw [Function.update_self] at hafter
      exact created_by_flush (hattributed w hwork) hbefore hafter
  | ingest key sid event torn => exact hcreate key _
  | replay key position =>
    cases hline : (s.dead key)[position]? with
    | none => simp only [StoredByEnvelope, serverStep, hline]
    | some line =>
      simp only [StoredByEnvelope, serverStep, hline]
      exact hcreate key _
  | recover key =>
    cases hparse : (s.log key).head?.bind parseWorkspaceAndCreator with
    | none => simp only [StoredByEnvelope, serverStep, hparse]
    | some binding =>
      simp only [StoredByEnvelope, serverStep, hparse]
      exact hcreate key binding
  | dispatch worker position fates =>
    simp only [StoredByEnvelope, serverStep]
    split
    · rfl
    · split <;> rfl
  | discard worker =>
    simp only [StoredByEnvelope, serverStep]
    split <;> rfl
  | tearLog key position => rfl
  | tearDead key position => rfl
  | commit key count => rfl
  | deadLetter key position => rfl
  | purge key => rfl
  | restart => rfl
  | deregister key => rfl

end Steps

/-! ## Runs -/

def Server.started (partitions : String → Database) (log dead : String → List Line) : Server :=
  ⟨partitions, [], fun _ => false, log, dead⟩

/-- Where clients use each key with one workspace and contributor, every step of a run stores by the
envelopes of the records, whatever the files hold, if every step can be attributed. -/
theorem storedByEnvelope_of_attributed (env : Env) (clients : String → Client)
    (partitions : String → Database) (log dead : String → List Line)
    (hlog : ∀ key, Owned (clients key) (log key)) (hdead : ∀ key, Owned (clients key) (dead key))
    (actions : List ServerAction)
    (h : Along (serverStep env clients) Attributed (.started partitions log dead) actions) :
    Along (serverStep env clients) (StoredByEnvelope env clients) (.started partitions log dead)
      actions := by
  have hbound : Bound clients (.started partitions log dead) :=
    ⟨fun w hw => absurd hw List.not_mem_nil, fun w hw => absurd hw List.not_mem_nil, hlog, hdead⟩
  exact h.map_of_invariant (bound_step env) (storedByEnvelope env) hbound

def sampleClients : String → Client := fun _ => ⟨⟨"default", some "c"⟩, by decide⟩

def sampleRecord : Line :=
  .record ⟨"default", some "c"⟩ "s"
    (sampleEvent "prompt:submit" "2026-01-01T00:00:00+00:00")

/-- The dead letters of one key: a torn line, if the flag is set, and a record. -/
def sampleDead (torn : Bool) (key : String) : List Line :=
  if key = "k" then (if torn then [.torn] else []) ++ [sampleRecord] else []

/-- The dead letters are replayed, the record is dispatched, and its worker flushes. -/
def replayAndDrain (position : ℕ) : List ServerAction :=
  (List.range (position + 1)).map (.replay "k") ++ [.dispatch 0 position [], .flush 0 100 100]

theorem owned_nil (client : Client) : Owned client [] :=
  fun _ _ _ hmem => absurd hmem List.not_mem_nil

theorem owned_sampleDead (torn : Bool) (key : String) :
    Owned (sampleClients key) (sampleDead torn key) := by
  unfold sampleDead
  split
  · apply Owned.append
    · cases torn with
      | true => exact owned_torn _
      | false => exact owned_nil _
    · intro envelope sid event hmem
      cases List.mem_singleton.1 hmem
      rfl
  · exact owned_nil _

/-- A replay whose first line names the workspace: the record is stored by its envelope. -/
theorem storedByEnvelope_of_attributed_replay :
    Along (serverStep sampleEnv sampleClients) Attributed
        (.started (fun _ => Database.empty) (fun _ => []) (sampleDead false)) (replayAndDrain 0)
      ∧ Along (serverStep sampleEnv sampleClients) (StoredByEnvelope sampleEnv sampleClients)
        (.started (fun _ => Database.empty) (fun _ => []) (sampleDead false)) (replayAndDrain 0) :=
  have hattributed : Along (serverStep sampleEnv sampleClients) Attributed
      (.started (fun _ => Database.empty) (fun _ => []) (sampleDead false)) (replayAndDrain 0) := by
    decide +kernel
  ⟨hattributed, storedByEnvelope_of_attributed sampleEnv sampleClients _ _ _
    (fun _ => owned_nil _) (owned_sampleDead false) _ hattributed⟩

theorem StoredByEnvelope.elsewhere {env : Env} {clients : String → Client} {s : Server}
    {worker rows edges : ℕ} (h : StoredByEnvelope env clients s (.flush worker rows edges))
    (envelope : Binding)
    (hdispatch : (s.pool[worker]?.map Worker.dispatched) = some [envelope]) (workspace : String)
    (hother : workspace ≠ envelope.workspace) :
    (serverStep env clients s (.flush worker rows edges)).partitions workspace
      = s.partitions workspace := by
  obtain ⟨w, hwork, hw⟩ := Option.map_eq_some_iff.1 hdispatch
  exact (h w hwork envelope (hw ▸ List.mem_singleton_self envelope)).1 workspace hother

/-- Replayed behind a torn line, a record of the workspace `default` lands in the workspace with the
empty name. -/
theorem replayBehindTorn_astray :
    ¬ Along (serverStep sampleEnv sampleClients) (StoredByEnvelope sampleEnv sampleClients)
      (.started (fun _ => Database.empty) (fun _ => []) (sampleDead true)) (replayAndDrain 1) := by
  rintro ⟨-, -, -, hfalse, -⟩
  have hsame := hfalse.elsewhere ⟨"default", some "c"⟩ (by decide +kernel) "" (by decide)
  have hnode := congrArg (fun db => (db.nodes "s").isSome) hsame
  exact absurd hnode (by decide +kernel)

end ContextIntelligence.Pipeline
