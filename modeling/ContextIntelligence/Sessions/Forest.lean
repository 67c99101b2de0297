import ContextIntelligence.Handlers.Payloads
import ContextIntelligence.Sessions.Attachment
import ContextIntelligence.Sessions.TypeLabels

/-!
# The forest of sessions

A session under a parent is linked to it by HAS_SUBSESSION or FORKED, and the resolution of a
session graph takes these edges for a forest. The fork handler removes the edge of the old type from
the buffer; one that is stored stays. Each session has a worker on the shared database. Whether an
event links its session is decided by the label machine from the labels that `get_node` shows, a
buffered part of the node hiding the stored one (`typeShown`).
-/

namespace ContextIntelligence.Sessions

open Lib Lib.Effects Lib.Recording Lib.Runs ContextIntelligence.Graph Handlers

/-! ## The edges of a start and of a fork -/

/-- `HAS_SUBSESSION|FORKED`. -/
def parentTypes : List String := ["HAS_SUBSESSION", "FORKED"]

/-- The only parent edges that a call may ask for are of one type and lead from the parent to the
session; and it asks for none unless the session is to be linked. -/
def Rooted (sessionId parentId type : String) (links : Prop) : Call → Prop
  | .upsertEdge src dst fields =>
    edgeType (Props.none.assign fields) ∈ parentTypes →
      links ∧ src = parentId ∧ dst = sessionId ∧ edgeType (Props.none.assign fields) = type
  | _ => True

/-- Whether the label machine, in this state, links a session with a parent: a start or a fork that
gives the session its new label. -/
def linkedBy (current : Option SessionType) (event : Lifecycle) (label : String) : Bool :=
  label ∈ (classify current event true).add

section Calls

variable {sessionId parentId type : String} {links : Prop}

theorem rooted_other {src dst : NodeId} {fields : List (String × Value)}
    (h : edgeType (Props.none.assign fields) ∉ parentTypes) :
    Rooted sessionId parentId type links (.upsertEdge src dst fields) :=
  fun hmem => absurd hmem h

theorem only_rooted_ensureSessionNode (id : NodeId) (data : Payload) (workingDir : Option String) :
    Only (Rooted sessionId parentId type links) (Traced.ensureSessionNode id data workingDir) := by
  refine Only.bind (Only.lift _) fun w => Only.ite (Only.pure ()) ?_
  refine Only.bind (Only.lift _) fun existing => ?_
  exact Only.bind (Traced.only_call trivial) fun _ => Only.lift _

theorem only_rooted_touchSession (env : Env) (id : NodeId) (timestamp : String) :
    Only (Rooted sessionId parentId type links) (Traced.touchSession env id timestamp) := by
  refine Only.quietly (Only.bind (Only.lift _) fun existing => ?_)
  cases existing with
  | none => exact Only.pure ()
  | some node => exact Only.ite (Traced.only_call trivial) (Only.pure ())

theorem only_rooted_applyTransition (id : NodeId) (t : LabelTransition) :
    Only (Rooted sessionId parentId type links) (Traced.applyTransition id t) :=
  Only.ite (Only.pure ()) (Traced.only_call trivial)

variable {o : Occurrence}

theorem only_rooted_linkParent (hlinks : links) :
    Only (Rooted o.sessionId parentId type links) (Traced.linkParent type parentId o) :=
  Only.bind (only_rooted_ensureSessionNode _ _ _) fun _ =>
    Traced.only_call fun _ => ⟨hlinks, rfl, rfl, rfl⟩

/-- A start asks for HAS_SUBSESSION alone, and only where the labels it reads have it linked. -/
theorem rooted_handleStart {w : World} {call : Call}
    (hcall : call ∈ (Traced.handleStart o).calls w) :
    ∃ labels w', readLabels o.sessionId w = (.ok labels, w')
      ∧ Rooted o.sessionId (parentOf o.data) "HAS_SUBSESSION"
        (parentOf o.data ≠ "" ∧ linkedBy (currentType labels) .start "SubSession") call := by
  unfold Traced.handleStart at hcall
  rcases hread : readLabels o.sessionId w with ⟨fault | labels, w'⟩
  · rw [Recorded.calls_bind_of_error hread] at hcall
    cases hcall
  refine ⟨labels, w', rfl, ?_⟩
  rw [Recorded.calls_bind_of_ok hread, Recorded.calls_lift, List.nil_append] at hcall
  refine Only.bind (Traced.only_call trivial) (fun _ => ?_) w' call hcall
  refine Only.bind (Traced.only_call (rooted_other (by decide))) fun _ => ?_
  refine Only.bind (only_rooted_applyTransition _ _) fun _ => ?_
  split
  next hlink =>
    refine only_rooted_linkParent ⟨hlink.2, ?_⟩
    simpa [linkedBy, hlink.2] using hlink.1
  next => exact Only.pure ()

/-- A fork asks for FORKED alone, and only where the labels it reads have it linked. -/
theorem rooted_handleFork (env : Env) {w : World} {call : Call}
    (hcall : call ∈ (Traced.handleFork env o).calls w) :
    ∃ labels w', readLabels o.sessionId w = (.ok labels, w')
      ∧ Rooted o.sessionId (parentOf o.data) "FORKED"
        (parentOf o.data ≠ "" ∧ linkedBy (currentType labels) .fork "ForkedSession") call := by
  unfold Traced.handleFork at hcall
  rcases hread : readLabels o.sessionId w with ⟨fault | labels, w'⟩
  · rw [Recorded.calls_bind_of_error hread] at hcall
    cases hcall
  refine ⟨labels, w', rfl, ?_⟩
  rw [Recorded.calls_bind_of_ok hread, Recorded.calls_lift, List.nil_append] at hcall
  have hplan : Only (Rooted o.sessionId (parentOf o.data) "FORKED" (parentOf o.data ≠ ""
      ∧ linkedBy (currentType labels) .fork "ForkedSession"))
        (Traced.performAll (mountPlan o)) := by
    apply Traced.only_performAll
    simp only [mountPlan, List.forall_mem_cons, List.not_mem_nil, false_imp_iff, implies_true,
      and_true, Write.call]
    exact ⟨trivial, rooted_other (by decide), rooted_other (by decide)⟩
  refine Only.bind (Traced.only_call trivial) (fun _ => ?_) w' call hcall
  refine Only.bind (Traced.only_call (rooted_other (by decide))) fun _ => ?_
  refine Only.bind (only_rooted_applyTransition _ _) fun _ => ?_
  split
  next hlink =>
    have hlinks : parentOf o.data ≠ "" ∧ linkedBy (currentType labels) .fork "ForkedSession" := by
      refine ⟨hlink.2, ?_⟩
      simpa [linkedBy, hlink.2] using hlink.1
    refine Only.bind ?_ fun _ => hplan
    unfold Traced.relinkParent
    split
    · exact Only.bind (Traced.only_call trivial) fun _ => only_rooted_linkParent hlinks
    · exact only_rooted_linkParent hlinks
  next => exact hplan

end Calls

theorem calls_runAll_of_idle {o : Occurrence} {w : World} {claims : List (List String)}
    {hooks : List (Occurrence → Trace Unit)}
    (hidle : List.Forall₂ (fun names enricher => o.name ∉ names → Traced.Idle (enricher o) w)
      claims hooks)
    (hname : ∀ names ∈ claims, o.name ∉ names) :
    (Traced.runAll (hooks.map fun enricher => enricher o)).calls w = [] := by
  induction hidle with
  | nil => rfl
  | cons hfirst _ ih =>
    obtain ⟨hnot, hrest⟩ := List.forall_mem_cons.1 hname
    obtain ⟨hrun, hcalls⟩ := hfirst hnot
    refine (Recorded.calls_bind_of_ok hrun).trans ?_
    rw [hcalls, List.nil_append]
    exact ih hrest

theorem calls_enrichers_session (env : Env) {o : Occurrence} {w : World} {call : Call}
    (hname : ∀ names ∈ handledEvents.tail, o.name ∉ names)
    (hcall : call ∈
      (Traced.runAll ((Traced.enrichers env).map fun enricher => enricher o)).calls w) :
    call ∈ (Traced.sessionHandler env o).calls w := by
  -- the enrichers behind the session handler are idle wherever it ends
  have hrest (w' : World) : (Traced.runAll
      ((Traced.enrichers env).tail.map fun enricher => enricher o)).calls w' = [] := by
    cases Traced.idle_of_not_handled env o w' with
    | cons _ hidle => exact calls_runAll_of_idle hidle hname
  have hsplit : Traced.runAll ((Traced.enrichers env).map fun enricher => enricher o)
      = Traced.sessionHandler env o >>= fun _ =>
        Traced.runAll ((Traced.enrichers env).tail.map fun enricher => enricher o) := rfl
  rw [hsplit] at hcall
  rcases hrun : (Traced.sessionHandler env o).run w with ⟨e | a, w'⟩
  · rwa [Recorded.calls_bind_of_error hrun] at hcall
  · rwa [Recorded.calls_bind_of_ok hrun, hrest w', List.append_nil] at hcall

/-! ## The parent of an event -/

theorem parentOf_prepare {env : Env} {sessionId : NodeId} {e : Event} {o : Occurrence}
    (h : prepare env sessionId e = .ok o) : parentOf o.data = parentOf e.data := by
  have hid : o.data.get "parent_id" = e.data.get "parent_id" :=
    get_prepare (by decide) (by decide) h
  have hpar : o.data.get "parent" = e.data.get "parent" :=
    get_prepare (by decide) (by decide) h
  simp only [parentOf, Payload.str, hid, hpar]

/-! ## The labels an event reads -/

/-- The type of the session that its handler finds when the event is dispatched: a buffered part of
the node hides the stored one, and a session the worker has not seen gets a part without a type. -/
def typeShown (w : World) (sessionId : NodeId) : Option SessionType :=
  currentType (match w.buffer.nodes.get sessionId with
    | some fragment => fragment.labels
    | none =>
      if sessionId ∈ w.cursors.seenSessions ∧ w.fates.head? ≠ some .neo4jError then
        storedLabels w.db sessionId
      else ∅)

theorem currentType_union_stub (labels : Finset String) (id : NodeId) (data : Payload)
    (workingDir : Option String) (existing : Option Node) :
    currentType (labels ∪ (sessionStub id data workingDir existing).1) = currentType labels := by
  have hnot : ∀ label ∈ terminalLabels, label ∉ (sessionStub id data workingDir existing).1 :=
    fun label hlabel hstub =>
      Finset.disjoint_left.1 (Traced.disjoint_sessionStub id data workingDir existing)
      hstub (Finset.mem_insert_of_mem hlabel)
  simp only [terminalLabels, Finset.mem_insert, Finset.mem_singleton, forall_eq_or_imp,
    forall_eq] at hnot
  simp only [currentType, Finset.mem_union, hnot, or_false]

/-- What the handler of a start or a fork reads is what the worker shows before the event. -/
theorem currentType_readLabels {env : Env} {e : Event} {o : Occurrence} {w w₁ w₂ : World}
    {labels : Finset String}
    (hens : ensureSessionNode o.sessionId e.data e.workingDir w = (.ok (), w₁))
    (hread : readLabels o.sessionId (performAll (defaultHandler env o) w₁).2 = (.ok labels, w₂)) :
    currentType labels = typeShown w o.sessionId := by
  have hget := get_defaultHandler env o w₁
  have hdb : (performAll (defaultHandler env o) w₁).2.db = w₁.db := rfl
  have hfates : (performAll (defaultHandler env o) w₁).2.fates = w₁.fates := rfl
  generalize (performAll (defaultHandler env o) w₁).2 = w' at hget hdb hfates hread
  simp only [readLabels, Eff.bind_apply, getNode, hget, readDb, hdb, hfates] at hread
  by_cases hseen : o.sessionId ∈ w.cursors.seenSessions
  · simp only [ensureSessionNode, Eff.bind_apply, Eff.get_apply, hseen, if_true, Eff.pure_apply,
      Prod.mk.injEq, true_and] at hens
    subst hens
    unfold typeShown
    cases hfrag : w.buffer.nodes.get o.sessionId with
    | some fragment =>
      simp only [hfrag] at hread
      cases hread
      rfl
    | none =>
      simp only [hfrag, hseen, true_and] at hread ⊢
      rcases hf : w.fates with _ | ⟨_ | _ | _, rest⟩ <;> simp only [hf] at hread <;> cases hread <;>
        rfl
  · simp only [ensureSessionNode, Eff.bind_apply, Eff.get_apply, hseen, if_false] at hens
    have hsame := Traced.buffer_consumesFates.getNode o.sessionId w
    rcases hrun : getNode o.sessionId w with ⟨fault | existing, w₀⟩ <;> rw [hrun] at hens hsame
    · cases hens
    · cases hens
      replace hsame : w₀.buffer = w.buffer := hsame
      simp only [World.markSeen, World.onCursors, World.onBuffer, Buffer.upsertNode, hsame,
        Dict.get_set_self] at hread
      cases hread
      refine (currentType_union_stub ..).trans ?_
      unfold typeShown Buffer.fragment
      cases w.buffer.nodes.get o.sessionId with
      | some fragment => rfl
      | none => simp [hseen, Node.blank]

/-- A start or fork of a session whose events name no other parent than this one. -/
structure LifecycleEvent (parentId : String) where
  event : Event
  named : event.name = "session:start" ∨ event.name = "session:fork"
  parent : parentOf event.data = "" ∨ parentOf event.data = parentId

/-- The type of the edge by which the event links a session to its parent. -/
def LifecycleEvent.linkType {parentId : String} (e : LifecycleEvent parentId) : String :=
  if e.event.name = "session:start" then "HAS_SUBSESSION" else "FORKED"

/-- Whether the event links a session whose handler finds it to be of this type. -/
def LifecycleEvent.links {parentId : String} (e : LifecycleEvent parentId)
    (current : Option SessionType) : Bool :=
  parentOf e.event.data ≠ "" && if e.event.name = "session:start" then
    linkedBy current .start "SubSession" else linkedBy current .fork "ForkedSession"

theorem LifecycleEvent.rooted_storeCalls (env : Env) {sessionId : NodeId} {parentId : String}
    (e : LifecycleEvent parentId) (w : World) :
    ∀ call ∈ storeCalls env sessionId e.event w, Rooted sessionId (parentOf e.event.data) e.linkType
      (e.links (typeShown w sessionId) = true) call := by
  refine Traced.calls_processEvent_of (only_rooted_ensureSessionNode _ _ _) (fun o _ => ?_)
    (fun o w₁ hprep hens => ?_) (only_rooted_touchSession env sessionId)
  · simp only [defaultHandler, List.forall_mem_cons, List.not_mem_nil, false_imp_iff,
      implies_true, and_true, Write.call]
    exact ⟨trivial, rooted_other (show "HAS_EVENT" ∉ parentTypes by decide)⟩
  · obtain ⟨rfl, hevent, -⟩ := prepare_fields hprep
    intro call hcall
    unfold LifecycleEvent.linkType LifecycleEvent.links
    rw [← parentOf_prepare hprep, ← hevent]
    -- no other handler claims a start or a fork
    rcases e.named with hname | hname <;> rw [← hevent] at hname <;>
      replace hcall := calls_enrichers_session env (by rw [hname]; decide) hcall <;>
      simp only [Traced.sessionHandler, hname] at hcall ⊢
    · obtain ⟨labels, w₂, hread, hroot⟩ := rooted_handleStart (by simpa using hcall)
      rw [currentType_readLabels hens hread] at hroot
      simpa using hroot
    · obtain ⟨labels, w₂, hread, hroot⟩ := rooted_handleFork env (by simpa using hcall)
      rw [currentType_readLabels hens hread] at hroot
      simpa using hroot

/-! ## Workers -/

structure Fleet where
  cursors : NodeId → Cursors
  buffers : NodeId → Buffer
  db : Database

def Fleet.world (f : Fleet) (sessionId : NodeId) : World :=
  ⟨f.cursors sessionId, f.buffers sessionId, f.db, []⟩

def Fleet.put (f : Fleet) (sessionId : NodeId) (w : World) : Fleet where
  cursors := Function.update f.cursors sessionId w.cursors
  buffers := Function.update f.buffers sessionId w.buffer
  db := w.db

def Fleet.initial : Fleet := ⟨fun _ => Cursors.fresh, fun _ => Buffer.empty, Database.empty⟩

/-- What the worker of a session does; `parent` gives the one parent of each session. -/
inductive FleetAction (parent : NodeId → String) where
  | dispatch (sessionId : NodeId) (e : LifecycleEvent (parent sessionId)) (fates : List ReadFate)
  | flush (sessionId : NodeId)
  | discard (sessionId : NodeId)
  | recreate (sessionId : NodeId)

section Fleets

variable {parent : NodeId → String}

def FleetAction.session : FleetAction parent → NodeId
  | .dispatch sessionId _ _ | .flush sessionId | .discard sessionId | .recreate sessionId =>
    sessionId

def FleetAction.work : FleetAction parent → WorkerAction
  | .dispatch sessionId e fates => .dispatch sessionId e.event fates
  | .flush _ => .flush
  | .discard _ => .discard
  | .recreate _ => .recreate

def fleetStep (env : Env) (f : Fleet) (action : FleetAction parent) : Fleet :=
  f.put action.session (workerStep env (f.world action.session) action.work)

/-- Every session has at most one parent edge: one source and one type. -/
def Forest (f : Fleet) : Prop :=
  ∀ session src src' type type', type ∈ parentTypes → type' ∈ parentTypes →
    Stored f.db src session type → Stored f.db src' session type' → src = src' ∧ type = type'

/-- The condition on a dispatch: an event that links the session, by the labels its handler is
shown, finds no parent edge of the other type stored. -/
def LinksOnce (f : Fleet) : FleetAction parent → Prop
  | .dispatch sessionId e fates =>
    e.links (typeShown { f.world sessionId with fates := fates } sessionId) = true →
      ∀ other ∈ parentTypes, Stored f.db (parent sessionId) sessionId other → other = e.linkType
  | _ => True

/-! ## The invariant -/

/-- The buffer of a session's worker holds no parent edge but that of the session, and no other type
of it is stored. -/
def OwnEdge (parent : NodeId → String) (db : Database) (sessionId : NodeId) (b : Buffer) : Prop :=
  ∀ src dst type, type ∈ parentTypes → slotType b (src, dst) = some type →
    src = parent sessionId ∧ dst = sessionId
      ∧ ∀ other ∈ parentTypes, Stored db (parent sessionId) sessionId other → other = type

structure FleetInv (parent : NodeId → String) (f : Fleet) : Prop where
  buffers : ∀ sessionId, OwnEdge parent f.db sessionId (f.buffers sessionId)
  stored : ∀ src dst type, type ∈ parentTypes → Stored f.db src dst type → src = parent dst
  forest : Forest f

variable {sessionId : NodeId} {db : Database}

theorem ownEdge_empty (db : Database) (sessionId : NodeId) :
    OwnEdge parent db sessionId Buffer.empty := nofun

theorem ownEdge_call {b : Buffer} {call : Call} {parentId type : String} {links : Prop}
    (h : OwnEdge parent db sessionId b) (hshape : FromHandlers call)
    (hroot : Rooted sessionId parentId type links call)
    (hlinks : links → parentId = parent sessionId
      ∧ ∀ other ∈ parentTypes, Stored db (parent sessionId) sessionId other → other = type) :
    OwnEdge parent db sessionId (b.call call) := by
  intro src dst type' htype hslot
  rw [slotType_call hshape] at hslot
  cases call with
  | upsertNode id labels fields => exact h src dst type' htype hslot
  | setLabels id remove add => exact h src dst type' htype hslot
  | removeEdge src' dst' =>
    simp only [lastStep] at hslot
    split at hslot
    · cases hslot
    · exact h src dst type' htype hslot
  | upsertEdge src' dst' fields =>
    simp only [lastStep] at hslot
    split at hslot
    next heq =>
      cases heq
      cases hslot
      obtain ⟨hlinked, rfl, rfl, rfl⟩ := hroot htype
      exact ⟨(hlinks hlinked).1, rfl, (hlinks hlinked).2⟩
    next => exact h src dst type' htype hslot

theorem ownEdge_foldl {b : Buffer} {calls : List Call} {parentId type : String} {links : Prop}
    (h : OwnEdge parent db sessionId b) (hshape : ∀ call ∈ calls, FromHandlers call)
    (hroot : ∀ call ∈ calls, Rooted sessionId parentId type links call)
    (hlinks : links → parentId = parent sessionId
      ∧ ∀ other ∈ parentTypes, Stored db (parent sessionId) sessionId other → other = type) :
    OwnEdge parent db sessionId (calls.foldl Buffer.call b) := by
  induction calls generalizing b with
  | nil => exact h
  | cons call rest ih =>
    obtain ⟨hshape, hshapedRest⟩ := List.forall_mem_cons.1 hshape
    obtain ⟨hroot, hrootedRest⟩ := List.forall_mem_cons.1 hroot
    exact ih (ownEdge_call h hshape hroot hlinks) hshapedRest hrootedRest

variable {env : Env} {f : Fleet}

theorem fleetInv_put (h : FleetInv parent f) {w : World}
    (hw : OwnEdge parent f.db sessionId w.buffer) (hdb : w.db = f.db) :
    FleetInv parent (f.put sessionId w) := by
  have hput : (f.put sessionId w).db = f.db := hdb
  refine ⟨fun id => ?_, by rw [hput]; exact h.stored, by unfold Forest; rw [hput]; exact h.forest⟩
  rw [hput]
  by_cases hid : id = sessionId
  · subst hid
    simpa only [Fleet.put, Function.update_self] using hw
  · simpa only [Fleet.put, Function.update_of_ne hid] using h.buffers id

theorem stored_flush {sessionId src dst : NodeId} {type : String} :
    Stored (fleetStep env f (.flush sessionId : FleetAction parent)).db src dst type
      ↔ Stored f.db src dst type ∨ slotType (f.buffers sessionId) (src, dst) = some type := by
  simp only [fleetStep, FleetAction.work, FleetAction.session, workerStep, Fleet.put, Fleet.world,
    World.flush, Stored, isSome_relationships_flush, slotType, Option.map_eq_some_iff]

theorem fleetInv_flush (h : FleetInv parent f) :
    FleetInv parent (fleetStep env f (.flush sessionId : FleetAction parent)) where
  buffers id := by
    intro src dst type htype hslot
    by_cases hid : id = sessionId
    · subst hid
      simp only [fleetStep, FleetAction.session, Fleet.put, Function.update_self] at hslot
      cases hslot
    · simp only [fleetStep, FleetAction.session, Fleet.put, Function.update_of_ne hid] at hslot
      obtain ⟨rfl, rfl, hfits⟩ := h.buffers id src dst type htype hslot
      refine ⟨rfl, rfl, fun other hother hstore => ?_⟩
      rcases stored_flush.1 hstore with hold | hslot'
      · exact hfits other hother hold
      · exact absurd (h.buffers sessionId _ _ other hother hslot').2.1 hid
  stored src dst type htype hstore := by
    rcases stored_flush.1 hstore with hstore | hslot
    · exact h.stored src dst type htype hstore
    · obtain ⟨rfl, rfl, -⟩ := h.buffers sessionId src dst type htype hslot
      rfl
  forest session src src' type type' htype htype' hstore hstore' := by
    rcases stored_flush.1 hstore with hold | hslot <;>
      rcases stored_flush.1 hstore' with hold' | hslot'
    · exact h.forest session src src' type type' htype htype' hold hold'
    · obtain ⟨rfl, rfl, hfits⟩ := h.buffers sessionId src' session type' htype' hslot'
      obtain rfl := h.stored src session type htype hold
      exact ⟨rfl, hfits type htype hold⟩
    · obtain ⟨rfl, rfl, hfits⟩ := h.buffers sessionId src session type htype hslot
      obtain rfl := h.stored src' session type' htype' hold'
      exact ⟨rfl, (hfits type' htype' hold').symm⟩
    · obtain ⟨rfl, rfl, -⟩ := h.buffers sessionId src session type htype hslot
      obtain ⟨rfl, -, -⟩ := h.buffers session src' session type' htype' hslot'
      exact ⟨rfl, Option.some.inj (hslot.symm.trans hslot')⟩

theorem fleetInv_step (f : Fleet) (action : FleetAction parent) (h : FleetInv parent f)
    (honce : LinksOnce f action) : FleetInv parent (fleetStep env f action) := by
  cases action with
  | dispatch sessionId e fates =>
    refine fleetInv_put h ?_ (db_processEvent env sessionId e.event _)
    simp only [FleetAction.work, FleetAction.session, workerStep, buffer_processEvent]
    refine ownEdge_foldl (h.buffers sessionId)
      (Traced.fromHandlers_processEvent env sessionId e.event _)
      (e.rooted_storeCalls env _) fun hlinks => ⟨e.parent.resolve_left ?_, honce hlinks⟩
    simp only [LifecycleEvent.links, Bool.and_eq_true, decide_eq_true_eq] at hlinks
    exact hlinks.1
  | flush sessionId => exact fleetInv_flush h
  | discard sessionId => exact fleetInv_put h (ownEdge_empty _ sessionId) rfl
  | recreate sessionId => exact fleetInv_put h (ownEdge_empty _ sessionId) rfl

theorem fleetInv_initial : FleetInv parent Fleet.initial where
  buffers sessionId := ownEdge_empty _ sessionId
  stored := nofun
  forest := nofun

end Fleets

/-- In every run in which a start or a fork that links its session, by the labels it is shown, finds
no parent edge of the other type stored, the sessions form a forest throughout. -/
theorem forest_of_linksOnce (env : Env) (parent : NodeId → String)
    (actions : List (FleetAction parent))
    (h : Along (fleetStep env) LinksOnce Fleet.initial actions) :
    Always (fleetStep env) Forest Fleet.initial actions :=
  h.map_of_invariant fleetInv_step (fun f a hf ha => (fleetInv_step f a hf ha).forest)
    fleetInv_initial

/-! ## A fork after a flush -/

def childEvent (name : String) : Event where
  name := name
  data := [("timestamp", .str "2026-01-01T00:00:00+00:00"), ("parent_id", .str "p")]
  workingDir := none
  identity := none

/-- A session that starts again under its parent after a flush is linked once. -/
theorem forest_of_linksOnce_restart :
    let start : LifecycleEvent "p" :=
      ⟨childEvent "session:start", Or.inl rfl, Or.inr (by decide +kernel)⟩
    Always (fleetStep sampleEnv) Forest Fleet.initial
      ([.dispatch "s" start [], .flush "s", .recreate "s", .dispatch "s" start [], .flush "s"] :
        List (FleetAction fun _ => "p")) := by
  apply forest_of_linksOnce
  refine ⟨fun _ other hother hstore => ?_, trivial, trivial,
    fun _ other hother hstore => ?_, trivial,
    trivial⟩
  · cases hstore
  · simp only [parentTypes, List.mem_cons, List.not_mem_nil, or_false] at hother
    rcases hother with rfl | rfl
    · rfl
    · exact absurd hstore (by unfold Stored; decide +kernel)

/-- A session starts under its parent, is flushed, and forks from it. -/
def startFlushFork : List (FleetAction fun _ => "p") :=
  [.dispatch "s" ⟨childEvent "session:start", Or.inl rfl, Or.inr (by decide +kernel)⟩ [],
    .flush "s",
    .dispatch "s" ⟨childEvent "session:fork", Or.inr rfl, Or.inr (by decide +kernel)⟩ [],
    .flush "s"]

theorem startFlushFork_not_forest :
    ¬ Always (fleetStep sampleEnv) Forest Fleet.initial startFlushFork := by
  intro h
  have hend := h.run_of_ne_nil (by simp [startFlushFork])
  have hsub : Stored (run (fleetStep sampleEnv) Fleet.initial startFlushFork).db "p" "s"
      "HAS_SUBSESSION" := by
    unfold Stored
    decide +kernel
  have hfork : Stored (run (fleetStep sampleEnv) Fleet.initial startFlushFork).db "p" "s"
      "FORKED" := by
    unfold Stored
    decide +kernel
  exact absurd (hend "s" "p" "p" _ _ (by decide) (by decide) hsub hfork).2 (by decide)

end ContextIntelligence.Sessions
