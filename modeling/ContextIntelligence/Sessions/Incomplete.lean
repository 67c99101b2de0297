import ContextIntelligence.Sessions.TypeLabels
import ContextIntelligence.Lib.Runs

/-!
# Sessions marked incomplete

`session:end` marks a session incomplete when the labels it reads name no type. But `get_node`
answers with the buffered part alone as soon as there is one, such as the stub of a new worker; then
a session whose start is stored is marked all the same.
-/

namespace ContextIntelligence.Sessions

open Lib Lib.Effects Lib.Runs ContextIntelligence.Graph Handlers

/-! ## The runs of one session -/

/-- A worker of the session, and what has been dispatched: whether a start or fork was, and whether
an end was before any of them. -/
structure SessionRun where
  world : World
  started : Bool
  orphanEnd : Bool

inductive SessionAction where
  | dispatch (e : Event)
  | flush
  | respawn

/-- The handlers of the event run: its time can be parsed and its payload processed. -/
def recorded (env : Env) (sessionId : NodeId) (e : Event) : Bool := (prepare env sessionId e).isOk

def isBeginning (e : Event) : Bool := e.name = "session:start" || e.name = "session:fork"

/-- One step. A respawn between batches starts with no cursors; all reads succeed. -/
def sessionStep (env : Env) (sessionId : NodeId) (r : SessionRun) : SessionAction → SessionRun
  | .dispatch e =>
    { world := (processEvent env sessionId e r.world).2
      started := r.started || (recorded env sessionId e && isBeginning e)
      orphanEnd := r.orphanEnd
        || (recorded env sessionId e && decide (e.name = "session:end") && !r.started) }
  | .flush => { r with world := r.world.flush env }
  | .respawn =>
    if r.world.buffer.isEmpty then
      { r with world := { r.world with cursors := Cursors.fresh } }
    else r

def SessionRun.initial (db : Database) : SessionRun :=
  ⟨⟨Cursors.fresh, Buffer.empty, db, []⟩, false, false⟩

/-- The session node carries no mark, neither in the buffer nor in the database. -/
def Unmarked (sessionId : NodeId) (w : World) : Prop :=
  "IncompleteSession" ∉ (w.buffer.fragment sessionId).labels
    ∧ "IncompleteSession" ∉ storedLabels w.db sessionId

/-- A session whose end came only after its start or fork is not marked. -/
def NoFalseIncomplete (sessionId : NodeId) (r : SessionRun) : Prop :=
  r.orphanEnd = false → Unmarked sessionId r.world

def Unshadowed (sessionId : NodeId) (w : World) : Prop :=
  Typed (w.buffer.fragment sessionId).labels
    ∨ sessionId ∈ w.cursors.seenSessions ∧ w.buffer.nodes.get sessionId = none

/-- An end that comes after a start or fork is dispatched unshadowed. -/
def EndsUnshadowed (env : Env) (sessionId : NodeId) (r : SessionRun) : SessionAction → Prop
  | .dispatch e => e.name = "session:end" → recorded env sessionId e = true →
      r.orphanEnd = false → r.started = true → Unshadowed sessionId r.world
  | _ => True

/-! ## What a dispatch does to the session -/

variable {env : Env} {sid : NodeId}

/-- The labels that `get_node` shows of the session. -/
abbrev visibleLabels (sessionId : NodeId) (w : World) : Finset String :=
  shownLabels sessionId w.db w.buffer

variable {w : World}

theorem visibleLabels_of_some {fragment : Node} (h : w.buffer.nodes.get sid = some fragment) :
    visibleLabels sid w = (w.buffer.fragment sid).labels := by
  simp [shownLabels, visibleNode, Buffer.fragment, h]

theorem visibleLabels_of_none (h : w.buffer.nodes.get sid = none) :
    visibleLabels sid w = storedLabels w.db sid := by
  simp [shownLabels, visibleNode, storedLabels, h]

/-- Nothing marks the session, and no patch would. -/
structure Tracked (sessionId : NodeId) (w : World) : Prop where
  reads : w.fates = []
  unmarked : Unmarked sessionId w
  patches : ∀ patch ∈ w.buffer.patches, Sound patch

def Known (sessionId : NodeId) (w : World) : Prop :=
  Typed (w.buffer.fragment sessionId).labels ∨ Typed (storedLabels w.db sessionId)

variable {w' : World}

theorem Tracked.of_spares (h : Tracked sid w) (hw : Spares sid w w') : Tracked sid w' where
  reads := hw.fates h.reads
  unmarked := by
    refine ⟨fun hmem => h.unmarked.1 ((hw.labels _ (by decide)).1 hmem), ?_⟩
    rw [hw.db]
    exact h.unmarked.2
  patches := by
    rw [hw.patches]
    exact h.patches

theorem typed_of_spares (hw : Spares sid w w') :
    Typed (w'.buffer.fragment sid).labels ↔ Typed (w.buffer.fragment sid).labels := by
  have hlab : ∀ label ∈ terminalLabels, label ∈ (w'.buffer.fragment sid).labels
      ↔ label ∈ (w.buffer.fragment sid).labels :=
    fun label h => hw.labels label (Finset.mem_insert_of_mem h)
  constructor
  · rintro ⟨label, hterm, hmem⟩
    exact ⟨label, hterm, (hlab label hterm).1 hmem⟩
  · rintro ⟨label, hterm, hmem⟩
    exact ⟨label, hterm, (hlab label hterm).2 hmem⟩

theorem Known.of_spares (h : Known sid w) (hw : Spares sid w w') : Known sid w' := by
  rw [Known, typed_of_spares hw, hw.db]
  exact h

theorem classify_beginning {event : Lifecycle} (h : event ≠ .finish)
    (current : Option SessionType) (hasParent : Bool) :
    "IncompleteSession" ∉ (classify current event hasParent).add
      ∧ (classify current event hasParent = ⟨[], []⟩ ∧ current ≠ none
        ∨ ∃ label ∈ (classify current event hasParent).add, label ∈ terminalLabels) := by
  cases event with
  | finish => exact absurd rfl h
  | start => cases current with
    | none => cases hasParent <;> decide
    | some type => cases type <;> cases hasParent <;> decide
  | fork => cases current with
    | none => decide +revert
    | some type => cases type <;> decide +revert

theorem beginning_transition (h : Tracked sid w)
    (hw : Spares sid w w') {event : Lifecycle} (hevent : event ≠ .finish) (hasParent : Bool) :
    Tracked sid (applyTransition sid
        (classify (currentType (visibleLabels sid w)) event hasParent) w').2
      ∧ Known sid (applyTransition sid
        (classify (currentType (visibleLabels sid w)) event hasParent) w').2 := by
  have h' := h.of_spares hw
  obtain ⟨hadd, ⟨hkeep, htype⟩ | ⟨label, hlab, hterm⟩⟩ :=
    classify_beginning hevent (currentType (visibleLabels sid w)) hasParent
  · rw [applyTransition_eq, hkeep, if_pos ⟨rfl, rfl⟩]
    refine ⟨h', Known.of_spares ?_ hw⟩
    have hvis : Typed (visibleLabels sid w) := by
      by_contra hbare
      exact htype (currentType_eq_none.2 hbare)
    cases hfrag : w.buffer.nodes.get sid with
    | some fragment => exact .inl (visibleLabels_of_some hfrag ▸ hvis)
    | none => exact .inr (visibleLabels_of_none hfrag ▸ hvis)
  · generalize classify (currentType (visibleLabels sid w)) event hasParent = t at *
    rw [applyTransition_eq, if_neg fun hempty => by rw [hempty.1] at hlab; cases hlab]
    refine ⟨⟨h'.reads, ⟨?_, h'.unmarked.2⟩, ?_⟩, Or.inl ⟨label, hterm, ?_⟩⟩
    · simp only [World.onBuffer, fragment_setLabels, Finset.mem_union, Finset.mem_sdiff,
        List.mem_toFinset]
      rintro (⟨hold, -⟩ | hnew)
      · exact h'.unmarked.1 hold
      · exact hadd hnew
    · intro patch hpatch
      rcases List.mem_append.1 hpatch with hold | hnew
      · exact h'.patches patch hold
      · rw [List.mem_singleton.1 hnew]
        exact ⟨hadd, fun _ => ⟨label, hlab, hterm⟩⟩
    · simp [World.onBuffer, fragment_setLabels, hlab]

theorem respects_linkParent (type parentId : String) (o : Occurrence) :
    Respects (Spares sid) (linkParent type parentId o) :=
  respects_of_only (Traced.run_linkParent type parentId o) (attentive_frame.linkParent _ _ o)
    (Traced.onStore_linkParent type parentId o)
    (sparing_of_requested (Traced.only_linkParent type parentId o))

variable {o : Occurrence}

/-- The row of a start or a fork and the edge to its event leave the type alone. -/
theorem spares_sourced (fields fields' : List (String × Value)) (dst : NodeId) (w : World) :
    Spares sid w ((w.onBuffer (·.upsertNode sid {"Session"} fields)).onBuffer
      (·.upsertEdge sid dst fields')) := by
  have hrow : Sparing sid (.upsertNode sid {"Session"} fields) := fun _ => by decide
  have hedge : Sparing sid (.upsertEdge sid dst fields') := trivial
  exact IsTrans.trans _ _ _ (spares_call hrow w) (spares_call hedge _)

theorem handleStart_shape (h : w.fates = []) :
    ∃ w', Spares o.sessionId w w' ∧ Spares o.sessionId
      (applyTransition o.sessionId (classify (currentType (visibleLabels o.sessionId w)) .start
        (decide (parentOf o.data ≠ ""))) w').2 (handleStart o w).2 := by
  simp only [handleStart, Eff.bind_apply, readLabels_eq h, upsertNode, upsertEdge,
    Eff.modify_apply, applyTransition_eq]
  refine ⟨_, ?_, Respects.ite (respects_linkParent _ _ o) (Respects.pure ()) _⟩
  exact spares_sourced _ _ _ w

theorem respects_relinkParent (current : Option SessionType) (parentId : String)
    (o : Occurrence) : Respects (Spares sid) (relinkParent current parentId o) :=
  respects_of_only (Traced.run_relinkParent current parentId o) (attentive_frame.relinkParent _ _ o)
    (Traced.onStore_relinkParent current parentId o)
    (sparing_of_requested (Traced.only_relinkParent current parentId o))

theorem respects_mountPlan (o : Occurrence) : Respects (Spares sid) (performAll (mountPlan o)) :=
  respects_of_only (Traced.run_performAll _) (attentive_frame.onBuffer _)
    (Traced.onStore_performAll _) (sparing_of_requested (Traced.only_mountPlan o))

theorem handleFork_shape (env : Env) (h : w.fates = []) :
    ∃ w', Spares o.sessionId w w' ∧ Spares o.sessionId
      (applyTransition o.sessionId (classify (currentType (visibleLabels o.sessionId w)) .fork
        (decide (parentOf o.data ≠ ""))) w').2 (handleFork env o w).2 := by
  simp only [handleFork, Eff.bind_apply, readLabels_eq h, upsertNode, upsertEdge,
    Eff.modify_apply, applyTransition_eq]
  refine ⟨_, ?_, Respects.ite (Respects.bind (respects_relinkParent _ _ o) fun _ =>
    respects_mountPlan o) (respects_mountPlan o) _⟩
  exact spares_sourced _ _ _ w

/-! ### The end of a session -/

theorem unmarked_visibleLabels (h : Unmarked sid w) :
    "IncompleteSession" ∉ visibleLabels sid w := by
  cases hfrag : w.buffer.nodes.get sid with
  | some fragment =>
    rw [visibleLabels_of_some hfrag]
    exact h.1
  | none =>
    rw [visibleLabels_of_none hfrag]
    exact h.2

theorem handleEnd_of_typed (h : Tracked o.sessionId w)
    (htype : Typed (visibleLabels o.sessionId w)) :
    Tracked o.sessionId (handleEnd o w).2 ∧ Known o.sessionId (handleEnd o w).2 := by
  have hkeep : ∀ hasParent,
      classify (currentType (visibleLabels o.sessionId w)) .finish hasParent = ⟨[], []⟩ := by
    intro hasParent
    cases hcurr : currentType (visibleLabels o.sessionId w) with
    | none => exact absurd htype (currentType_eq_none.1 hcurr)
    | some type => rfl
  simp only [handleEnd, Eff.bind_apply, readLabels_eq h.reads, upsertNode, Eff.modify_apply,
    upsertEdge, hkeep, applyTransition_eq, and_self, if_true]
  have hlabs : ∀ fields fields' dst, ((((w.buffer.upsertNode o.sessionId
      ({"Session", "SST_EVENT"} ∪ visibleLabels o.sessionId w) fields).upsertEdge
      o.sessionId dst fields').fragment o.sessionId).labels
        = (w.buffer.fragment o.sessionId).labels
          ∪ ({"Session", "SST_EVENT"} ∪ visibleLabels o.sessionId w)) := by
    intro fields fields' dst
    show ((w.buffer.upsertNode _ _ _).fragment _).labels = _
    rw [fragment_upsertNode, if_pos rfl]
  refine ⟨⟨h.reads, ⟨?_, h.unmarked.2⟩, h.patches⟩, Or.inl ?_⟩
  · simp only [World.onBuffer, hlabs, Finset.mem_union, not_or]
    exact ⟨h.unmarked.1, by decide, unmarked_visibleLabels h.unmarked⟩
  · simp only [World.onBuffer, hlabs]
    exact htype.mono (Finset.subset_union_right.trans Finset.subset_union_right)

theorem handleEnd_of_bare (h : w.fates = []) (hbare : ¬ Typed (visibleLabels o.sessionId w)) :
    "IncompleteSession" ∈ ((handleEnd o w).2.buffer.fragment o.sessionId).labels := by
  simp only [handleEnd, Eff.bind_apply, readLabels_eq h, upsertNode, Eff.modify_apply, upsertEdge,
    currentType_eq_none.2 hbare, applyTransition_eq, classify]
  simp [World.onBuffer, fragment_setLabels]

/-! ### The steps around the session handler -/

variable {e : Event}

theorem spares_of_not_recorded (h : w.fates = []) (hrec : recorded env sid e = false) :
    Spares sid w (processEvent env sid e w).2 := by
  obtain ⟨w', hens, -, -⟩ := ensureSessionNode_ok h sid e.data e.workingDir
  have hspares : Spares sid w _ :=
    respects_ensureSessionNode sid e.data e.workingDir w
  rw [hens] at hspares
  cases hprep : prepare env sid e with
  | ok o => simp [recorded, hprep, Except.isOk, Except.toBool] at hrec
  | error fault =>
    simp only [processEvent, Eff.bind_apply, hens, orRaise, hprep, Eff.raise_apply]
    exact hspares

theorem dispatch_recorded (h : w.fates = []) (hrec : recorded env sid e = true) :
    ∃ o w', o.sessionId = sid ∧ o.name = e.name ∧ Spares sid w w'
      ∧ (sid ∈ w.cursors.seenSessions →
        w'.buffer.nodes.get sid = w.buffer.nodes.get sid)
      ∧ (sid ∉ w.cursors.seenSessions → (w'.buffer.nodes.get sid).isSome)
      ∧ Spares sid (sessionHandler env o w').2 (processEvent env sid e w).2 := by
  cases hprep : prepare env sid e with
  | error fault => simp [recorded, hprep, Except.isOk, Except.toBool] at hrec
  | ok o =>
    obtain ⟨hid, hname, -⟩ := prepare_fields hprep
    obtain ⟨w', hens, hseen, hnew⟩ :=
      ensureSessionNode_ok h sid e.data e.workingDir
    have hspares : Spares sid w _ :=
      respects_ensureSessionNode sid e.data e.workingDir w
    rw [hens] at hspares
    have hget := get_defaultHandler env o w'
    have hdef := respects_defaultHandler env o w'
    rw [hid] at hget hdef
    refine ⟨o, (performAll (defaultHandler env o) w').2, hid, hname,
      IsTrans.trans _ _ _ hspares hdef, fun hs => ?_, fun hs => ?_, ?_⟩
    · rw [hget, hseen hs]
    · rw [hget]
      exact hnew hs
    · have hrun : processEvent env sid e w
          = (runAll ((enrichers env).map fun enricher => enricher o) >>= fun _ =>
            touchSession env sid o.timestamp) (performAll (defaultHandler env o) w').2 := by
        simp only [processEvent, Eff.bind_apply, hens, orRaise, hprep, Eff.pure_apply]
        rfl
      rw [hrun]
      refine IsTrans.trans _ _ _ ?_ (Respects.after _ (fun _ => respects_touchSession _ _ _) _)
      exact Respects.after (sessionHandler env o) (fun _ => respects_tail env o) _

/-! ## Every run -/

/-- Until an end comes before any start or fork, nothing marks the session, and from its start or
fork on its type is known. -/
def Intact (sessionId : NodeId) (r : SessionRun) : Prop :=
  r.orphanEnd = false →
    Tracked sessionId r.world ∧ (r.started = true → Known sessionId r.world)

theorem intact_initial {db : Database} (h : "IncompleteSession" ∉ storedLabels db sid) :
    Intact sid (SessionRun.initial db) := by
  intro _
  refine ⟨⟨rfl, ⟨?_, h⟩, nofun⟩, nofun⟩
  exact Finset.notMem_empty _

theorem typed_fragment (h : Typed (w.buffer.fragment sid).labels) :
    visibleLabels sid w = (w.buffer.fragment sid).labels := by
  cases hfrag : w.buffer.nodes.get sid with
  | some fragment => exact visibleLabels_of_some hfrag
  | none =>
    -- a blank part has no labels
    rw [Buffer.fragment, hfrag] at h
    obtain ⟨label, -, hlab⟩ := h
    exact absurd hlab (Finset.notMem_empty _)

theorem typed_visibleLabels_iff (hknown : Known sid w) (hspares : Spares sid w w')
    (hseen : sid ∈ w.cursors.seenSessions →
      w'.buffer.nodes.get sid = w.buffer.nodes.get sid)
    (hnew : sid ∉ w.cursors.seenSessions → (w'.buffer.nodes.get sid).isSome) :
    Typed (visibleLabels sid w') ↔ Unshadowed sid w := by
  constructor
  · intro htype
    by_cases hbuffer : Typed (w.buffer.fragment sid).labels
    · exact .inl hbuffer
    -- the type was not in the buffer, so it was read from the database
    have hnone : w'.buffer.nodes.get sid = none := by
      cases hfrag : w'.buffer.nodes.get sid with
      | none => rfl
      | some fragment =>
        rw [visibleLabels_of_some hfrag, typed_of_spares hspares] at htype
        exact absurd htype hbuffer
    have hold : sid ∈ w.cursors.seenSessions := by
      by_contra hunsettled
      have hsome := hnew hunsettled
      rw [hnone] at hsome
      cases hsome
    exact .inr ⟨hold, (hseen hold).symm.trans hnone⟩
  · rintro (hbuffer | ⟨hold, hnone⟩)
    · have hbuffer' := (typed_of_spares hspares).2 hbuffer
      rw [typed_fragment hbuffer']
      exact hbuffer'
    · rw [visibleLabels_of_none ((hseen hold).trans hnone), hspares.db]
      rcases hknown with hbuffer | hstore
      · rw [← typed_fragment hbuffer, visibleLabels_of_none hnone] at hbuffer
        exact hbuffer
      · exact hstore

variable {r : SessionRun}

theorem intact_flush (h : Intact sid r) : Intact sid (sessionStep env sid r .flush) := by
  intro horphan
  obtain ⟨htrack, hknown⟩ := h horphan
  refine ⟨⟨htrack.reads, ⟨Finset.notMem_empty _, ?_⟩, nofun⟩, fun hstar => Or.inr ?_⟩
  · exact unmarked_flush env htrack.patches htrack.unmarked.1 htrack.unmarked.2
  · exact typed_flush env htrack.patches (hknown hstar)

theorem intact_respawn (h : Intact sid r) : Intact sid (sessionStep env sid r .respawn) := by
  simp only [sessionStep]
  split
  · intro horphan
    obtain ⟨htrack, hknown⟩ := h horphan
    exact ⟨⟨htrack.reads, htrack.unmarked, htrack.patches⟩, hknown⟩
  · exact h

theorem beginning_recorded (h : Tracked sid w)
    (hrec : recorded env sid e = true) (hbegins : isBeginning e = true) :
    Tracked sid (processEvent env sid e w).2
      ∧ Known sid (processEvent env sid e w).2 := by
  obtain ⟨o, w', rfl, hname, hspares, -, -, hafter⟩ := dispatch_recorded h.reads hrec
  have h' := h.of_spares hspares
  have hshape : ∃ event w'', event ≠ Lifecycle.finish ∧ Spares o.sessionId w' w''
      ∧ Spares o.sessionId (applyTransition o.sessionId (classify
          (currentType (visibleLabels o.sessionId w')) event (decide (parentOf o.data ≠ ""))) w'').2
        (sessionHandler env o w').2 := by
    simp only [isBeginning, ← hname, Bool.or_eq_true, decide_eq_true_eq] at hbegins
    rcases hbegins with hstart | hfork
    · obtain ⟨w'', hfirst, hrest⟩ := handleStart_shape (o := o) h'.reads
      refine ⟨.start, w'', by decide, hfirst, ?_⟩
      simpa [sessionHandler, hstart] using hrest
    · obtain ⟨w'', hfirst, hrest⟩ := handleFork_shape env (o := o) h'.reads
      refine ⟨.fork, w'', by decide, hfirst, ?_⟩
      simpa [sessionHandler, hfork] using hrest
  obtain ⟨event, w'', hevent, hfirst, hrest⟩ := hshape
  obtain ⟨htrack, hknown⟩ := beginning_transition h' hfirst hevent (decide (parentOf o.data ≠ ""))
  have hall := IsTrans.trans _ _ _ hrest hafter
  exact ⟨htrack.of_spares hall, hknown.of_spares hall⟩

theorem end_recorded (h : Tracked sid w) (hknown : Known sid w)
    (hrec : recorded env sid e = true) (hend : e.name = "session:end") (hclear : Unshadowed sid w) :
    Tracked sid (processEvent env sid e w).2
      ∧ Known sid (processEvent env sid e w).2 := by
  obtain ⟨o, w', rfl, hname, hspares, hseen, hnew, hafter⟩ := dispatch_recorded h.reads hrec
  have htype := (typed_visibleLabels_iff hknown hspares hseen hnew).2 hclear
  obtain ⟨htrack, hknown'⟩ := handleEnd_of_typed (h.of_spares hspares) htype
  have hhand : sessionHandler env o w' = handleEnd o w' := by
    simp [sessionHandler, hname.trans hend]
  rw [hhand] at hafter
  exact ⟨htrack.of_spares hafter, hknown'.of_spares hafter⟩

theorem end_shadowed (h : Tracked sid w) (hknown : Known sid w)
    (hrec : recorded env sid e = true) (hend : e.name = "session:end")
    (hshadowed : ¬ Unshadowed sid w) :
    "IncompleteSession" ∈ ((processEvent env sid e w).2.buffer.fragment sid).labels := by
  obtain ⟨o, w', rfl, hname, hspares, hseen, hnew, hafter⟩ := dispatch_recorded h.reads hrec
  have hbare : ¬ Typed (visibleLabels o.sessionId w') :=
    fun htype => hshadowed ((typed_visibleLabels_iff hknown hspares hseen hnew).1 htype)
  have hhand : sessionHandler env o w' = handleEnd o w' := by
    simp [sessionHandler, hname.trans hend]
  rw [hhand] at hafter
  exact (hafter.labels _ (by decide)).2 (handleEnd_of_bare (hspares.fates h.reads) hbare)

theorem spares_of_other (h : w.fates = [])
    (hrec : recorded env sid e = true) (hbegins : isBeginning e = false)
    (hend : e.name ≠ "session:end") : Spares sid w (processEvent env sid e w).2 := by
  obtain ⟨o, w', rfl, hname, hspares, -, -, hafter⟩ := dispatch_recorded h hrec
  simp only [isBeginning, ← hname, Bool.or_eq_false_iff, decide_eq_false_iff_not] at hbegins
  rw [← hname] at hend
  have hhand : sessionHandler env o w' = (.ok (), w') := by
    simp [sessionHandler, hbegins.1, hbegins.2, hend]
  rw [hhand] at hafter
  exact IsTrans.trans _ _ _ hspares hafter

theorem intact_dispatch (h : Intact sid r) (hclear : EndsUnshadowed env sid r (.dispatch e)) :
    Intact sid (sessionStep env sid r (.dispatch e)) := by
  intro horphan
  simp only [sessionStep, Bool.or_eq_false_iff] at horphan
  obtain ⟨hold, hnow⟩ := horphan
  obtain ⟨htrack, hknown⟩ := h hold
  simp only [sessionStep]
  cases hrec : recorded env sid e with
  | false =>
    have hspares := spares_of_not_recorded htrack.reads hrec
    refine ⟨htrack.of_spares hspares, fun hstar => ?_⟩
    rw [Bool.false_and, Bool.or_false] at hstar
    exact (hknown hstar).of_spares hspares
  | true =>
    cases hbegins : isBeginning e with
    | true =>
      obtain ⟨htrack', hknown'⟩ := beginning_recorded htrack hrec hbegins
      exact ⟨htrack', fun _ => hknown'⟩
    | false =>
      by_cases hend : e.name = "session:end"
      · have hstar : r.started = true := by simpa [hrec, hend] using hnow
        obtain ⟨htrack', hknown'⟩ := end_recorded htrack (hknown hstar) hrec hend
          (hclear hend hrec hold hstar)
        exact ⟨htrack', fun _ => hknown'⟩
      · have hspares := spares_of_other htrack.reads hrec hbegins hend
        refine ⟨htrack.of_spares hspares, fun hstar => ?_⟩
        rw [Bool.and_false, Bool.or_false] at hstar
        exact (hknown hstar).of_spares hspares

theorem intact_sessionStep (r : SessionRun) (action : SessionAction) (h : Intact sid r)
    (hclear : EndsUnshadowed env sid r action) : Intact sid (sessionStep env sid r action) := by
  cases action with
  | dispatch e => exact intact_dispatch h hclear
  | flush => exact intact_flush h
  | respawn => exact intact_respawn h

theorem endsUnshadowed_of_unmarked (r : SessionRun) (action : SessionAction) (h : Intact sid r)
    (hsafe : NoFalseIncomplete sid (sessionStep env sid r action)) :
    EndsUnshadowed env sid r action := by
  cases action with
  | flush => trivial
  | respawn => trivial
  | dispatch e =>
    intro hend hrec horphan hstar
    obtain ⟨htrack, hknown⟩ := h horphan
    by_contra hshadowed
    have hmark := end_shadowed htrack (hknown hstar) hrec hend hshadowed
    have hafter : (sessionStep env sid r (.dispatch e)).orphanEnd = false := by
      simp [sessionStep, horphan, hstar]
    exact (hsafe hafter).1 hmark

/-- For every sequence of events of a session, with flushes and respawns anywhere: a session whose
start or fork came before its end is never marked incomplete exactly when each such end finds a
typed buffered part, or none at all on a worker that has seen the session. -/
theorem noFalseIncomplete_iff (env : Env) (sessionId : NodeId) (db : Database)
    (h : "IncompleteSession" ∉ storedLabels db sessionId) (actions : List SessionAction) :
    Always (sessionStep env sessionId) (NoFalseIncomplete sessionId) (SessionRun.initial db) actions
      ↔ Along (sessionStep env sessionId) (EndsUnshadowed env sessionId) (SessionRun.initial db)
        actions :=
  always_iff_along intact_sessionStep (fun _ hintact horphan => (hintact horphan).1.unmarked)
    endsUnshadowed_of_unmarked (intact_initial h) actions

/-! ## Two batches -/

/-- The start in a batch of its own, then a prompt and the end in the next one. -/
def endAfterPrompt : List SessionAction :=
  [.dispatch (sampleEvent "session:start" "2026-01-01T00:00:00+00:00"), .flush,
    .dispatch (sampleEvent "prompt:complete" "2026-01-01T00:00:01+00:00"),
    .dispatch (sampleEvent "session:end" "2026-01-01T00:00:01+00:00"), .flush]

instance (sessionId : NodeId) (r : SessionRun) : Decidable (NoFalseIncomplete sessionId r) :=
  inferInstanceAs (Decidable (_ → _ ∧ _))

/-- The prompt moves `last_updated` forward, so the end reads a buffered part without the type that
the first batch stored, and the session is marked. -/
theorem endAfterPrompt_marked :
    ¬ NoFalseIncomplete "s"
      (run (sessionStep sampleEnv "s") (SessionRun.initial Database.empty) endAfterPrompt) := by
  decide +kernel

/-- With the whole session in one batch the end finds the buffered type. -/
theorem noFalseIncomplete_one_batch :
    Always (sessionStep sampleEnv "s") (NoFalseIncomplete "s") (SessionRun.initial Database.empty)
      [.dispatch (sampleEvent "session:start" "2026-01-01T00:00:00+00:00"),
        .dispatch (sampleEvent "session:end" "2026-01-01T00:00:01+00:00"), .flush, .respawn] := by
  refine (noFalseIncomplete_iff sampleEnv "s" Database.empty (by decide) _).2 ?_
  refine ⟨nofun, fun _ _ _ _ => Or.inl ?_, trivial, trivial, trivial⟩
  exact ⟨"RootSession", by decide, by decide +kernel⟩

end ContextIntelligence.Sessions
