import ContextIntelligence.Handlers.Dispatch

/-!
# Dispatch while the database answers

With no read error to come: `get_node` shows the buffered part of a node or else the stored one, a
session the worker has seen is not ensured again, and recording the event leaves the session node
alone.
-/

namespace ContextIntelligence.Handlers

open Lib Lib.Effects ContextIntelligence.Graph

variable {env : Env} {sid : NodeId}

/-! ## Reads -/

/-- What `get_node` returns. -/
def visibleNode (id : NodeId) (db : Database) (b : Buffer) : Option Node :=
  match b.nodes.get id with
  | some fragment => some fragment
  | none => db.nodes id

def shownLabels (id : NodeId) (db : Database) (b : Buffer) : Finset String :=
  ((visibleNode id db b).map Node.labels).getD ∅

theorem getNode_eq {w : World} (h : w.fates = []) (id : NodeId) :
    getNode id w = (.ok (visibleNode id w.db w.buffer), w) := by
  simp only [getNode, readDb, h, visibleNode]
  cases w.buffer.nodes.get id with
  | some fragment => rfl
  | none => rfl

theorem readLabels_eq {w : World} (h : w.fates = []) :
    readLabels sid w = (.ok (shownLabels sid w.db w.buffer), w) := by
  simp only [readLabels, Eff.bind_apply, getNode_eq h, shownLabels, Eff.pure_apply]

/-! ## Label changes -/

theorem applyTransition_eq (t : LabelTransition) (w : World) :
    applyTransition sid t w = (.ok (), if t.add = [] ∧ t.remove = [] then w
      else w.onBuffer (Buffer.setLabels sid t.remove t.add)) := by
  unfold applyTransition
  split <;> rfl

theorem fragment_setLabels (b : Buffer) (remove add : List String) :
    ((b.setLabels sid remove add).fragment sid).labels
      = ((b.fragment sid).labels \ remove.toFinset) ∪ add.toFinset := by
  simp [Buffer.setLabels, Buffer.fragment]

/-! ## The steps of an event -/

theorem prepare_fields {e : Event} {o : Occurrence} (h : prepare env sid e = .ok o) :
    o.sessionId = sid ∧ o.name = e.name ∧ o.timestamp = (e.data.str "timestamp").getD "" := by
  simp only [prepare, bind, Except.bind] at h
  split at h
  · cases h
  · split at h
    · cases h
    · cases h
      exact ⟨rfl, rfl, rfl⟩

/-- Without read errors the session node is ensured: a seen session is left alone, and any other has
a buffered part afterwards. -/
theorem ensureSessionNode_ok {w : World} (h : w.fates = []) (sid : NodeId) (data : Payload)
    (workingDir : Option String) :
    ∃ w', ensureSessionNode sid data workingDir w = (.ok (), w')
      ∧ (sid ∈ w.cursors.seenSessions → w' = w)
      ∧ (sid ∉ w.cursors.seenSessions → (w'.buffer.nodes.get sid).isSome) := by
  by_cases hseen : sid ∈ w.cursors.seenSessions
  · refine ⟨w, ?_, fun _ => rfl, fun hnew => absurd hseen hnew⟩
    simp [ensureSessionNode, Eff.bind_apply, hseen]
  · let row := sessionStub sid data workingDir (visibleNode sid w.db w.buffer)
    refine ⟨(w.onBuffer (Buffer.upsertNode sid row.1 row.2)).markSeen sid, ?_,
      fun hold => absurd hold hseen, fun _ => ?_⟩
    · simp only [ensureSessionNode, Eff.bind_apply, Eff.get_apply, hseen, if_false,
        getNode_eq h, upsertNode, Eff.modify_apply, row]
    · simp [World.markSeen, World.onCursors, World.onBuffer, Buffer.upsertNode]

theorem runAll_append (hooks hooks' : List (Hook Unit)) :
    runAll (hooks ++ hooks') = runAll hooks >>= fun _ => runAll hooks' := by
  induction hooks with
  | nil => rfl
  | cons hook rest ih =>
    funext w
    change (hook >>= fun _ => runAll (rest ++ hooks')) w
      = ((hook >>= fun _ => runAll rest) >>= fun _ => runAll hooks') w
    rw [ih]
    rcases hrun : hook w with ⟨fault | _, w'⟩
    · rw [Eff.bind_of_error hrun, Eff.bind_of_error (Eff.bind_of_error hrun)]
    · rw [Eff.bind_of_ok hrun, Eff.bind_apply (hook >>= fun _ => runAll rest), Eff.bind_of_ok hrun]
      rfl

section Stages

variable {e : Event} {w w₁ : World}

/-- An event whose payload cannot be prepared raises before anything of it is recorded. -/
theorem processEvent_of_unprepared {fault : Fault}
    (hens : ensureSessionNode sid e.data e.workingDir w = (.ok (), w₁))
    (hprep : prepare env sid e = .error fault) : processEvent env sid e w = (.error fault, w₁) := by
  rw [processEvent, Eff.bind_of_ok hens, hprep]
  rfl

/-- Any other is recorded, given to the enrichers, and then its time is. -/
theorem processEvent_of_prepared {o : Occurrence}
    (hens : ensureSessionNode sid e.data e.workingDir w = (.ok (), w₁))
    (hprep : prepare env sid e = .ok o) :
    processEvent env sid e w = (runAll ((enrichers env).map fun enricher => enricher o) >>= fun _ =>
      touchSession env sid o.timestamp) (performAll (defaultHandler env o) w₁).2 := by
  rw [processEvent, Eff.bind_of_ok hens, hprep]
  rfl

/-- The stages of an event that is processed without an exception. -/
theorem processEvent_ok {w' : World} (h : processEvent env sid e w = (.ok (), w')) :
    ∃ o w₁ w₂, prepare env sid e = .ok o
      ∧ ensureSessionNode sid e.data e.workingDir w = (.ok (), w₁)
      ∧ runAll ((enrichers env).map fun enricher => enricher o)
          (performAll (defaultHandler env o) w₁).2 = (.ok (), w₂)
      ∧ w' = (touchSession env sid o.timestamp w₂).2 := by
  rcases hens : ensureSessionNode sid e.data e.workingDir w with ⟨fault | _, w₁⟩
  · rw [processEvent, Eff.bind_of_error hens] at h
    cases h
  cases hprep : prepare env sid e with
  | error fault =>
    rw [processEvent_of_unprepared hens hprep] at h
    cases h
  | ok o =>
    rw [processEvent_of_prepared hens hprep] at h
    rcases hall : runAll ((enrichers env).map fun enricher => enricher o)
      (performAll (defaultHandler env o) w₁).2 with ⟨fault | _, w₂⟩
    · rw [Eff.bind_of_error hall] at h
      cases h
    · rw [Eff.bind_of_ok hall] at h
      exact ⟨o, w₁, w₂, rfl, rfl, hall, (congrArg Prod.snd h).symm⟩

end Stages

theorem makeNodeId_ne (name : String) (epoch : ℤ) (disambiguator identity : Option String) :
    makeNodeId sid name epoch disambiguator identity ≠ sid := by
  intro h
  have hlen := congrArg String.length h
  simp only [makeNodeId, String.length_append] at hlen
  have htext : (toString sid).length = sid.length := rfl
  have hmark : (toString "__").length = 2 := rfl
  omega

theorem get_defaultHandler (env : Env) (o : Occurrence) (w : World) :
    (performAll (defaultHandler env o) w).2.buffer.nodes.get o.sessionId
      = w.buffer.nodes.get o.sessionId := by
  simp only [performAll, Eff.modify_apply, World.onBuffer, defaultHandler, List.foldl_cons,
    List.foldl_nil, Buffer.perform, Buffer.upsertEdge, Buffer.upsertNode]
  exact Dict.get_set_of_ne _ (makeNodeId_ne _ _ _ _) _

end ContextIntelligence.Handlers
