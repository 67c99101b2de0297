import ContextIntelligence.Handlers.Reads
import ContextIntelligence.Handlers.Requests

/-!
# What the handlers leave alone

Only `SessionHandler` decides the type of a session. Every other handler leaves the database and the
label patches alone and adds no type label to the session node (`Spares`), since its calls are
`Sparing` and the buffer moves by its calls alone.
-/

namespace ContextIntelligence.Handlers

open Lib Lib.Effects Lib.Recording ContextIntelligence.Graph

/-- The database stays, no read error comes up, and no session is forgotten. -/
structure Attentive (w w' : World) : Prop extends Calm w w' where
  seen : w.cursors.seenSessions ⊆ w'.cursors.seenSessions

instance : Std.Refl Attentive where
  refl w := ⟨Std.Refl.refl w, fun _ h => h⟩

instance : IsTrans World Attentive where
  trans _ _ _ h h' := ⟨IsTrans.trans _ _ _ h.toCalm h'.toCalm, h.seen.trans h'.seen⟩

theorem attentive_frame : CursorFrame Attentive where
  buffer f w := ⟨calm_frame.buffer f w, fun _ h => h⟩
  fates fate rest w h := ⟨calm_frame.fates fate rest w h, fun _ h => h⟩
  seen id w := ⟨calm_frame.seen id w, Finset.subset_insert _ _⟩

/-- The patches stay, and the buffered part of the session node gains and loses no type label. -/
structure KeepsType (sessionId : NodeId) (b b' : Buffer) : Prop where
  patches : b'.patches = b.patches
  present : (b.nodes.get sessionId).isSome → (b'.nodes.get sessionId).isSome
  labels : ∀ label ∈ typeLabels,
    label ∈ (b'.fragment sessionId).labels ↔ label ∈ (b.fragment sessionId).labels

variable {sessionId : NodeId}

instance : Std.Refl (KeepsType sessionId) where
  refl _ := ⟨rfl, id, fun _ _ => Iff.rfl⟩

instance : IsTrans Buffer (KeepsType sessionId) where
  trans _ _ _ h h' := ⟨h'.patches.trans h.patches, h'.present ∘ h.present,
    fun label hlabel => (h'.labels label hlabel).trans (h.labels label hlabel)⟩

/-- From `w` to `w'` nothing happens to the type of the session. -/
structure Spares (sessionId : NodeId) (w w' : World) : Prop
    extends Attentive w w', KeepsType sessionId w.buffer w'.buffer

instance : Std.Refl (Spares sessionId) where
  refl _ := ⟨Std.Refl.refl _, Std.Refl.refl _⟩

instance : IsTrans World (Spares sessionId) where
  trans _ _ _ h h' := ⟨IsTrans.trans _ _ _ h.toAttentive h'.toAttentive,
    IsTrans.trans _ _ _ h.toKeepsType h'.toKeepsType⟩

@[simp] theorem fragment_upsertNode (b : Buffer) (id : NodeId) (labels : Finset String)
    (fields : List (String × Value)) (id' : NodeId) :
    (b.upsertNode id labels fields).fragment id'
      = if id = id' then ⟨(b.fragment id).labels ∪ labels, (b.fragment id).props.assign fields⟩
        else b.fragment id' := by
  by_cases h : id = id'
  · simp [Buffer.fragment, Buffer.upsertNode, h]
  · simp [Buffer.fragment, Buffer.upsertNode, h, Dict.get_set_of_ne _ h]

@[simp] theorem props_setLabels (b : Buffer) (id : NodeId) (remove add : List String)
    (id' : NodeId) : ((b.setLabels id remove add).fragment id').props = (b.fragment id').props := by
  by_cases h : id = id'
  · simp [Buffer.fragment, Buffer.setLabels, h]
  · simp [Buffer.fragment, Buffer.setLabels, Dict.get_set_of_ne _ h]

/-- No call drops a buffered part. -/
theorem isSome_call (call : Call) {b : Buffer} (h : (b.nodes.get sessionId).isSome) :
    ((b.call call).nodes.get sessionId).isSome := by
  cases call with
  | upsertEdge | removeEdge => exact h
  | upsertNode | setLabels =>
    simp only [Buffer.call, Buffer.upsertNode, Buffer.setLabels, Dict.get_set]
    split
    · rfl
    · exact h

theorem keepsType_call (call : Call) (h : Sparing sessionId call) (b : Buffer) :
    KeepsType sessionId b (b.call call) := by
  cases call with
  | upsertNode id labels fields =>
    refine ⟨rfl, isSome_call _, fun label hlabel => ?_⟩
    rw [Buffer.call, fragment_upsertNode]
    split
    next hid =>
      have hfree : label ∉ labels := fun hmem => Finset.disjoint_left.1 (h hid) hmem hlabel
      simp [hid, hfree]
    next => exact Iff.rfl
  | setLabels id remove add => exact h.elim
  | upsertEdge src dst fields => exact ⟨rfl, id, fun _ _ => Iff.rfl⟩
  | removeEdge src dst => exact ⟨rfl, id, fun _ _ => Iff.rfl⟩

theorem spares_call {call : Call} (h : Sparing sessionId call) (w : World) :
    Spares sessionId w (w.onBuffer (·.call call)) :=
  ⟨attentive_frame.buffer _ w, keepsType_call call h w.buffer⟩

/-- A computation with sparing calls only spares the session. -/
theorem respects_of_only {α : Type} {m : Trace α} {hook : Hook α} (hrun : m.run = hook)
    (hattentive : Respects Attentive hook) (hacts : Traced.OnStore m)
      (honly : Only (Sparing sessionId) m) : Respects (Spares sessionId) hook := by
  subst hrun
  exact fun w => ⟨hattentive w, hacts.related honly keepsType_call w⟩

theorem sparing_of_requested {α : Type} {m : Trace α} (h : Only (Requested fun _ => True) m) :
    Only (Sparing sessionId) m :=
  h.mono fun _ hcall => hcall.sparing sessionId

/-! ## The services -/

theorem respects_ensureSessionNode (id : NodeId) (data : Payload) (workingDir : Option String) :
    Respects (Spares sessionId) (ensureSessionNode id data workingDir) :=
  respects_of_only (Traced.run_ensureSessionNode id data workingDir)
    (attentive_frame.ensureSessionNode id data workingDir)
    (Traced.onStore_ensureSessionNode id data workingDir)
    (sparing_of_requested (Traced.only_ensureSessionNode id data workingDir))

theorem respects_touchSession (env : Env) (id : NodeId) (timestamp : String) :
    Respects (Spares sessionId) (touchSession env id timestamp) :=
  respects_of_only (Traced.run_touchSession env id timestamp)
    (attentive_frame.touchSession env id timestamp) (Traced.onStore_touchSession env id timestamp)
    (Traced.only_touchSession fun _ => by decide)

/-! ## The pipeline around the session handler -/

theorem respects_defaultHandler (env : Env) (o : Occurrence) :
    Respects (Spares o.sessionId) (performAll (defaultHandler env o)) := by
  refine respects_of_only (Traced.run_performAll _) (attentive_frame.onBuffer _)
    (Traced.onStore_performAll _) (Traced.only_performAll ?_)
  simp only [defaultHandler, List.forall_mem_cons, List.not_mem_nil, false_imp_iff, implies_true,
    and_true]
  exact ⟨fun h => absurd h (makeNodeId_ne _ _ _ _), trivial⟩

theorem respects_tail (env : Env) (o : Occurrence) : Respects (Spares sessionId)
    (runAll ((enrichers env).tail.map fun enricher => enricher o)) := by
  have hrun : (Traced.runAll ((Traced.enrichers env).tail.map fun enricher => enricher o)).run
      = runAll ((enrichers env).tail.map fun enricher => enricher o) := by
    rw [Traced.run_runAll, List.map_tail, List.map_tail, Traced.run_enrichers, List.map_tail]
  refine respects_of_only hrun ?_ (Traced.onStore_runAll ?_) (Traced.only_runAll ?_)
  · refine CursorFrame.runAll (List.forall_mem_map.2 fun enricher henricher => ?_)
    exact attentive_frame.hooks env o
      (fun w c hmodest => ⟨⟨rfl, id⟩, hmodest.seen.symm.subset⟩) enricher
        (List.mem_of_mem_tail henricher)
  · rw [List.map_tail]
    exact fun hook hmem => Traced.onStore_enrichers env o hook (List.mem_of_mem_tail hmem)
  · exact fun hook hmem =>
      (Traced.only_tail env o hook hmem).mono fun _ h => h.sparing sessionId

end ContextIntelligence.Handlers
