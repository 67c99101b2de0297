import ContextIntelligence.Handlers.Dispatch

/-!
# Frames over the cursors

A relation between workers that lets a read use up its fate is respected by every read
(`ConsumesFates`). One that sees nothing but the cursors besides is respected by every write and
every handler made of them (`CursorFrame`), given what the enrichers do to the cursors (`Steady`).
-/

namespace ContextIntelligence.Handlers

open Lib.Effects ContextIntelligence.Graph

/-! ## Reads -/

/-- The relation lets a read use up its fate. -/
def ConsumesFates (R : World → World → Prop) : Prop :=
  ∀ (fate : ReadFate) (rest : List ReadFate) (w : World),
    w.fates = fate :: rest → R w { w with fates := rest }

namespace ConsumesFates

variable {R : World → World → Prop} [Std.Refl R] (h : ConsumesFates R)
include h

theorem readDb {α : Type} (query : Database → Option α) : Respects R (Graph.readDb query) := by
  intro w
  unfold Graph.readDb
  split
  · exact Std.Refl.refl w
  all_goals exact h _ _ w ‹_›

theorem getNode (id : NodeId) : Respects R (Graph.getNode id) := by
  intro w
  unfold Graph.getNode
  split
  · exact Std.Refl.refl w
  · exact h.readDb _ w

theorem findDelegation (env : Env) (id : Scalar) : Respects R (Handlers.findDelegation env id) := by
  intro w
  unfold Handlers.findDelegation
  dsimp only
  split
  · exact Std.Refl.refl w
  · exact h.readDb _ w

theorem getSession (id : Scalar) : Respects R (Handlers.getSession id) := by
  unfold Handlers.getSession
  split
  · exact h.getNode _
  · exact h.readDb _

variable [IsTrans World R]

theorem readLabels (id : NodeId) : Respects R (Handlers.readLabels id) :=
  Respects.bind (h.getNode id) fun _ => Respects.pure _

theorem resolveSelfAgent (env : Env) (depth : ℕ) (visited : Finset Scalar) (session : Value) :
    Respects R (Handlers.resolveSelfAgent env depth visited session) := by
  induction depth generalizing visited session with
  | zero => exact Respects.pure _
  | succ depth ih =>
    unfold Handlers.resolveSelfAgent
    split
    · exact Respects.raise _
    · refine Respects.ite (Respects.pure _) (Respects.bind (h.findDelegation env _) ?_)
      intro found
      split
      · exact Respects.bind (h.getSession _) fun _ => Respects.pure _
      · refine Respects.ite ?_ (Respects.pure _)
        split
        · exact ih _ _
        · exact Respects.pure _

theorem resolveAgent (env : Env) (agent : String) (id : NodeId) :
    Respects R (Handlers.resolveAgent env agent id) :=
  Respects.ite (Respects.bind (h.resolveSelfAgent env _ _ _) fun _ => Respects.pure _)
    (Respects.pure _)

end ConsumesFates

/-! ## Cursors -/

/-- The relation looks at the cursors, the database and the fates of reads only, and lets a session
be marked as seen. -/
structure CursorFrame (R : World → World → Prop) : Prop where
  buffer : ∀ (f : Buffer → Buffer) w, R w (w.onBuffer f)
  fates : ConsumesFates R
  seen : ∀ id w, R w (w.markSeen id)

/-- The cursors an enricher leaves are related to those it found. -/
def Steady (R : World → World → Prop) (enricher : Enricher) (o : Occurrence) : Prop :=
  ∀ (w : World) c writes, enricher o w.cursors = .ok (c, writes) → R w (w.onCursors fun _ => c)

/-! ## What the enrichers keep -/

/-- The sessions seen stay, and so do the numbering of the iterations and the recipe cursors, unless
the enricher is one that `counts` or one that `nests`. -/
structure Modest (counts nests : Prop) (c c' : Cursors) : Prop where
  seen : c'.seenSessions = c.seenSessions
  count : ¬ counts → c'.layer2.iterationCount = c.layer2.iterationCount
  active : ¬ counts → c'.layer2.activeIterationId = c.layer2.activeIterationId
  recipes : ¬ nests → c'.layer3 = c.layer3

theorem Modest.mono {counts nests counts' nests' : Prop} {c c' : Cursors}
    (h : Modest counts nests c c') (hcounts : counts → counts') (hnests : nests → nests') :
    Modest counts' nests' c c' :=
  ⟨h.seen, fun hnot => h.count (hnot ∘ hcounts), fun hnot => h.active (hnot ∘ hcounts),
    fun hnot => h.recipes (hnot ∘ hnests)⟩

def KeepsCursors (counts nests : Prop) (enricher : Enricher) (o : Occurrence) : Prop :=
  ∀ c c' writes, enricher o c = .ok (c', writes) → Modest counts nests c c'

def quietEnrichers (env : Env) : List Enricher :=
  [orchestratorRunHandler, contentBlockHandler env, toolCallHandler, promptHandler,
    cancellationHandler, contextCompactionHandler, skillLoadHandler]

/-- The handlers other than those of iterations and recipes. -/
def quietHooks (env : Env) : List (Occurrence → Hook Unit) :=
  [sessionHandler env, enrich orchestratorRunHandler, enrich (contentBlockHandler env),
    enrich toolCallHandler, enrich promptHandler, enrich cancellationHandler,
    enrich contextCompactionHandler, delegationHandler env, enrich skillLoadHandler]

theorem keeps_quietEnrichers (env : Env) (o : Occurrence) :
    ∀ enricher ∈ quietEnrichers env, KeepsCursors False False enricher o := by
  simp only [quietEnrichers, List.forall_mem_cons, List.not_mem_nil, false_imp_iff, implies_true,
    and_true]
  refine ⟨?_, ?_, ?_, ?_, ?_, ?_, ?_⟩
  all_goals
    intro c c' writes h
    simp only [orchestratorRunHandler, contentBlockHandler, toolCallHandler, promptHandler,
      cancellationHandler, contextCompactionHandler, skillLoadHandler] at h
    repeat' split at h
    all_goals
      first
        | cases h
        | obtain ⟨_, h⟩ := of_fieldsOf_bind h
          cases h
      constructor <;> intros <;> first | rfl | (split <;> first | rfl | (split <;> rfl))

section Keeps

variable (env : Env) (o : Occurrence)

theorem keeps_iterationHandler :
    KeepsCursors (o.name = "provider:request") False iterationHandler o := by
  intro c c' writes h
  unfold iterationHandler at h
  split at h
  · cases h
    exact ⟨rfl, fun hnot => absurd ‹_› hnot, fun hnot => absurd ‹_› hnot, fun _ => rfl⟩
  · cases h
    exact ⟨rfl, fun _ => rfl, fun _ => rfl, fun _ => rfl⟩
  · obtain ⟨usage, h⟩ := of_fieldsOf_bind h
    cases h
    exact ⟨rfl, fun _ => rfl, fun _ => rfl, fun _ => rfl⟩
  · cases h
    exact ⟨rfl, fun _ => rfl, fun _ => rfl, fun _ => rfl⟩

theorem keeps_spawnedEdges (parentSessionId toolCallId resolved : String) :
    KeepsCursors False False (spawnedEdges parentSessionId toolCallId resolved) o := by
  intro c c' writes h
  cases h
  cases o.data.str "parallel_group_id" <;>
    exact ⟨rfl, fun _ => rfl, fun _ => rfl, fun _ => rfl⟩

theorem keeps_handleLifecycle (parentSessionId toolCallId : String) :
    KeepsCursors False False (handleLifecycle parentSessionId toolCallId) o := by
  intro c c' writes h
  cases h
  exact ⟨rfl, fun _ => rfl, fun _ => rfl, fun _ => rfl⟩

theorem keeps_pushRecipeRun (sourceEvent : String) (disambiguator : Option String) :
    KeepsCursors False True (pushRecipeRun sourceEvent disambiguator) o := by
  intro c c' writes h
  cases h
  exact ⟨rfl, fun _ => rfl, fun _ => rfl, fun hnot => absurd trivial hnot⟩

theorem keeps_recipeRunEnricher : KeepsCursors False True recipeRunEnricher o := by
  intro c c' writes h
  unfold recipeRunEnricher at h
  split at h <;> cases h <;>
    exact ⟨rfl, fun _ => rfl, fun _ => rfl, fun hnot => absurd trivial hnot⟩

theorem keeps_recipeStepHandler : KeepsCursors False True (recipeStepHandler env) o := by
  intro c c' writes h
  simp only [recipeStepHandler, newStep] at h
  repeat' split at h
  all_goals
    cases h
    exact ⟨rfl, fun _ => rfl, fun _ => rfl, fun hnot => absurd trivial hnot⟩

end Keeps

namespace CursorFrame

variable {R : World → World → Prop} [Std.Refl R] [IsTrans World R] (h : CursorFrame R)
include h

/-! ## Primitives and services -/

omit [Std.Refl R] [IsTrans World R] in
theorem onBuffer (f : Buffer → Buffer) : Respects R (Eff.modify (World.onBuffer f) : Hook Unit) :=
  Respects.modify (h.buffer f)

theorem ensureSessionNode (id : NodeId) (data : Payload) (workingDir : Option String) :
    Respects R (Graph.ensureSessionNode id data workingDir) := by
  refine Respects.bind Respects.get fun w => Respects.ite (Respects.pure ()) ?_
  refine Respects.bind (h.fates.getNode id) fun existing => ?_
  exact Respects.bind (h.onBuffer _) fun _ => Respects.modify (h.seen id)

theorem touchSession (env : Env) (id : NodeId) (timestamp : String) :
    Respects R (Graph.touchSession env id timestamp) := by
  refine Respects.quietly (Respects.bind (h.fates.getNode id) fun existing => ?_)
  cases existing with
  | none => exact Respects.pure ()
  | some node => exact Respects.ite (h.onBuffer _) (Respects.pure ())

/-! ## The session handler -/

omit [IsTrans World R] in
theorem applyTransition (id : NodeId) (t : LabelTransition) :
    Respects R (Handlers.applyTransition id t) :=
  Respects.ite (Respects.pure _) (h.onBuffer _)

theorem linkParent (type parentId : String) (o : Occurrence) :
    Respects R (Handlers.linkParent type parentId o) :=
  Respects.bind (h.ensureSessionNode _ _ _) fun _ => h.onBuffer _

theorem relinkParent (current : Option SessionType) (parentId : String) (o : Occurrence) :
    Respects R (Handlers.relinkParent current parentId o) := by
  unfold Handlers.relinkParent
  split
  · exact Respects.bind (h.onBuffer _) fun _ => h.linkParent _ _ o
  · exact h.linkParent _ _ o

theorem sessionHandler (env : Env) (o : Occurrence) :
    Respects R (Handlers.sessionHandler env o) := by
  refine Respects.ite ?_ (Respects.ite ?_ (Respects.ite ?_ (Respects.pure _)))
  · refine Respects.bind (h.fates.readLabels _) fun labels =>
      Respects.bind (h.onBuffer _) fun _ => ?_
    refine Respects.bind (h.onBuffer _) fun _ => Respects.bind (h.applyTransition _ _) fun _ => ?_
    exact Respects.ite (h.linkParent _ _ o) (Respects.pure _)
  · refine Respects.bind (h.fates.readLabels _) fun labels =>
      Respects.bind (h.onBuffer _) fun _ => ?_
    refine Respects.bind (h.onBuffer _) fun _ => Respects.bind (h.applyTransition _ _) fun _ => ?_
    exact Respects.ite (Respects.bind (h.relinkParent _ _ o) fun _ => h.onBuffer _) (h.onBuffer _)
  · refine Respects.bind (h.fates.readLabels _) fun labels =>
      Respects.bind (h.onBuffer _) fun _ => ?_
    exact Respects.bind (h.onBuffer _) fun _ => h.applyTransition _ _

/-! ## Enrichers -/

theorem enrich {enricher : Enricher} {o : Occurrence} (hsteady : Steady R enricher o) :
    Respects R (Handlers.enrich enricher o) := by
  intro w
  simp only [Handlers.enrich, Eff.bind_apply, Eff.get_apply]
  cases hrun : enricher o w.cursors with
  | error fault => exact Std.Refl.refl w
  | ok result => exact IsTrans.trans _ _ _ (hsteady w _ _ hrun) (h.onBuffer _ _)

theorem delegationHandler (env : Env) (o : Occurrence)
    (hspawned : ∀ parentSessionId toolCallId resolved,
      Steady R (spawnedEdges parentSessionId toolCallId resolved) o)
    (hlifecycle : ∀ parentSessionId toolCallId,
      Steady R (handleLifecycle parentSessionId toolCallId) o) :
    Respects R (Handlers.delegationHandler env o) := by
  unfold Handlers.delegationHandler
  refine Respects.ite ?_ (Respects.pure _)
  split
  · refine Respects.ite ?_ (h.enrich (hlifecycle _ _))
    refine Respects.bind (h.fates.resolveAgent env _ _) fun resolved => ?_
    refine Respects.bind (h.onBuffer _) fun _ =>
      Respects.bind (h.ensureSessionNode _ _ _) fun _ => ?_
    exact h.enrich (hspawned _ _ _)
  · exact Respects.pure _

theorem linkParentRun (o : Occurrence) : Respects R (Handlers.linkParentRun o) := by
  unfold Handlers.linkParentRun
  split
  · exact Respects.pure _
  · exact Respects.bind (h.ensureSessionNode _ _ _) fun _ => h.onBuffer _

theorem recipeRunHandler (env : Env) (o : Occurrence)
    (hpush : ∀ sourceEvent disambiguator, Steady R (pushRecipeRun sourceEvent disambiguator) o)
    (hrun : Steady R recipeRunEnricher o) : Respects R (Handlers.recipeRunHandler env o) := by
  have hstart : ∀ sourceEvent disambiguator,
      Respects R (handleRecipeStart sourceEvent disambiguator o) := by
    intro sourceEvent disambiguator
    exact Respects.bind (h.onBuffer _) fun _ =>
      Respects.bind (h.linkParentRun o) fun _ => h.enrich (hpush _ _)
  refine Respects.bind Respects.get fun w => ?_
  exact Respects.ite (hstart _ _) (Respects.ite (hstart _ _) (h.enrich hrun))

omit h in
theorem runAll {hooks : List (Hook Unit)} (hhooks : ∀ hook ∈ hooks, Respects R hook) :
    Respects R (Handlers.runAll hooks) := by
  induction hooks with
  | nil => exact Respects.pure _
  | cons hook rest ih =>
    exact Respects.bind (hhooks hook (List.mem_cons_self ..)) fun _ =>
      ih fun hook' hmem => hhooks hook' (List.mem_cons_of_mem _ hmem)

/-- The handlers that neither number iterations nor move in recipes. -/
theorem quietHooks (env : Env) (o : Occurrence)
    (hcursors : ∀ w c, Modest False False w.cursors c → R w (w.onCursors fun _ => c)) :
    ∀ hook ∈ Handlers.quietHooks env, Respects R (hook o) := by
  have hsteady : ∀ {enricher : Enricher}, KeepsCursors False False enricher o →
    Steady R enricher o := fun hkeeps w c writes hrun => hcursors w c (hkeeps _ _ _ hrun)
  have hquiet := keeps_quietEnrichers env o
  simp only [quietEnrichers, List.forall_mem_cons] at hquiet
  obtain ⟨horch, hblock, hcall, hprompt, hcancel, hcompact, hskill, -⟩ := hquiet
  simp only [Handlers.quietHooks, List.forall_mem_cons, List.not_mem_nil, false_imp_iff,
    implies_true, and_true]
  exact ⟨h.sessionHandler env o, h.enrich (hsteady horch), h.enrich (hsteady hblock),
    h.enrich (hsteady hcall), h.enrich (hsteady hprompt), h.enrich (hsteady hcancel),
    h.enrich (hsteady hcompact), h.delegationHandler env o
      (fun _ _ _ => hsteady (keeps_spawnedEdges o _ _ _)) fun _ _ =>
        hsteady (keeps_handleLifecycle o _ _), h.enrich (hsteady hskill)⟩

/-- All handlers, for a relation that looks at what they keep. -/
theorem hooks (env : Env) (o : Occurrence) (hcursors : ∀ w c,
      Modest (o.name = "provider:request") True w.cursors c → R w (w.onCursors fun _ => c)) :
    ∀ enricher ∈ Handlers.enrichers env, Respects R (enricher o) := by
  have hquiet := h.quietHooks env o fun w c hmodest =>
    hcursors w c (hmodest.mono False.elim False.elim)
  simp only [Handlers.quietHooks, List.forall_mem_cons] at hquiet
  obtain ⟨hsession, horch, hblock, hcall, hprompt, hcancel, hcompact, hdelegate, hskill, -⟩ :=
    hquiet
  have hrecipes : ∀ {enricher : Enricher}, KeepsCursors False True enricher o →
    Steady R enricher o := fun hkeeps w c writes hrun =>
      hcursors w c ((hkeeps _ _ _ hrun).mono False.elim id)
  simp only [Handlers.enrichers, List.forall_mem_cons, List.not_mem_nil, false_imp_iff,
    implies_true, and_true]
  refine ⟨hsession, horch, h.enrich fun w c writes hrun => ?_, hblock, hcall, hprompt, hcancel,
    hcompact, hdelegate, hskill, ?_, h.enrich (hrecipes (keeps_recipeStepHandler env o))⟩
  · exact hcursors w c ((keeps_iterationHandler o _ _ _ hrun).mono id False.elim)
  · exact h.recipeRunHandler env o (fun _ _ => hrecipes (keeps_pushRecipeRun o _ _))
      (hrecipes (keeps_recipeRunEnricher o))

theorem enrichers (hcursors : ∀ c w, R w (w.onCursors fun _ => c)) (env : Env) (o : Occurrence) :
    Respects R (Handlers.runAll ((Handlers.enrichers env).map fun enricher => enricher o)) :=
  runAll (List.forall_mem_map.2 (h.hooks env o fun w c _ => hcursors c w))

theorem processEvent (hcursors : ∀ c w, R w (w.onCursors fun _ => c)) (env : Env)
    (sid : NodeId) (e : Event) : Respects R (Handlers.processEvent env sid e) := by
  refine Respects.bind (h.ensureSessionNode _ _ _) fun _ => Respects.bind ?_ fun o => ?_
  · unfold orRaise
    split
    · exact Respects.pure _
    · exact Respects.raise _
  · refine Respects.bind (h.onBuffer _) fun _ => ?_
    exact Respects.bind (h.enrichers hcursors env o) fun _ => h.touchSession env _ _

end CursorFrame

/-- The database stays, and no read error comes up. -/
structure Calm (w w' : World) : Prop where
  db : w'.db = w.db
  fates : w.fates = [] → w'.fates = []

instance : Std.Refl Calm where
  refl _ := ⟨rfl, id⟩

instance : IsTrans World Calm where
  trans _ _ _ h h' := ⟨h'.db.trans h.db, h'.fates ∘ h.fates⟩

theorem calm_frame : CursorFrame Calm where
  buffer _ _ := ⟨rfl, id⟩
  fates _ _ _ hfates := ⟨rfl, fun hnone => by cases hfates.symm.trans hnone⟩
  seen _ _ := ⟨rfl, id⟩

/-- An event reads the database only. -/
theorem db_processEvent (env : Env) (sid : NodeId) (e : Event) (w : World) :
    (processEvent env sid e w).2.db = w.db :=
  (calm_frame.processEvent (fun _ _ => ⟨rfl, id⟩) env sid e w).db

end ContextIntelligence.Handlers
