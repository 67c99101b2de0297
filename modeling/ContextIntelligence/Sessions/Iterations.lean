import ContextIntelligence.Handlers.Frames
import ContextIntelligence.Lib.Runs

/-!
# Iteration nodes across workers

`provider:request` counts the iterations of a session in the memory of its worker and names the
Iteration node by the number. A worker that is created again counts from zero, while the nodes of
the worker before it are in the graph.
-/

namespace ContextIntelligence.Sessions

open Lib Lib.Effects Lib.Runs ContextIntelligence.Graph Handlers

/-! ## Runs -/

/-- A worker of the session, and which record was recorded on which Iteration node: flushed by
earlier workers, flushed by this one, and in its buffer. -/
structure IterationRun where
  world : World
  earlier : List (ℕ × NodeId)
  flushed : List (ℕ × NodeId)
  pending : List (ℕ × NodeId)

def IterationRun.current (r : IterationRun) : List (ℕ × NodeId) := r.flushed ++ r.pending

/-- The accepted records of the session are numbered. Re-creation stands for every way a worker is
lost: its cursors and its buffer are gone. -/
inductive IterationAction where
  | dispatch (record : ℕ) (e : Event) (fates : List ReadFate)
  | flush
  | discard
  | recreate

def iterationCount (w : World) : ℕ := w.cursors.layer2.iterationCount

def activeIteration (w : World) : Option NodeId := w.cursors.layer2.activeIterationId

def dispatched (env : Env) (sessionId : NodeId) (e : Event) (fates : List ReadFate) (w : World) :
    World :=
  { (processEvent env sessionId e { w with fates := fates }).2 with fates := [] }

/-- A dispatch that moves the counter has recorded its request on the node that is active then. -/
def iterationStep (env : Env) (sessionId : NodeId) (r : IterationRun) :
    IterationAction → IterationRun
  | .dispatch record e fates =>
    let w := dispatched env sessionId e fates r.world
    { r with
      world := w
      pending := if iterationCount w = iterationCount r.world then r.pending
        else r.pending ++ (activeIteration w).toList.map fun node => (record, node) }
  | .flush =>
    { r with world := r.world.flush env, flushed := r.flushed ++ r.pending, pending := [] }
  | .discard => { r with world := r.world.discardBuffer, pending := [] }
  | .recreate =>
    { world := { r.world with cursors := Cursors.fresh, buffer := Buffer.empty }
      earlier := r.earlier ++ r.flushed
      flushed := []
      pending := [] }

def IterationRun.initial (w : World) : IterationRun :=
  ⟨{ w with cursors := Cursors.fresh }, [], [], []⟩

def NoMixedIteration (r : IterationRun) : Prop :=
  ∀ p ∈ r.earlier ++ r.current, ∀ q ∈ r.earlier ++ r.current, p.2 = q.2 → p.1 = q.1

def iterationId (sessionId : NodeId) (number : ℕ) : NodeId := s!"{sessionId}::iteration::{number}"

/-- The event is a request that reaches the handlers: the session node can be ensured and the
payload prepared. -/
def Requests (env : Env) (sessionId : NodeId) (e : Event) (w : World) : Prop :=
  e.name = "provider:request" ∧ (prepare env sessionId e).isOk
    ∧ (ensureSessionNode sessionId e.data e.workingDir w).1.isOk

/-- The next number, which a request gets, is not that of a node on which an earlier worker has
flushed another record. -/
def NumberUnused (env : Env) (sessionId : NodeId) (r : IterationRun) : IterationAction → Prop
  | .dispatch record e fates =>
    Requests env sessionId e { r.world with fates := fates } →
      ∀ p ∈ r.earlier, p.2 = iterationId sessionId (iterationCount r.world + 1) → p.1 = record
  | _ => True

/-! ## What a dispatch does to the counter -/

variable {env : Env} {sid : NodeId}

def numbering (w : World) : ℕ × Option NodeId := (iterationCount w, activeIteration w)

theorem numbering_frame : CursorFrame (Keeps numbering) where
  buffer _ _ := rfl
  fates _ _ _ _ := rfl
  seen _ _ := rfl

/-- An enricher that counts no iteration keeps the numbering. -/
theorem numbering_of_modest {nests : Prop} {c : Cursors} {w : World}
    (h : Modest False nests w.cursors c) : Keeps numbering w (w.onCursors fun _ => c) :=
  Prod.ext (h.count id) (h.active id)

def hooksAfter (env : Env) : List (Occurrence → Hook Unit) := (enrichers env).drop 3

theorem respects_hooksAfter (o : Occurrence) :
    ∀ hook ∈ hooksAfter env, Respects (Keeps numbering) (hook o) := by
  have hquiet := numbering_frame.quietHooks env o fun _ _ h => numbering_of_modest h
  simp only [quietHooks, List.forall_mem_cons] at hquiet
  obtain ⟨-, -, hblock, hcall, hprompt, hcancel, hcompact, hdelegate, hskill, -⟩ := hquiet
  have hrecipes : ∀ {enricher : Enricher}, KeepsCursors False True enricher o →
      Steady (Keeps numbering) enricher o :=
    fun hkeeps w c writes hrun => numbering_of_modest (hkeeps _ _ _ hrun)
  simp only [hooksAfter, enrichers, List.drop_succ_cons, List.drop_zero, List.forall_mem_cons,
    List.not_mem_nil, false_implies, implies_true, and_true]
  exact ⟨hblock, hcall, hprompt, hcancel, hcompact, hdelegate, hskill,
    numbering_frame.recipeRunHandler env o (fun _ _ => hrecipes (keeps_pushRecipeRun o _ _))
      (hrecipes (keeps_recipeRunEnricher o)),
    numbering_frame.enrich (hrecipes (keeps_recipeStepHandler env o))⟩

theorem numbering_of_other {o : Occurrence} (hname : o.name ≠ "provider:request") :
    Respects (Keeps numbering) (runAll ((enrichers env).map fun enricher => enricher o)) :=
  CursorFrame.runAll (List.forall_mem_map.2 (numbering_frame.hooks env o fun _ _ h =>
    numbering_of_modest (h.mono hname id)))

/-- The handlers in front do nothing about a request, and those behind leave its number. -/
theorem numbering_of_request {o : Occurrence} (hname : o.name = "provider:request") (w : World) :
    numbering (runAll ((enrichers env).map fun enricher => enricher o) w).2
      = (iterationCount w + 1, some (iterationId o.sessionId (iterationCount w + 1))) := by
  have hsession : sessionHandler env o w = (.ok (), w) := by
    simp only [sessionHandler, hname]
    rfl
  have horchestrator : enrich orchestratorRunHandler o w = (.ok (), w) := by
    simp only [enrich, Eff.bind_apply, Eff.get_apply, orchestratorRunHandler, hname]
    rfl
  have hafter : Respects (Keeps numbering)
      (runAll ((hooksAfter env).map fun enricher => enricher o)) :=
    CursorFrame.runAll (List.forall_mem_map.2 (respects_hooksAfter o))
  have hrun : runAll ((enrichers env).map fun enricher => enricher o) w
      = (enrich iterationHandler o >>= fun _ =>
        runAll ((hooksAfter env).map fun enricher => enricher o)) w :=
    (Eff.bind_of_ok hsession).trans (Eff.bind_of_ok horchestrator)
  rw [hrun]
  refine (Respects.after (enrich iterationHandler o) (fun _ => hafter) w).trans ?_
  simp only [enrich, Eff.bind_apply, Eff.get_apply, iterationHandler, hname]
  rfl

theorem numbering_processEvent (env : Env) (sid : NodeId) (e : Event) (w : World) :
    (Requests env sid e w → numbering (processEvent env sid e w).2
        = (iterationCount w + 1, some (iterationId sid (iterationCount w + 1))))
      ∧ (¬ Requests env sid e w → numbering (processEvent env sid e w).2 = numbering w) := by
  have hfirst := numbering_frame.ensureSessionNode sid e.data e.workingDir w
  rcases hens : ensureSessionNode sid e.data e.workingDir w with ⟨fault | _, w₁⟩ <;>
    rw [hens] at hfirst
  · rw [processEvent, Eff.bind_of_error hens]
    exact ⟨fun h => by simp [Requests, hens, Except.isOk, Except.toBool] at h, fun _ => hfirst⟩
  cases hprep : prepare env sid e with
  | error fault =>
    rw [processEvent_of_unprepared hens hprep]
    exact ⟨fun h => by simp [Requests, hprep, Except.isOk, Except.toBool] at h, fun _ => hfirst⟩
  | ok o =>
    have hrequest : Requests env sid e w ↔ e.name = "provider:request" := by
      simp [Requests, hens, hprep, Except.isOk, Except.toBool]
    obtain ⟨rfl, hname, -⟩ := prepare_fields hprep
    have hcount : iterationCount w₁ = iterationCount w := congrArg Prod.fst hfirst
    have htouch := Respects.after (runAll ((enrichers env).map fun enricher => enricher o))
      (fun _ => numbering_frame.touchSession env o.sessionId o.timestamp)
      (performAll (defaultHandler env o) w₁).2
    rw [processEvent_of_prepared hens hprep, hrequest, ← hname, ← hcount]
    refine ⟨fun h => htouch.trans (numbering_of_request h _), fun h => htouch.trans ?_⟩
    exact (numbering_of_other h (performAll (defaultHandler env o) w₁).2).trans hfirst

/-! ## Every run -/

theorem iterationId_injective : Function.Injective (iterationId sid) := by
  intro n n' h
  have htext : toString n = toString n' := by
    simpa [iterationId, String.append_assoc] using h
  have hdigits : Nat.toDigits 10 n = Nat.toDigits 10 n' := String.ofList_injective htext
  simpa using congrArg (Nat.ofDigitChars 10 · 0) hdigits

/-- No node is shared, and this worker has used no number above its counter. -/
structure Separate (sessionId : NodeId) (r : IterationRun) : Prop where
  unmixed : NoMixedIteration r
  below : ∀ p ∈ r.current, ∃ number ≤ iterationCount r.world, p.2 = iterationId sessionId number

theorem noMixedIteration_append {r : IterationRun} (h : NoMixedIteration r) {w : World} {record : ℕ}
    {node : NodeId} (hfresh : ∀ p ∈ r.earlier ++ r.current, p.2 = node → p.1 = record) :
    NoMixedIteration { r with world := w, pending := r.pending ++ [(record, node)] } := by
  intro p hp q hq heq
  simp only [IterationRun.current, ← List.append_assoc] at hp hq hfresh
  rcases List.mem_append.1 hp with hp | hp <;> rcases List.mem_append.1 hq with hq | hq
  · apply h p _ q _ heq
    · rwa [IterationRun.current, ← List.append_assoc]
    · rwa [IterationRun.current, ← List.append_assoc]
  · obtain rfl := List.mem_singleton.1 hq
    exact hfresh p hp heq
  · obtain rfl := List.mem_singleton.1 hp
    exact (hfresh q hq heq.symm).symm
  · rw [List.mem_singleton.1 hp, List.mem_singleton.1 hq]

theorem noMixedIteration_of_subset {r r' : IterationRun} (h : NoMixedIteration r)
    (hsub : r'.earlier ++ r'.current ⊆ r.earlier ++ r.current) : NoMixedIteration r' :=
  fun p hp q hq heq => h p (hsub hp) q (hsub hq) heq

theorem dispatch_cases (r : IterationRun) (record : ℕ) (e : Event) (fates : List ReadFate) :
    let w := dispatched env sid e fates r.world
    (¬ Requests env sid e { r.world with fates := fates }
        ∧ iterationCount w = iterationCount r.world
        ∧ iterationStep env sid r (.dispatch record e fates) = { r with world := w })
      ∨ (Requests env sid e { r.world with fates := fates }
        ∧ iterationCount w = iterationCount r.world + 1
        ∧ iterationStep env sid r (.dispatch record e fates)
          = { r with world := w, pending := r.pending ++
            [(record, iterationId sid (iterationCount r.world + 1))] }) := by
  obtain ⟨hmoved, hkept⟩ := numbering_processEvent env sid e
    { r.world with fates := fates }
  by_cases hrequest : Requests env sid e { r.world with fates := fates }
  · have hcount : iterationCount (dispatched env sid e fates r.world)
        = iterationCount r.world + 1 := congrArg Prod.fst (hmoved hrequest)
    have hactive : activeIteration (dispatched env sid e fates r.world)
        = some (iterationId sid (iterationCount r.world + 1)) := congrArg Prod.snd (hmoved hrequest)
    exact .inr ⟨hrequest, hcount, by simp [iterationStep, hcount, hactive]⟩
  · have hcount : iterationCount (dispatched env sid e fates r.world)
        = iterationCount r.world := congrArg Prod.fst (hkept hrequest)
    exact .inl ⟨hrequest, hcount, by simp [iterationStep, hcount]⟩

theorem separate_iterationStep (r : IterationRun) (action : IterationAction)
    (h : Separate sid r) (hunused : NumberUnused env sid r action) :
    Separate sid (iterationStep env sid r action) := by
  cases action with
  | flush =>
    refine ⟨noMixedIteration_of_subset h.unmixed ?_, fun p hp => h.below p ?_⟩
    · simp [iterationStep, IterationRun.current]
    · simpa [iterationStep, IterationRun.current] using hp
  | discard =>
    refine ⟨noMixedIteration_of_subset h.unmixed ?_, fun p hp => h.below p ?_⟩
    · intro p hp
      simp only [iterationStep, IterationRun.current, List.mem_append] at hp ⊢
      tauto
    · simp only [iterationStep, IterationRun.current, List.append_nil] at hp
      exact List.mem_append_left _ hp
  | recreate =>
    refine ⟨noMixedIteration_of_subset h.unmixed ?_, nofun⟩
    intro p hp
    simp only [iterationStep, IterationRun.current, List.mem_append] at hp ⊢
    tauto
  | dispatch record e fates =>
    rcases dispatch_cases r record e fates with ⟨-, hcount, hstep⟩ | ⟨hrequest, hcount, hstep⟩
    · rw [hstep]
      refine ⟨h.unmixed, fun p hp => ?_⟩
      obtain ⟨number, hle, hnode⟩ := h.below p hp
      exact ⟨number, hcount ▸ hle, hnode⟩
    · have hearlier := hunused hrequest
      rw [hstep]
      refine ⟨noMixedIteration_append h.unmixed ?_, ?_⟩
      · intro p hp hnode
        rcases List.mem_append.1 hp with hp | hp
        · exact hearlier p hp hnode
        · -- a number this worker gave before is below the next one
          obtain ⟨number, hle, hp'⟩ := h.below p hp
          have heq := iterationId_injective (hp'.symm.trans hnode)
          omega
      · intro p hp
        rw [IterationRun.current, ← List.append_assoc] at hp
        rcases List.mem_append.1 hp with hp | hp
        · obtain ⟨number, hle, hnode⟩ := h.below p hp
          exact ⟨number, by rw [hcount]; omega, hnode⟩
        · obtain rfl := List.mem_singleton.1 hp
          exact ⟨_, hcount.ge, rfl⟩

theorem numberUnused_of_unmixed (r : IterationRun) (action : IterationAction)
    (h : NoMixedIteration (iterationStep env sid r action)) : NumberUnused env sid r action := by
  cases action with
  | flush => trivial
  | discard => trivial
  | recreate => trivial
  | dispatch record e fates =>
    intro hrequest p hp hnode
    rcases dispatch_cases r record e fates with ⟨hother, -⟩ | ⟨-, -, hstep⟩
    · exact absurd hrequest hother
    · rw [hstep] at h
      refine h p (List.mem_append_left _ hp) (record, iterationId sid _) ?_ hnode
      simp [IterationRun.current]

def requestAfterRecreation : List IterationAction :=
  [.dispatch 0 (sampleEvent "provider:request" "2026-01-01T00:00:00+00:00") [], .flush, .recreate,
    .dispatch 1 (sampleEvent "provider:request" "2026-01-01T00:00:01+00:00") [], .flush]

instance (r : IterationRun) : Decidable (NoMixedIteration r) :=
  inferInstanceAs (Decidable (∀ p ∈ _, ∀ q ∈ _, _ → _))

end ContextIntelligence.Sessions
