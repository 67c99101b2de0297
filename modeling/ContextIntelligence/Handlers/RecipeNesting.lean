import ContextIntelligence.Handlers.Frames
import ContextIntelligence.Handlers.Payloads
import ContextIntelligence.Handlers.Traced
import ContextIntelligence.Lib.Runs

/-!
# Nested recipe runs

The open runs of a session are a stack, but its active step is a single cursor. `Nested` compares it
with the steps that are open by the events alone (`OpenRun`). A run inside a step puts the stack
back when it ends and clears the cursor, whatever step it was started in (`activeStep_lost`).
-/

namespace ContextIntelligence.Handlers

open Lib Lib.Effects Lib.Recording Lib.Runs ContextIntelligence.Graph

variable {α β : Type} {env : Env} {sid : NodeId} {o : Occurrence} {e : Event}
  {w w' : World}

/-! ## Open runs -/

/-- A run that is open, with its last step. -/
structure OpenRun where
  run : NodeId
  step : Option NodeId

/-- The step of the run that an event opens. -/
def stepOpened (env : Env) (o : Occurrence) (run : NodeId) : Option NodeId :=
  match o.name with
  | "recipe:step" =>
    let text := textOf env ((o.data.get "current_step").getD (.int 0))
    some s!"{run}::step::{text}"
  | "recipe:approval" =>
    let text := textOf env ((o.data.get "stage_name").getD (.str ""))
    some s!"{run}::step::{text}"
  | "recipe:loop_iteration" =>
    let step := textOf env ((o.data.get "step_id").getD (.str ""))
    let iteration := textOf env ((o.data.get "iteration").getD .null)
    some s!"{run}::step::{step}::loop::{iteration}"
  | _ => none

def OpenRun.enter (env : Env) (o : Occurrence) (run : OpenRun) : OpenRun :=
  { run with step := (stepOpened env o run.run).or run.step }

/-- The open runs, the innermost one first: a start opens one, as an approval does if there is none,
and a complete closes one. -/
def shift (o : Occurrence) (runs : List OpenRun) : List OpenRun :=
  if o.name = "recipe:start" ∨ o.name = "recipe:approval" ∧ runs = [] then
    ⟨recipeRunId o, none⟩ :: runs
  else if o.name = "recipe:complete" then runs.tail
  else runs

/-- A step is one of the innermost run. -/
def enterInnermost (env : Env) (o : Occurrence) : List OpenRun → List OpenRun
  | [] => []
  | run :: rest => run.enter env o :: rest

/-- What an event does to the open runs. -/
def track (env : Env) (o : Occurrence) (runs : List OpenRun) : List OpenRun :=
  enterInnermost env o (shift o runs)

/-- The innermost step that is still open. -/
def innermost (runs : List OpenRun) : Option NodeId := runs.findSome? OpenRun.step

structure RecipeRuns where
  world : World
  runs : List OpenRun

/-- An event on which a handler raises opens and closes nothing. -/
def recipeStep (env : Env) (sid : NodeId) (s : RecipeRuns) (e : Event) : RecipeRuns :=
  let result := processEvent env sid e s.world
  ⟨result.2, match result.1, prepare env sid e with
    | .ok _, .ok o => track env o s.runs
    | _, _ => s.runs⟩

def RecipeRuns.initial (db : Database) : RecipeRuns :=
  ⟨⟨Cursors.fresh, Buffer.empty, db, []⟩, []⟩

/-- The event is processed without an exception. -/
def Processed (env : Env) (sid : NodeId) (s : RecipeRuns) (e : Event) : Prop :=
  (processEvent env sid e s.world).1.isOk

/-! ## What an event does to the recipe cursors -/

def recipes (w : World) : DataLayer3State := w.cursors.layer3

def runStack (w : World) : List NodeId := (recipes w).activeRecipeRunStack

def activeStep (w : World) : Option NodeId := (recipes w).activeRecipeStepId

theorem recipes_frame : CursorFrame (Keeps recipes) where
  buffer _ _ := rfl
  fates _ _ _ _ := rfl
  seen _ _ := rfl

/-- Most handlers leave the recipe cursors alone. -/
theorem recipes_quietHooks (env : Env) (o : Occurrence) :
    ∀ hook ∈ enrich iterationHandler :: quietHooks env, Respects (Keeps recipes) (hook o) := by
  refine List.forall_mem_cons.2 ⟨recipes_frame.enrich fun w c writes hrun => ?_,
    recipes_frame.quietHooks env o fun w c h => h.recipes id⟩
  exact (keeps_iterationHandler o _ _ _ hrun).recipes id

/-- Where the computation returns, it moves the recipe cursors as `f` says; where it raises, it
leaves them. -/
structure Moves (f : DataLayer3State → DataLayer3State) (m : Hook α) : Prop where
  returns : ∀ w a w', m w = (.ok a, w') → recipes w' = f (recipes w)
  raises : ∀ w fault w', m w = (.error fault, w') → recipes w' = recipes w

/-- The computation never raises. -/
def Total (m : Hook α) : Prop := ∀ w fault w', m w ≠ (.error fault, w')

namespace Moves

variable {f g : DataLayer3State → DataLayer3State} {m : Hook α} {k : α → Hook β}

theorem of_keeps (hm : Respects (Keeps recipes) m) : Moves id m := by
  refine ⟨fun w a w' hrun => ?_, fun w fault w' hrun => ?_⟩
  all_goals
    have hkeep := hm w
    rwa [hrun] at hkeep

theorem keeps_bind (hm : Respects (Keeps recipes) m) (hk : ∀ a, Moves f (k a)) :
    Moves f (m >>= k) := by
  refine ⟨fun w b w'' hrun => ?_, fun w fault w'' hrun => ?_⟩ <;> rw [Eff.bind_apply] at hrun <;>
    rcases hfirst : m w with ⟨_ | a, w'⟩ <;> rw [hfirst] at hrun
  · cases hrun
  · exact ((hk a).returns w' b w'' hrun).trans
      (congrArg f ((of_keeps hm).returns w a w' hfirst))
  · cases hrun
    exact (of_keeps hm).raises w _ w'' hfirst
  · exact ((hk a).raises w' fault w'' hrun).trans ((of_keeps hm).returns w a w' hfirst)

theorem bind (hm : Moves f m) (hk : ∀ a, Moves g (k a)) (htotal : ∀ a, Total (k a)) :
    Moves (g ∘ f) (m >>= k) := by
  refine ⟨fun w b w'' hrun => ?_, fun w fault w'' hrun => ?_⟩ <;> rw [Eff.bind_apply] at hrun <;>
    rcases hfirst : m w with ⟨_ | a, w'⟩ <;> rw [hfirst] at hrun
  · cases hrun
  · exact ((hk a).returns w' b w'' hrun).trans (congrArg g (hm.returns w a w' hfirst))
  · cases hrun
    exact hm.raises w _ w'' hfirst
  · exact absurd hrun (htotal a w' fault w'')

theorem bind_keeps (hm : Moves f m) (hk : ∀ a, Respects (Keeps recipes) (k a))
    (htotal : ∀ a, Total (k a)) : Moves f (m >>= k) :=
  bind (g := id) hm (fun a => of_keeps (hk a)) htotal

theorem enrich {enricher : Enricher}
    (h : ∀ c c' writes, enricher o c = .ok (c', writes) → c'.layer3 = f c.layer3) :
    Moves f (Handlers.enrich enricher o) := by
  refine ⟨fun w a w' hrun => ?_, fun w fault w' hrun => ?_⟩ <;>
    simp only [Handlers.enrich, Eff.bind_apply, Eff.get_apply] at hrun <;>
    cases heq : enricher o w.cursors <;> rw [heq] at hrun <;> cases hrun
  · exact h _ _ _ heq
  · rfl

end Moves

/-- What `RecipeRunHandler` does to the cursors. -/
def turnRuns (o : Occurrence) (l : DataLayer3State) : DataLayer3State :=
  if o.name = "recipe:start" ∨ o.name = "recipe:approval" ∧ l.activeRecipeRunStack = [] then
    { l with activeRecipeRunStack := l.activeRecipeRunStack ++ [recipeRunId o] }
  else if o.name = "recipe:complete" ∧ l.activeRecipeRunStack ≠ [] then
    ⟨l.activeRecipeRunStack.dropLast, none⟩
  else l

theorem moves_recipeRunHandler : Moves (turnRuns o) (recipeRunHandler env o) := by
  have hstart : ∀ sourceEvent disambiguator, Moves
      (fun l => { l with activeRecipeRunStack := l.activeRecipeRunStack ++ [recipeRunId o] })
      (handleRecipeStart sourceEvent disambiguator o) := by
    intro sourceEvent disambiguator
    refine .keeps_bind (recipes_frame.onBuffer _) fun _ =>
      .keeps_bind (recipes_frame.linkParentRun o) fun _ => .enrich fun c c' writes h => ?_
    cases h
    rfl
  have hother : Moves (fun l => if o.name = "recipe:complete" ∧ l.activeRecipeRunStack ≠ [] then
      ⟨l.activeRecipeRunStack.dropLast, none⟩ else l) (enrich recipeRunEnricher o) := by
    refine .enrich fun c c' writes h => ?_
    unfold recipeRunEnricher at h
    rcases hstack : c.layer3.activeRecipeRunStack.eq_nil_or_concat with
      hnil | ⟨outer, run, hrun⟩ <;>
      split at h <;> cases h <;> simp_all [withLayer3]
  -- which part runs depends on the stack that the handler finds
  have hcases : ∀ w, ∃ m : Hook Unit, recipeRunHandler env o w = m w
      ∧ ∃ f, Moves f m ∧ turnRuns o (recipes w) = f (recipes w) := by
    intro w
    simp only [recipeRunHandler, Eff.bind_apply, Eff.get_apply, turnRuns]
    split
    · exact ⟨_, rfl, _, hstart _ _, if_pos (.inl ‹_›)⟩
    split
    · exact ⟨_, rfl, _, hstart _ _, if_pos (.inr ‹_›)⟩
    · exact ⟨_, rfl, _, hother, if_neg (not_or.2 ⟨‹_›, ‹_›⟩)⟩
  refine ⟨fun w a w' hrun => ?_, fun w fault w' hrun => ?_⟩ <;>
    obtain ⟨m, hm, f, hmoves, hf⟩ := hcases w <;> rw [hm] at hrun
  · exact (hmoves.returns w a w' hrun).trans hf.symm
  · exact hmoves.raises w fault w' hrun

def opensStep : List String := ["recipe:step", "recipe:approval", "recipe:loop_iteration"]

/-- What `RecipeStepHandler` does to the cursors. -/
def turnStep (env : Env) (o : Occurrence) (l : DataLayer3State) : DataLayer3State :=
  if o.name ∈ opensStep then
    { l with activeRecipeStepId := l.activeRecipeRunStack.getLast?.bind (stepOpened env o) }
  else l

theorem layer3_newStep {c c' : Cursors} {stepId : NodeId → NodeId} {fields : List (String × Value)}
    {disambiguator : Option String} {writes : List Write}
    (h : newStep o c stepId fields disambiguator = (c', writes)) :
    c'.layer3 = { c.layer3 with
      activeRecipeStepId := c.layer3.activeRecipeRunStack.getLast?.map stepId } := by
  unfold newStep at h
  split at h <;> rename_i hlast <;> cases h <;> simp [withLayer3, hlast]

theorem moves_recipeStepHandler : Moves (turnStep env o) (enrich (recipeStepHandler env) o) := by
  refine .enrich fun c c' writes h => ?_
  unfold recipeStepHandler at h
  split at h
  case h_4 hname => split at h <;> cases h <;> simp [turnStep, opensStep, hname]
  case h_5 =>
    cases h
    rw [turnStep, if_neg (by simp_all [opensStep])]
  all_goals
    rename_i hname
    rw [layer3_newStep (Except.ok.inj h), turnStep, if_pos (by simp [opensStep, hname])]
    cases c.layer3.activeRecipeRunStack.getLast? <;> simp [stepOpened, hname]

theorem total_recipeStepHandler : Total (enrich (recipeStepHandler env) o) := by
  intro w fault w' hrun
  have hok : ∀ c, ∃ result, recipeStepHandler env o c = .ok result := by
    intro c
    unfold recipeStepHandler
    repeat' split
    all_goals exact ⟨_, rfl⟩
  obtain ⟨result, hresult⟩ := hok w.cursors
  simp only [enrich, Eff.bind_apply, Eff.get_apply, hresult] at hrun
  cases hrun

/-- The enrichers in their order; only the last two move the cursors. -/
theorem moves_others :
    Moves (turnRuns o) (runAll (((enrichers env).take 11).map fun enricher => enricher o)) := by
  have hkeep := recipes_quietHooks env o
  simp only [quietHooks, List.forall_mem_cons] at hkeep
  obtain ⟨hiter, hsession, horch, hblock, hcall, hprompt, hcancel, hcompact, hdelegate,
    hskill, -⟩ :=
    hkeep
  exact .keeps_bind hsession fun _ => .keeps_bind horch fun _ => .keeps_bind hiter fun _ =>
    .keeps_bind hblock fun _ => .keeps_bind hcall fun _ => .keeps_bind hprompt fun _ =>
    .keeps_bind hcancel fun _ => .keeps_bind hcompact fun _ => .keeps_bind hdelegate fun _ =>
    .keeps_bind hskill fun _ =>
    .bind_keeps moves_recipeRunHandler (fun _ => Respects.pure ()) fun _ _ _ _ h => by cases h

theorem enrichers_split : (enrichers env).map (fun enricher => enricher o)
    = ((enrichers env).take 11).map (fun enricher => enricher o)
      ++ [enrich (recipeStepHandler env) o] := rfl

theorem moves_enrichers : Moves (turnStep env o ∘ turnRuns o)
    (runAll ((enrichers env).map fun enricher => enricher o)) := by
  rw [enrichers_split, runAll_append]
  refine .bind moves_others (fun _ => ?_) fun _ => ?_
  · exact .bind_keeps moves_recipeStepHandler (fun _ => Respects.pure ())
      fun _ _ _ _ h => by cases h
  · intro w fault w' h
    rcases hrun : enrich (recipeStepHandler env) o w with ⟨fault' | _, w₁⟩
    · exact total_recipeStepHandler w fault' w₁ hrun
    · rw [show runAll [enrich (recipeStepHandler env) o] w = _ from Eff.bind_of_ok hrun] at h
      cases h

/-- What a processed event does to the cursors. -/
theorem recipes_of_ok (h : processEvent env sid e w = (.ok (), w')) :
    ∃ o, prepare env sid e = .ok o ∧ recipes w' = turnStep env o (turnRuns o (recipes w)) := by
  obtain ⟨o, w₁, w₂, hprep, hens, hall, rfl⟩ := processEvent_ok h
  have hfirst := recipes_frame.ensureSessionNode sid e.data e.workingDir w
  rw [hens] at hfirst
  refine ⟨o, hprep, ?_⟩
  calc recipes (touchSession env sid o.timestamp w₂).2
      = recipes w₂ := recipes_frame.touchSession env sid o.timestamp w₂
    _ = turnStep env o (turnRuns o (recipes (performAll (defaultHandler env o) w₁).2)) :=
      moves_enrichers.returns _ _ _ hall
    _ = turnStep env o (turnRuns o (recipes w)) :=
      congrArg (turnStep env o ∘ turnRuns o) (show recipes w₁ = recipes w from hfirst)

theorem recipes_of_error {fault : Fault} (h : processEvent env sid e w = (.error fault, w')) :
    recipes w' = recipes w := by
  have hfirst := recipes_frame.ensureSessionNode sid e.data e.workingDir w
  rcases hens : ensureSessionNode sid e.data e.workingDir w with ⟨fault' | _, w₁⟩ <;>
    rw [hens] at hfirst
  · rw [processEvent, Eff.bind_of_error hens] at h
    cases h
    exact hfirst
  cases hprep : prepare env sid e with
  | error fault' =>
    rw [processEvent_of_unprepared hens hprep] at h
    cases h
    exact hfirst
  | ok o =>
    rw [processEvent_of_prepared hens hprep] at h
    rcases hall : runAll ((enrichers env).map fun enricher => enricher o)
      (performAll (defaultHandler env o) w₁).2 with ⟨fault' | _, w₂⟩
    · rw [Eff.bind_of_error hall] at h
      cases h
      exact (moves_enrichers.raises _ _ _ hall).trans hfirst
    · rw [Eff.bind_of_ok hall] at h
      cases h

/-! ## Tool calls -/

/-- A tool call is linked to the active step. -/
theorem triggered_mem_storeCalls {step toolCallId : NodeId}
    (h : processEvent env sid e w = (.ok (), w')) (hname : e.name = "tool:pre")
    (hcall : e.data.text env "tool_call_id" = some toolCallId) (hstep : activeStep w = some step) :
    .upsertEdge step toolCallId (semantic "TRIGGERED" "LEADS_TO") ∈ storeCalls env sid e w := by
  obtain ⟨o, w₁, w₂, hprep, hens, hall, -⟩ := processEvent_ok h
  have hfirst := recipes_frame.ensureSessionNode sid e.data e.workingDir w
  rw [hens] at hfirst
  have hname' : o.name = "tool:pre" := (prepare_fields hprep).2.1.trans hname
  have hcall' : o.data.text env "tool_call_id" = some toolCallId := by
    rwa [Payload.text, get_prepare (by decide) (by decide) hprep]
  -- the handlers in front of the last leave the step active
  rw [enrichers_split, runAll_append] at hall
  rcases hbefore : runAll (((enrichers env).take 11).map fun enricher => enricher o)
    (performAll (defaultHandler env o) w₁).2 with ⟨fault | _, w₃⟩
  · rw [Eff.bind_of_error hbefore] at hall
    cases hall
  have hactive : w₃.cursors.layer3.activeRecipeStepId = some step := by
    have hmove := moves_others.returns _ _ _ hbefore
    rw [turnRuns, if_neg (by simp [hname']), if_neg (by simp [hname'])] at hmove
    rw [← hstep]
    exact congrArg (·.activeRecipeStepId) (hmove.trans hfirst)
  have hwrite : recipeStepHandler env o w₃.cursors = .ok (w₃.cursors,
      [.edge step toolCallId (semantic "TRIGGERED" "LEADS_TO")]) := by
    simp only [recipeStepHandler, hname', hactive, hcall']
  have hlast : Call.upsertEdge step toolCallId (semantic "TRIGGERED" "LEADS_TO")
      ∈ (Traced.runAll [Traced.enrich (recipeStepHandler env) o]).calls w₃ :=
    Recorded.mem_calls_bind_left (by simp [Traced.enrich, hwrite, Write.call])
  have hothers : (Traced.runAll (((Traced.enrichers env).take 11).map fun enricher =>
      enricher o)).run (performAll (defaultHandler env o) w₁).2 = (.ok (), w₃) := by
    rw [Traced.run_runAll, List.map_take, List.map_take, Traced.run_enrichers, ← List.map_take]
    exact hbefore
  have hensure : (Traced.ensureSessionNode sid e.data e.workingDir).run w = (.ok (), w₁) := by
    rwa [Traced.run_ensureSessionNode]
  have hprepare : (Recorded.lift (orRaise (prepare env sid e)) : Trace Occurrence).run w₁
      = (.ok o, w₁) := by
    rw [hprep]
    rfl
  have hrecord : (Traced.performAll (defaultHandler env o)).run w₁
      = (.ok (), (performAll (defaultHandler env o) w₁).2) := rfl
  exact Recorded.mem_calls_bind_right hensure (Recorded.mem_calls_bind_right hprepare
    (Recorded.mem_calls_bind_right hrecord
      (Recorded.mem_calls_bind_left (Traced.mem_calls_runAll_append hothers hlast))))

/-! ## Open runs and cursors -/

def stackOf (runs : List OpenRun) : List NodeId := (runs.map OpenRun.run).reverse

/-- The run stack is that of the open runs. -/
def Stacked (s : RecipeRuns) : Prop := runStack s.world = stackOf s.runs

/-- The active step is the innermost open one, and a tool call would be linked to it. -/
structure Nested (env : Env) (sid : NodeId) (s : RecipeRuns) : Prop where
  step : activeStep s.world = innermost s.runs
  linked : ∀ e step toolCallId, Processed env sid s e → e.name = "tool:pre" →
    e.data.text env "tool_call_id" = some toolCallId → innermost s.runs = some step →
      .upsertEdge step toolCallId (semantic "TRIGGERED" "LEADS_TO") ∈ storeCalls env sid e s.world

/-- No run ends inside an open step of a run around it. -/
def EndsOutside (env : Env) (sid : NodeId) (s : RecipeRuns) (e : Event) : Prop :=
  Processed env sid s e → e.name = "recipe:complete" → innermost s.runs.tail = none

theorem recipeStep_cases (env : Env) (sid : NodeId) (s : RecipeRuns) (e : Event) :
    (¬ Processed env sid s e ∧ (recipeStep env sid s e).runs = s.runs
        ∧ recipes (recipeStep env sid s e).world = recipes s.world)
      ∨ ∃ o, o.name = e.name ∧ Processed env sid s e
        ∧ (recipeStep env sid s e).runs = track env o s.runs
        ∧ recipes (recipeStep env sid s e).world
          = turnStep env o (turnRuns o (recipes s.world)) := by
  rcases hrun : processEvent env sid e s.world with ⟨fault | _, w'⟩
  · refine .inl ⟨by simp [Processed, hrun, Except.isOk, Except.toBool], ?_, ?_⟩
    · simp only [recipeStep, hrun]
    · simp only [recipeStep, hrun]
      exact recipes_of_error hrun
  · obtain ⟨o, hprep, hmove⟩ := recipes_of_ok hrun
    refine .inr ⟨o, (prepare_fields hprep).2.1,
      by simp [Processed, hrun, Except.isOk, Except.toBool],
      ?_, ?_⟩
    · simp only [recipeStep, hrun, hprep]
    · simp only [recipeStep, hrun]
      exact hmove

theorem stepOpened_eq_none (h : o.name ∉ opensStep) (run : NodeId) :
    stepOpened env o run = none := by
  unfold stepOpened
  split <;> simp_all [opensStep]

theorem enterInnermost_of_notMem (h : o.name ∉ opensStep) (runs : List OpenRun) :
    enterInnermost env o runs = runs := by
  cases runs with
  | nil => rfl
  | cons run rest => rw [enterInnermost, OpenRun.enter, stepOpened_eq_none h, Option.none_or]

theorem ne_complete_of_opens {runs : List OpenRun}
    (h : o.name = "recipe:start" ∨ o.name = "recipe:approval" ∧ runs = []) :
    o.name ≠ "recipe:complete" := by
  rcases h with hname | ⟨hname, -⟩ <;> simp [hname]

theorem turnRuns_eq (runs : List OpenRun) (step : Option NodeId) :
    turnRuns o ⟨stackOf runs, step⟩ = ⟨stackOf (shift o runs),
      if o.name = "recipe:complete" ∧ runs ≠ [] then none else step⟩ := by
  have hempty : stackOf runs = [] ↔ runs = [] := by simp [stackOf]
  simp only [turnRuns, shift, hempty, ne_eq]
  by_cases hstart : o.name = "recipe:start" ∨ o.name = "recipe:approval" ∧ runs = []
  · simp [hstart, ne_complete_of_opens hstart, stackOf]
  · rw [if_neg hstart, if_neg hstart]
    by_cases hend : o.name = "recipe:complete"
    · by_cases hruns : runs = []
      · simp [hend, hruns]
      · simp [hend, hruns, stackOf, List.dropLast_reverse]
    · simp [hend]

theorem turnStep_eq (runs : List OpenRun) (step : Option NodeId) :
    turnStep env o ⟨stackOf runs, step⟩ = ⟨stackOf (enterInnermost env o runs),
      if o.name ∈ opensStep then innermost (enterInnermost env o runs) else step⟩ := by
  by_cases hopen : o.name ∈ opensStep
  · rw [turnStep, if_pos hopen, if_pos hopen]
    cases runs with
    | nil => rfl
    | cons run rest =>
      have hstep : ∃ step, stepOpened env o run.run = some step := by
        simp only [opensStep, List.mem_cons, List.not_mem_nil, or_false] at hopen
        rcases hopen with h | h | h <;> simp [stepOpened, h]
      obtain ⟨step, hstep⟩ := hstep
      simp [stackOf, enterInnermost, OpenRun.enter, innermost, hstep]
  · rw [turnStep, if_neg hopen, if_neg hopen, enterInnermost_of_notMem hopen]

/-- Only an event that ends a run can make the innermost open step another one than the cursor. -/
theorem innermost_track {runs : List OpenRun} (hopen : o.name ∉ opensStep) :
    innermost (track env o runs)
      = if o.name = "recipe:complete" then innermost runs.tail else innermost runs := by
  rw [track, enterInnermost_of_notMem hopen, shift]
  by_cases hstart : o.name = "recipe:start" ∨ o.name = "recipe:approval" ∧ runs = []
  · rw [if_pos hstart, if_neg (ne_complete_of_opens hstart)]
    rfl
  · rw [if_neg hstart]
    split <;> rfl

theorem turn_eq (runs : List OpenRun) (step : Option NodeId) :
    turnStep env o (turnRuns o ⟨stackOf runs, step⟩) = ⟨stackOf (track env o runs),
      if o.name ∈ opensStep then innermost (track env o runs)
      else if o.name = "recipe:complete" ∧ runs ≠ [] then none else step⟩ := by
  rw [turnRuns_eq, turnStep_eq]
  rfl

variable {s : RecipeRuns}

theorem recipes_eq (h : Stacked s) : recipes s.world = ⟨stackOf s.runs, activeStep s.world⟩ := by
  rw [← show runStack s.world = stackOf s.runs from h]
  rfl

theorem stacked_initial (db : Database) : Stacked (RecipeRuns.initial db) := rfl

theorem stacked_step (env : Env) (sid : NodeId) (s : RecipeRuns) (e : Event) (h : Stacked s) :
    Stacked (recipeStep env sid s e) := by
  rcases recipeStep_cases env sid s e with ⟨-, hruns, hkeep⟩ | ⟨o, -, -, hruns, hmove⟩
  · rw [Stacked, hruns, ← h, runStack, hkeep]
    rfl
  · rw [recipes_eq h, turn_eq] at hmove
    rw [Stacked, hruns]
    exact congrArg (·.activeRecipeRunStack) hmove

/-- The cursor follows the open steps exactly where no run ends inside one. -/
theorem activeStep_step (e : Event) (h : Stacked s)
    (hstep : activeStep s.world = innermost s.runs) :
    activeStep (recipeStep env sid s e).world = innermost (recipeStep env sid s e).runs
      ↔ EndsOutside env sid s e := by
  rcases recipeStep_cases env sid s e with ⟨hnot, hruns, hkeep⟩ | ⟨o, hname, hok, hruns, hmove⟩
  · refine iff_of_true ?_ fun hok => absurd hok hnot
    rw [hruns, ← hstep, activeStep, hkeep]
    rfl
  · rw [recipes_eq h, turn_eq] at hmove
    have hcursor := congrArg (·.activeRecipeStepId) hmove
    rw [hruns, show activeStep _ = _ from hcursor]
    simp only [EndsOutside, hok, ← hname, true_imp_iff]
    by_cases hopen : o.name ∈ opensStep
    · have hend : o.name ≠ "recipe:complete" := by
        rintro heq
        simp [heq, opensStep] at hopen
      simp [hopen, hend]
    · rw [if_neg hopen, innermost_track hopen]
      by_cases hend : o.name = "recipe:complete"
      · by_cases hnil : s.runs = []
        · simp [hend, hnil, hstep, innermost]
        · simp [hend, hnil, eq_comm]
      · simp [hend, hstep]

theorem nested_of_step (hstep : activeStep s.world = innermost s.runs) : Nested env sid s where
  step := hstep
  linked e step toolCallId hok hname hcall hopen := by
    rcases hrun : processEvent env sid e s.world with ⟨fault | _, w'⟩
    · simp [Processed, hrun, Except.isOk, Except.toBool] at hok
    · exact triggered_mem_storeCalls hrun hname hcall (hstep.trans hopen)

/-! ## Balanced runs -/

/-- Events in which every run that is started is completed, with anything else in between. -/
inductive Balanced : List Event → Prop where
  | nil : Balanced []
  | event {e : Event} {rest : List Event} (hstart : e.name ≠ "recipe:start")
      (hend : e.name ≠ "recipe:complete") (hrest : Balanced rest) : Balanced (e :: rest)
  | run {start complete : Event} {body rest : List Event} (hstart : start.name = "recipe:start")
      (hbody : Balanced body) (hend : complete.name = "recipe:complete") (hrest : Balanced rest) :
      Balanced (start :: (body ++ complete :: rest))

theorem runs_of_processed {e : Event} (h : Processed env sid s e) :
    ∃ o, o.name = e.name ∧ (recipeStep env sid s e).runs = track env o s.runs := by
  rcases recipeStep_cases env sid s e with ⟨hnot, -⟩ | ⟨o, hname, -, hruns, -⟩
  · exact absurd h hnot
  · exact ⟨o, hname, hruns⟩

theorem runs_start {e : Event} (hname : e.name = "recipe:start") (h : Processed env sid s e) :
    ∃ run, (recipeStep env sid s e).runs = run :: s.runs := by
  obtain ⟨o, ho, hruns⟩ := runs_of_processed h
  refine ⟨⟨recipeRunId o, none⟩, ?_⟩
  rw [hruns, track, enterInnermost_of_notMem (by simp [ho, hname, opensStep]), shift,
    if_pos (.inl (ho.trans hname))]

theorem runs_complete {e : Event} (hname : e.name = "recipe:complete")
    (h : Processed env sid s e) : (recipeStep env sid s e).runs = s.runs.tail := by
  obtain ⟨o, ho, hruns⟩ := runs_of_processed h
  rw [hruns, track, enterInnermost_of_notMem (by simp [ho, hname, opensStep]), shift,
    if_neg (by simp [ho, hname]), if_pos (ho.trans hname)]

/-- Inside a run balanced events leave the runs around it alone. -/
theorem Balanced.runs_tail {events : List Event} (h : Balanced events) {run : OpenRun}
    {outer : List OpenRun} (hs : s.runs = run :: outer)
    (hok : Along (recipeStep env sid) (Processed env sid) s events) :
    ∃ run', (Runs.run (recipeStep env sid) s events).runs = run' :: outer := by
  induction h generalizing s run outer with
  | nil => exact ⟨run, hs⟩
  | @event e rest hstart hend _ ih =>
    obtain ⟨hfirst, hrest⟩ := hok
    obtain ⟨o, ho, hruns⟩ := runs_of_processed hfirst
    have hhere : (recipeStep env sid s e).runs = run.enter env o :: outer := by
      rw [hruns, hs, track, shift, if_neg (by simp [ho, hstart]), if_neg (by rwa [ho])]
      rfl
    exact ih hhere hrest
  | run hstart _ hend _ ihBody ihRest =>
    obtain ⟨hfirst, hrest⟩ := hok
    obtain ⟨hbody, hlast, hrest⟩ := along_append.1 hrest
    obtain ⟨inner, hinner⟩ := runs_start hstart hfirst
    obtain ⟨inner', hinner'⟩ := ihBody hinner hbody
    have hback := runs_complete hend hlast
    rw [hinner', List.tail_cons, hs] at hback
    obtain ⟨run', hrun'⟩ := ihRest hback hrest
    refine ⟨run', ?_⟩
    rw [Runs.run_cons, Runs.run, List.foldl_append, List.foldl_cons]
    exact hrun'

/-- A run with balanced events in it leaves the open runs and steps as they were. -/
theorem runs_of_balanced {start complete : Event} {body : List Event}
    (hstart : start.name = "recipe:start") (hbody : Balanced body)
    (hend : complete.name = "recipe:complete")
    (hok : Along (recipeStep env sid) (Processed env sid) s (start :: (body ++ [complete]))) :
    (Runs.run (recipeStep env sid) s (start :: (body ++ [complete]))).runs = s.runs := by
  obtain ⟨hfirst, hrest⟩ := hok
  obtain ⟨hok, hlast, -⟩ := along_append.1 hrest
  obtain ⟨inner, hinner⟩ := runs_start hstart hfirst
  obtain ⟨inner', hinner'⟩ := hbody.runs_tail hinner hok
  rw [Runs.run_cons, Runs.run, List.foldl_append, List.foldl_cons, List.foldl_nil]
  exact (runs_complete hend hlast).trans (by rw [hinner', List.tail_cons])

/-- Whatever a session processes: the run stack is that of the open runs, which balanced inner runs
leave as they were; and the active step is the innermost open one, to which tool calls are linked,
throughout exactly if no run ends inside an open step of another. -/
theorem nesting_restored (env : Env) (sid : NodeId) (db : Database) (events : List Event) :
    Always (recipeStep env sid) Stacked (RecipeRuns.initial db) events
      ∧ (∀ start complete body, start.name = "recipe:start" → Balanced body →
        complete.name = "recipe:complete" →
        ∀ s, Along (recipeStep env sid) (Processed env sid) s (start :: (body ++ [complete])) →
          (Runs.run (recipeStep env sid) s (start :: (body ++ [complete]))).runs = s.runs)
      ∧ (Always (recipeStep env sid) (Nested env sid) (RecipeRuns.initial db) events
        ↔ Along (recipeStep env sid) (EndsOutside env sid) (RecipeRuns.initial db) events) := by
  refine ⟨?_, ?_, ?_⟩
  · exact along_of_invariant (stacked_step env sid) (stacked_step env sid)
      (stacked_initial db) events
  · intro start complete body hstart hbody hend s hok
    exact runs_of_balanced hstart hbody hend hok
  · refine always_iff_along
      (I := fun s => Stacked s ∧ activeStep s.world = innermost s.runs) ?_ ?_ ?_
      ⟨stacked_initial db, rfl⟩ events
    · rintro s e ⟨hstack, hstep⟩ hend
      exact ⟨stacked_step env sid s e hstack, (activeStep_step e hstack hstep).2 hend⟩
    · rintro s ⟨-, hstep⟩
      exact nested_of_step hstep
    · rintro s e ⟨hstack, hstep⟩ hnested
      exact (activeStep_step e hstack hstep).1 hnested.step

/-- A run inside the first step of another takes the active step with it. -/
theorem activeStep_lost :
    let event := fun name second => sampleEvent name s!"2026-01-01T00:00:0{second}+00:00"
    let before := Runs.run (recipeStep sampleEnv "s") (RecipeRuns.initial Database.empty)
      [event "recipe:start" "0", event "recipe:step" "0"]
    let inner := [event "recipe:start" "1", event "recipe:complete" "1"]
    let after := Runs.run (recipeStep sampleEnv "s") before inner
    runStack after.world = runStack before.world
      ∧ activeStep before.world = some "s::recipe_run::2026-01-01T00:00:00+00:00::step::0"
      ∧ innermost after.runs = innermost before.runs ∧ activeStep after.world = none := by
  decide +kernel

end ContextIntelligence.Handlers
