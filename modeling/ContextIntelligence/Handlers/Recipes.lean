import ContextIntelligence.Handlers.Delegations

/-!
# Recipes

Recipe runs nest: the handlers keep a stack of the active runs, whose last element is the innermost
one, and a single cursor for the active step. A completed run is popped and the step cursor
cleared.
-/

namespace ContextIntelligence.Handlers

open Lib.Effects ContextIntelligence.Graph

def withLayer3 (c : Cursors) (f : DataLayer3State → DataLayer3State) : Cursors :=
  { c with layer3 := f c.layer3 }

/-! ## Runs -/

def recipeRunId (o : Occurrence) : NodeId := s!"{o.sessionId}::recipe_run::{o.timestamp}"

/-- What `RecipeRunHandler._handle_start` writes first. -/
def recipeStartNodes (o : Occurrence) : List Write :=
  let name := (o.data.str "name").getD ""
  let lineage := match (o.data.str "parent_session_id").filter (· ≠ "") with
    | none => []
    | some parent =>
      [("parent_session_id", Value.str parent), ("is_sub_recipe", .json (.bool true))]
  [.node (recipeRunId o) {"RecipeRun", "SST_EVENT"}
      ([("name", .str name), ("started_at", .str o.timestamp),
        ("total_steps", o.data.value "total_steps"), ("status", o.data.value "status")] ++ lineage),
    .node name {"Recipe", "SST_CONCEPT"} [("name", .str name)],
    .edge o.sessionId (recipeRunId o) (semantic "HAS_RECIPE_RUN" "CONTAINS")]

def linkParentRun (o : Occurrence) : Hook Unit :=
  match (o.data.str "parent_session_id").filter (· ≠ "") with
  | none => pure ()
  | some parent => do
      ensureSessionNode parent [] none
      upsertEdge parent (recipeRunId o) (semantic "SPAWNED_RECIPE_RUN" "LEADS_TO")

/-- What `RecipeRunHandler._handle_start` writes last; the run is pushed. -/
def pushRecipeRun (sourceEvent : String) (disambiguator : Option String) : Enricher := fun o c =>
  let run := recipeRunId o
  let step := c.layer3.activeRecipeStepId.map fun step =>
    Write.edge step run (semantic "SPAWNED" "LEADS_TO")
  .ok (withLayer3 c fun l => { l with activeRecipeRunStack := l.activeRecipeRunStack ++ [run] },
    [.edge run ((o.data.str "name").getD "") (semantic "HAS_RECIPE" "EXPRESSES"),
      .edge run (o.sourceId sourceEvent disambiguator) sourcedFrom] ++ step.toList)

/-- `RecipeRunHandler._handle_start`, for `recipe:start` and for an approval without a run. -/
def handleRecipeStart (sourceEvent : String) (disambiguator : Option String) (o : Occurrence) :
    Hook Unit := do
  performAll (recipeStartNodes o)
  linkParentRun o
  enrich (pushRecipeRun sourceEvent disambiguator) o

/-- The events of `RecipeRunHandler` that only enrich the innermost run. -/
def recipeRunEnricher : Enricher := fun o c =>
  match o.name, c.layer3.activeRecipeRunStack.getLast? with
  | "recipe:complete", some run =>
    .ok (withLayer3 c fun l =>
        { activeRecipeRunStack := l.activeRecipeRunStack.dropLast, activeRecipeStepId := none },
      [.node run {"RecipeRun", "SST_EVENT"}
          [("ended_at", .str o.timestamp), ("success", o.data.value "success"),
            ("final_status", o.data.value "final_status")],
        .edge run (o.sourceId "recipe:complete" none) sourcedFrom])
  | "recipe:loop_iteration", some run =>
    .ok (c,
      [.node run {"RecipeRun", "SST_EVENT"}
          ([("last_loop_iteration_at", .str o.timestamp)]
            ++ o.data.optional "step_id" "last_loop_step_id"
            ++ o.data.optional "iteration" "last_loop_iteration"
            ++ o.data.optional "max_iterations" "last_loop_max_iterations")])
  | "recipe:loop_complete", some run =>
    .ok (c,
      [.node run {"RecipeRun", "SST_EVENT"}
          ([("loop_completed_at", .str o.timestamp)]
            ++ o.data.optional "iterations_completed" "last_loop_iterations_completed"
            ++ o.data.optional "results_count" "last_loop_results_count")])
  | _, _ => .ok (c, [])

/-- `RecipeRunHandler`. -/
def recipeRunHandler (env : Env) (o : Occurrence) : Hook Unit := do
  let w ← Eff.get
  if o.name = "recipe:start" then handleRecipeStart "recipe:start" none o
  else if o.name = "recipe:approval" ∧ w.cursors.layer3.activeRecipeRunStack = [] then
    handleRecipeStart "recipe:approval" (o.data.text env "stage_name") o
  else enrich recipeRunEnricher o

/-! ## Steps -/

/-- `steps[index]`, with Python's negative indices. -/
def itemAt (items : List Json) (index : ℤ) : Option Json :=
  if 0 ≤ index then items[index.toNat]?
  else if -index ≤ items.length then items[items.length - (-index).toNat]?
  else none

/-- `data["steps"][current_step]["name"]`; `none` where the lookup raises. -/
def stepName (data : Payload) (current : Json) : Option Json :=
  let step := match data.get "steps", current with
    | some (.arr items), .int index => itemAt items index
    | some (.arr items), .bool b => itemAt items (if b then 1 else 0)
    | some (.obj fields), .str key => Payload.get fields key
    | _, _ => none
  match step with
  | some (.obj fields) => Payload.get fields "name"
  | _ => none

/-- A new step of the innermost run becomes the active one; without a run the cursor is only
cleared. -/
def newStep (o : Occurrence) (c : Cursors) (stepId : NodeId → NodeId)
    (fields : List (String × Value)) (disambiguator : Option String) : Cursors × List Write :=
  match c.layer3.activeRecipeRunStack.getLast? with
  | none => (withLayer3 c fun l => { l with activeRecipeStepId := none }, [])
  | some run =>
    (withLayer3 c fun l => { l with activeRecipeStepId := some (stepId run) },
      [.node (stepId run) {"RecipeStep", "SST_EVENT"} fields,
        .edge run (stepId run) (semantic "HAS_STEP" "CONTAINS"),
        .edge (stepId run) (o.sourceId o.name disambiguator) sourcedFrom])

/-- `RecipeStepHandler`. -/
def recipeStepHandler (env : Env) : Enricher := fun o c =>
  match o.name with
  | "recipe:step" =>
    let current := (o.data.get "current_step").getD (.int 0)
    let text := textOf env current
    .ok (newStep o c (fun run => s!"{run}::step::{text}")
      [("name", .json ((stepName o.data current).getD (.str text))),
        ("started_at", .str o.timestamp), ("current_step", .json current)] (some text))
  | "recipe:approval" =>
    let stage := (o.data.get "stage_name").getD (.str "")
    let text := textOf env stage
    -- a stage that is null names the step `None`, but does not enter the id of the event
    let disambiguator := if stage.isNull then none else some text
    .ok (newStep o c (fun run => s!"{run}::step::{text}")
      ([("stage_name", .json stage), ("name", .json stage), ("started_at", .str o.timestamp)]
        ++ o.data.optional "prompt" "prompt") disambiguator)
  | "recipe:loop_iteration" =>
    let stepId := (o.data.get "step_id").getD (.str "")
    let step := textOf env stepId
    let iteration := textOf env ((o.data.get "iteration").getD .null)
    .ok (newStep o c (fun run => s!"{run}::step::{step}::loop::{iteration}")
      [("name", .str ("loop iteration " ++ iteration)), ("step_id", .json stepId),
        ("iteration", o.data.value "iteration"), ("max_iterations", o.data.value "max_iterations"),
        ("started_at", .str o.timestamp)] (some (step ++ "_" ++ iteration)))
  | "tool:pre" =>
    match c.layer3.activeRecipeStepId, o.data.text env "tool_call_id" with
    | some step, some toolCallId =>
      .ok (c, [.edge step toolCallId (semantic "TRIGGERED" "LEADS_TO")])
    | _, _ => .ok (c, [])
  | _ => .ok (c, [])

end ContextIntelligence.Handlers
