import ContextIntelligence.Lib.Search
import ContextIntelligence.Sessions.Forest

/-!
# The scope of a deletion

`resolve_session_graph` finds the root of a session and the sessions below it; these are checked and
shown. `delete_session_graph` starts from the same sessions but follows every outgoing edge, up to
shared concepts. A listing gives the relationships in the order in which the queries return them.
-/

namespace ContextIntelligence.Deletion

open Lib Lib.Search ContextIntelligence.Graph Handlers Sessions

/-! ## Queries -/

abbrev Relationship := NodeId × NodeId × String

structure Listing (db : Database) where
  rows : List Relationship
  complete : ∀ src dst type, (db.relationships src dst type).isSome ↔ (src, dst, type) ∈ rows

def workspaceOf (node : Node) : Option String :=
  match node.props "workspace" with
  | some (.json (.str workspace)) => some workspace
  | _ => none

/-- `(n {workspace: $workspace})`. -/
def inWorkspace (db : Database) (workspace : String) (id : NodeId) : Bool :=
  (db.nodes id).any fun node => workspaceOf node = some workspace

def hasLabel (db : Database) (label : String) (id : NodeId) : Bool :=
  (db.nodes id).any fun node => label ∈ node.labels

/-- `(n:Session {workspace: $workspace})`. -/
def isSession (db : Database) (workspace : String) (id : NodeId) : Bool :=
  hasLabel db "Session" id && inWorkspace db workspace id

section Queries

variable {db : Database} (listing : Listing db)

/-- `_discover_session_workspace`; there is one node for each id. -/
def discoverSessionWorkspace (db : Database) (sessionId : NodeId) : Option String :=
  ((db.nodes sessionId).filter fun node => "Session" ∈ node.labels).bind workspaceOf

/-! ## Resolution -/

def parentRows : List Relationship := listing.rows.filter fun row => row.2.2 ∈ parentTypes

/-- The paths up from a node that use no relationship twice: where they end, and their lengths. -/
def ascents : ℕ → List Relationship → NodeId → List (NodeId × ℕ)
  | 0, _, _ => []
  | fuel + 1, rows, id =>
    (rows.filter fun row => row.2.1 = id).flatMap fun row =>
      (row.1, 1) :: (ascents fuel (rows.erase row) row.1).map fun up => (up.1, up.2 + 1)

/-- `ORDER BY length(p) DESC LIMIT 1`. -/
def longest (ups : List (NodeId × ℕ)) : Option (NodeId × ℕ) :=
  ups.foldl (fun best up => match best with
    | none => some up
    | some found => if found.2 < up.2 then some up else some found) none

/-- `resolve_session_graph`, as far as the deletion reads it. -/
structure ResolvedGraph where
  rootId : NodeId
  sessionIds : List NodeId
  workspace : String
  deriving DecidableEq, Repr

def rowsFrom (rows : List Relationship) (id : NodeId) : List (Relationship × NodeId) :=
  (rows.filter fun row => row.1 = id).map fun row => (row, row.2.1)

def membersBelow (root : NodeId) : List NodeId :=
  let rows := parentRows listing
  (search (rowsFrom rows) (fun _ => false) (rows.length + 2) (start [root])).owned

def resolveSessionGraph (sessionId : NodeId) : Option ResolvedGraph :=
  (discoverSessionWorkspace db sessionId).map fun workspace =>
    let rows := parentRows listing
    let ancestors := (ascents rows.length rows sessionId).filter fun up =>
      isSession db workspace up.1
    let root := ((longest ancestors).map Prod.fst).getD sessionId
    ⟨root, (membersBelow listing root).filter (isSession db workspace), workspace⟩

/-! ## Deletion -/

def expandHop (workspace : String) (id : NodeId) : List (Relationship × NodeId) :=
  (rowsFrom listing.rows id).filter fun row => inWorkspace db workspace row.2

def seeds (db : Database) (graph : ResolvedGraph) : List NodeId :=
  graph.sessionIds.filter (isSession db graph.workspace)

/-- `_collect_graph_node_ids`. -/
def collectGraphNodeIds (graph : ResolvedGraph) : Sweep NodeId Relationship :=
  search (expandHop listing graph.workspace) (hasLabel db "SST_CONCEPT")
    ((seeds db graph).length + listing.rows.length + 1) (start (seeds db graph))

/-- `DETACH DELETE`. -/
def detachDelete (db : Database) (ids : List NodeId) : Database where
  nodes id := if id ∈ ids then none else db.nodes id
  relationships src dst type :=
    if src ∈ ids ∨ dst ∈ ids then none else db.relationships src dst type

inductive DeleteOutcome where
  | deleted (nodes relationships : ℕ)
  | ownedSurvived (count : ℕ)
  | conceptsLost (expected found : ℕ)
  deriving DecidableEq, Repr

/-- `delete_session_graph` of a resolved graph, with the two checks it ends with. -/
def deleteSessionGraph (graph : ResolvedGraph) : DeleteOutcome × Database :=
  let found := collectGraphNodeIds listing graph
  if found.owned = [] then (.deleted 0 0, db)
  else
    let incident := listing.rows.dedup.filter fun row => row.1 ∈ found.owned ∨ row.2.1 ∈ found.owned
    let after := detachDelete db found.owned
    let survivors := found.owned.filter fun id => (after.nodes id).isSome
    let concepts := found.boundary.filter fun id => (after.nodes id).isSome
    (if survivors ≠ [] then .ownedSurvived survivors.length
      else if concepts.length ≠ found.boundary.length then
        .conceptsLost found.boundary.length concepts.length
      else .deleted found.owned.length incident.length, after)

end Queries

/-! ## Scope -/

section Scope

variable {db : Database} {listing : Listing db} {graph : ResolvedGraph}

/-- A node that the deletion reaches: from the sessions by edges within the workspace that do not
end in a concept. -/
def Reached (listing : Listing db) (graph : ResolvedGraph) (id : NodeId) : Prop :=
  Reach (expandHop listing graph.workspace) (hasLabel db "SST_CONCEPT") (seeds db graph) id

theorem mem_expandHop {workspace : String} {src : NodeId} {row : Relationship × NodeId} :
    row ∈ expandHop listing workspace src
      ↔ ∃ dst type, row = ((src, dst, type), dst) ∧ (db.relationships src dst type).isSome
        ∧ inWorkspace db workspace dst = true := by
  simp only [expandHop, rowsFrom, List.mem_filter, List.mem_map, decide_eq_true_eq]
  constructor
  · rintro ⟨⟨⟨src', dst, type⟩, ⟨hrow, rfl⟩, rfl⟩, hin⟩
    exact ⟨dst, type, rfl, (listing.complete _ _ _).2 hrow, hin⟩
  · rintro ⟨dst, type, rfl, hstore, hin⟩
    exact ⟨⟨(src, dst, type), ⟨(listing.complete _ _ _).1 hstore, rfl⟩, rfl⟩, hin⟩

theorem reached_finite (listing : Listing db) (graph : ResolvedGraph) (id : NodeId)
    (h : Reached listing graph id) :
    id ∈ seeds db graph ++ listing.rows.map fun row => row.2.1 := by
  cases h with
  | seed hseed => exact List.mem_append_left _ hseed
  | step _ hrow _ =>
    obtain ⟨dst, type, rfl, hstore, -⟩ := mem_expandHop.1 hrow
    exact List.mem_append_right _
      (List.mem_map.2 ⟨_, (listing.complete _ _ _).1 hstore, rfl⟩)

theorem mem_owned_iff {id : NodeId} :
    id ∈ (collectGraphNodeIds listing graph).owned ↔ Reached listing graph id := by
  refine mem_owned_search (reached_finite listing graph) ?_
  simp

theorem isSession_of_mem {target id : NodeId} (h : resolveSessionGraph listing target = some graph)
    (hid : id ∈ graph.sessionIds) : isSession db graph.workspace id = true := by
  obtain ⟨workspace, -, rfl⟩ := Option.map_eq_some_iff.1 h
  exact (List.mem_filter.1 hid).2

theorem reached_of_mem {target id : NodeId} (h : resolveSessionGraph listing target = some graph)
    (hid : id ∈ graph.sessionIds) : Reached listing graph id :=
  .seed (List.mem_filter.2 ⟨hid, isSession_of_mem h hid⟩)

theorem nodes_deleteSessionGraph (id : NodeId) :
    ((deleteSessionGraph listing graph).2.nodes id = none
      ↔ Reached listing graph id ∨ db.nodes id = none) := by
  rw [← mem_owned_iff]
  simp only [deleteSessionGraph]
  split
  next hnone => simp [hnone]
  next =>
    simp only [detachDelete]
    split
    next hid => simp [hid]
    next hid => simp [hid]

theorem deleteSessionGraph_outcome (listing : Listing db) (graph : ResolvedGraph) :
    ∃ nodes relationships, (deleteSessionGraph listing graph).1 = .deleted nodes relationships := by
  have hsound : Sound _ _ _ (collectGraphNodeIds listing graph) :=
    (search_start_spec (reached_finite listing graph) (by simp)).1
  simp only [deleteSessionGraph]
  generalize collectGraphNodeIds listing graph = found at hsound ⊢
  have hconc : ∀ id ∈ found.boundary, ((detachDelete db found.owned).nodes id).isSome := by
    intro id hid
    have hlab : (db.nodes id).any _ = true := hsound.boundary id hid
    cases hnode : db.nodes id <;> simp_all [detachDelete, hsound.disjoint id hid]
  rw [List.filter_eq_self.2 hconc]
  split
  · exact ⟨_, _, rfl⟩
  · rw [if_neg (by simp +contextual [detachDelete]), if_neg (by simp)]
    exact ⟨_, _, rfl⟩

/-! ## Finality -/

abbrev Below (listing : Listing db) (root : NodeId) :=
  Reach (rowsFrom (parentRows listing)) (fun _ => false) [root]

theorem mem_membersBelow {root id : NodeId} (h : Below listing root id) :
    id ∈ membersBelow listing root := by
  refine (mem_owned_search (fun id hid =>
    (?_ : id ∈ root :: (parentRows listing).map fun row => row.2.1)) (by simp)).2 h
  cases hid <;> grind [rowsFrom]

theorem mem_of_longest (ups : List (NodeId × ℕ)) : ∀ up ∈ longest ups, up ∈ ups := by
  refine List.foldlRecOn ups _ (motive := fun best => ∀ up ∈ best, up ∈ ups) (by simp) ?_
  intro best hbest next hnext
  cases best <;> grind

theorem below_of_mem_ascents {rows : List Relationship} {fuel : ℕ} {id : NodeId} {up : NodeId × ℕ}
    (hsub : rows ⊆ parentRows listing) (h : up ∈ ascents fuel rows id) : Below listing up.1 id := by
  induction fuel generalizing rows id up with
  | zero => cases h
  | succ fuel ih =>
    obtain ⟨row, hrow, hup⟩ := List.mem_flatMap.1 h
    -- the path down ends with the first row of the path up
    have hlast : (row, id) ∈ rowsFrom (parentRows listing) row.1 := by grind [rowsFrom]
    rcases List.mem_cons.1 hup with rfl | hup
    · exact .step (.seed (by simp)) hlast rfl
    · obtain ⟨higher, hrest, rfl⟩ := List.mem_map.1 hup
      exact .step (ih (fun _ hmem => hsub (List.mem_of_mem_erase hmem)) hrest) hlast rfl

theorem mem_sessionIds_self {target : NodeId}
    (h : resolveSessionGraph listing target = some graph) : target ∈ graph.sessionIds := by
  obtain ⟨workspace, hws, rfl⟩ := Option.map_eq_some_iff.1 h
  obtain ⟨node, hnode, hin⟩ := Option.bind_eq_some_iff.1 hws
  obtain ⟨hnode, hlab⟩ := Option.filter_eq_some_iff.1 hnode
  refine List.mem_filter.2 ⟨mem_membersBelow ?_, by simp_all [isSession, hasLabel, inWorkspace]⟩
  cases hup : longest _ with
  | none => exact .seed (by simp)
  | some up =>
    exact below_of_mem_ascents (fun _ h => h) (List.mem_of_mem_filter (mem_of_longest _ up hup))

/-- A deletion is final: the checks at its end never fail, the session asked for is one of those
that go, and none of them is found again. -/
theorem deletion_is_final (listing : Listing db) (target : NodeId) (graph : ResolvedGraph) :
    (∃ nodes relationships, (deleteSessionGraph listing graph).1 = .deleted nodes relationships)
    ∧ (resolveSessionGraph listing target = some graph → target ∈ graph.sessionIds
      ∧ ∀ id ∈ graph.sessionIds, ∀ after : Listing (deleteSessionGraph listing graph).2,
        resolveSessionGraph after id = none) := by
  refine ⟨deleteSessionGraph_outcome listing graph, fun h => ⟨mem_sessionIds_self h, ?_⟩⟩
  intro id hid after
  have hgone := (nodes_deleteSessionGraph id).2 (.inl (reached_of_mem h hid))
  simp [resolveSessionGraph, discoverSessionWorkspace, hgone]

end Scope

/-! ## A delegation whose session has not started yet -/

end ContextIntelligence.Deletion
