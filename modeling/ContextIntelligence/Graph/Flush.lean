import ContextIntelligence.Graph.Labels

/-!
# A flush, node by node and pair by pair

Each node gets its row, then its patches, and at last a placeholder if an edge needs one
(`nodes_flush`); each pair of nodes gets the edge buffered for it (`relationships_flush`). What only
fills a gap is what the row *offers*.
-/

namespace ContextIntelligence.Graph

/-! ## Rows -/

/-- What a row has to fill a gap with: only the rows of sessions have anything. -/
def offered (row : Node) (key : String) : Option Value :=
  if "Session" ∈ row.labels then (row.props key).filter Value.truthy else none

@[simp] theorem Props.fill_none (p : Props) (key : String) : p.fill key Option.none = p := by
  simp [Props.fill]

theorem addLabels_insert {label : String} {new : Finset String} (h : label ∈ new)
    (labels : Finset String) : addLabels new (insert label labels) = addLabels new labels := by
  have hunion : insert label labels ∪ new = labels ∪ new := by
    rw [Finset.insert_union, Finset.insert_eq_of_mem (Finset.mem_union_right _ h)]
  rw [addLabels, addLabels, hunion]

theorem mergeRow_eq (env : Env) (id : NodeId) (row : Node) (stored : Option Node) :
    mergeRow env id row stored =
      ⟨addLabels row.labels (stored.getD (created env id)).labels,
        (((buildNodeProps env row.props).overlay (stored.getD (created env id)).props).fill
          "working_dir" (offered row "working_dir")).fill "status"
            (offered row "status_if_absent")⟩ := by
  unfold mergeRow offered
  by_cases h : "Session" ∈ row.labels
  · simp [h, addLabels_insert h]
  · simp [h]

/-! ## Nodes -/

def Node.relabel (f : Finset String → Finset String) (node : Node) : Node :=
  { node with labels := f node.labels }

def writeRow (env : Env) (id : NodeId) (row stored : Option Node) : Option Node :=
  match row with
  | none => stored
  | some row => some (mergeRow env id row stored)

def Buffer.HasEnd (b : Buffer) (id : NodeId) : Prop :=
  ∃ key ∈ b.edges.keys, key.1 = id ∨ key.2 = id

instance (b : Buffer) (id : NodeId) : Decidable (b.HasEnd id) := by
  unfold Buffer.HasEnd
  infer_instance

theorem nodes_writePatches (patches : List Patch) (db : Database) (id : NodeId) :
    (patches.foldl Database.writePatch db).nodes id
      = (db.nodes id).map (Node.relabel (patchLabels patches id)) := by
  induction patches generalizing db with
  | nil => cases h : db.nodes id <;> simp [h, Node.relabel]
  | cons patch rest ih =>
    rw [List.foldl_cons, ih]
    by_cases hid : patch.node = id
    · cases h : db.nodes id <;>
        simp [Database.writePatch, hid, h, Node.relabel, patchLabels_cons]
    · cases h : db.nodes id <;>
        simp [Database.writePatch, hid, h, Node.relabel, patchLabels_cons]

/-- A flushed node has its row, then the patches. -/
theorem nodes_flush (env : Env) (b : Buffer) (db : Database) (id : NodeId) :
    (db.flush env b).nodes id
      = ((writeRow env id (b.nodes.get id) (db.nodes id)).map
          (Node.relabel (patchLabels b.patches id))).or
        (if b.HasEnd id then some (placeholder env id) else none) := by
  have hrow : (db.writeNodes env b.nodes).nodes id
      = writeRow env id (b.nodes.get id) (db.nodes id) := by
    unfold Database.writeNodes writeRow
    rfl
  have hpatch := nodes_writePatches b.patches (db.writeNodes env b.nodes) id
  rw [hrow] at hpatch
  have hend : (b.edges.keys.any fun key => key.1 = id ∨ key.2 = id) = decide (b.HasEnd id) := by
    rw [Bool.eq_iff_iff, List.any_eq_true, decide_eq_true_iff]
    simp only [decide_eq_true_eq, Buffer.HasEnd]
  simp only [Database.flush, Database.writeEdges, hpatch, hend]
  cases (writeRow env id (b.nodes.get id) (db.nodes id)).map
    (Node.relabel (patchLabels b.patches id)) <;> simp

/-! ## Relationships -/

/-- The relationship of a pair and type after the edge buffered for the pair, if there is one. -/
def writeEdge (env : Env) (src dst : NodeId) (type : String) (edge stored : Option Props) :
    Option Props :=
  match edge with
  | none => stored
  | some p =>
    if edgeType p = type then
      some ((buildEdgeProps env src dst p).overlay
        (stored.getD (Props.none.fill "created_by" (env.createdBy.map .str))))
    else stored

theorem relationships_flush (env : Env) (b : Buffer) (db : Database) (src dst : NodeId)
    (type : String) :
    (db.flush env b).relationships src dst type
      = writeEdge env src dst type (b.edges.get (src, dst)) (db.relationships src dst type) := by
  simp only [Database.flush, Database.writeEdges, relationships_writePatches,
    Database.writeNodes]
  rfl

theorem Database.ext_get {db db' : Database} (hnodes : ∀ id, db.nodes id = db'.nodes id)
    (hedges : ∀ src dst type, db.relationships src dst type = db'.relationships src dst type) :
    db = db' := by
  cases db
  cases db'
  congr 1
  · exact funext hnodes
  · exact funext fun src => funext fun dst => funext fun type => hedges src dst type

@[simp] theorem flush_empty (env : Env) (db : Database) : db.flush env Buffer.empty = db := by
  apply Database.ext_get
  · intro id
    have hend : ¬ Buffer.empty.HasEnd id := by
      rintro ⟨key, hkey, -⟩
      exact absurd hkey List.not_mem_nil
    have hrow : writeRow env id (Buffer.empty.nodes.get id) (db.nodes id) = db.nodes id := rfl
    rw [nodes_flush, if_neg hend, hrow, Option.or_none]
    exact Option.map_id'
  · intro src dst type
    rw [relationships_flush]
    rfl

end ContextIntelligence.Graph
