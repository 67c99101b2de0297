import ContextIntelligence.Graph.Services

/-!
# Store calls

The four calls by which the handlers write to the store. All of them go to the buffer; a flush
writes for each pair of nodes the one edge that the buffer holds for it.
-/

namespace ContextIntelligence.Graph

inductive Call where
  | upsertNode (id : NodeId) (labels : Finset String) (fields : List (String × Value))
  | upsertEdge (src dst : NodeId) (fields : List (String × Value))
  | removeEdge (src dst : NodeId)
  | setLabels (id : NodeId) (remove add : List String)

def Buffer.call (b : Buffer) : Call → Buffer
  | .upsertNode id labels fields => b.upsertNode id labels fields
  | .upsertEdge src dst fields => b.upsertEdge src dst fields
  | .removeEdge src dst => b.removeEdge src dst
  | .setLabels id remove add => b.setLabels id remove add

def Write.call : Write → Call
  | .node id labels fields => .upsertNode id labels fields
  | .edge src dst fields => .upsertEdge src dst fields

theorem foldl_perform (writes : List Write) (b : Buffer) :
    writes.foldl Buffer.perform b = (writes.map Write.call).foldl Buffer.call b := by
  rw [List.foldl_map]
  congr 1
  funext b write
  cases write <;> rfl

/-! ## Properties of an upsert -/

theorem Props.assign_apply (p : Props) (fields : List (String × Value)) (key : String) :
    p.assign fields key = (Props.none.assign fields key).or (p key) := by
  induction fields using List.reverseRecOn with
  | nil => rfl
  | append_singleton rest field ih =>
    simp only [Props.assign, List.foldl_append, List.foldl_cons, List.foldl_nil] at ih ⊢
    by_cases h : key = field.1
    · simp [h]
    · simpa [Function.update_of_ne h] using ih

variable {key : String} {fields : List (String × Value)}

theorem assign_of_notMem (h : key ∉ fields.map Prod.fst) (p : Props) :
    p.assign fields key = p key := by
  induction fields using List.reverseRecOn with
  | nil => rfl
  | append_singleton rest field ih =>
    simp only [List.map_append, List.map_cons, List.map_nil, List.mem_append, List.mem_singleton,
      not_or] at h
    simpa [Props.assign, Function.update_of_ne h.2] using ih h.1

theorem assign_eq_none_iff : Props.none.assign fields key = none ↔ key ∉ fields.map Prod.fst := by
  refine ⟨fun hnone hkey => ?_, fun hkey => assign_of_notMem hkey _⟩
  induction fields using List.reverseRecOn with
  | nil => cases hkey
  | append_singleton rest field ih =>
    by_cases hlast : key = field.1
    · simp [Props.assign, hlast] at hnone
    · have hrest : key ∈ rest.map Prod.fst := by simpa [hlast] using hkey
      exact ih (by simpa [Props.assign, Function.update_of_ne hlast] using hnone) hrest

theorem assign_of_mem (h : key ∈ fields.map Prod.fst) (p : Props) :
    p.assign fields key = Props.none.assign fields key := by
  rw [Props.assign_apply]
  refine Option.or_eq_left_of_isSome (Option.isSome_iff_ne_none.2 fun hnone => ?_)
  exact assign_eq_none_iff.1 hnone h

theorem edgeType_assign (p : Props) (fields : List (String × Value)) :
    edgeType (p.assign fields) = edgeType (Props.none.assign fields)
      ∨ edgeType (p.assign fields) = edgeType p := by
  unfold edgeType
  rw [Props.assign_apply p]
  cases Props.none.assign fields "type" with
  | none => exact .inr rfl
  | some value => exact .inl rfl

/-! ## Relationships of a flush -/

theorem relationships_writePatches (patches : List Patch) (db : Database) :
    (patches.foldl Database.writePatch db).relationships = db.relationships := by
  induction patches generalizing db with
  | nil => rfl
  | cons patch rest ih => exact (ih _).trans rfl

theorem isSome_relationships_flush (env : Env) (b : Buffer) (db : Database) (src dst : NodeId)
    (type : String) :
    ((db.flush env b).relationships src dst type).isSome
      ↔ (db.relationships src dst type).isSome
        ∨ ∃ p, b.edges.get (src, dst) = some p ∧ edgeType p = type := by
  simp only [Database.flush, Database.writeEdges, relationships_writePatches, Database.writeNodes]
  cases b.edges.get (src, dst) with
  | none => simp
  | some p =>
    by_cases h : edgeType p = type
    · simp [h]
    · simp [h]

end ContextIntelligence.Graph
