import ContextIntelligence.Lib.Dict

/-!
# The buffered graph store

`Neo4jGraphStore` collects node upserts, edge upserts and label patches in memory and writes them at
a flush: nodes, then patches, then edges. A row is merged into the stored node: properties
overwrite, labels are added, `working_dir` and a stub's `status` only fill a gap. Only a patch
removes labels; but when a write adds a terminal session label, the most specific one alone is kept.
A node is known by its id; each row of a flush concerns a node of its own.
-/

namespace ContextIntelligence.Graph

open Lib

/-! ## Values -/

abbrev NodeId := String

inductive Json where
  | null
  | bool (b : Bool)
  | int (n : ℤ)
  | float (text : String)
  | str (s : String)
  | arr (items : List Json)
  | obj (fields : List (String × Json))

structure Instant where
  aware : Bool
  micros : ℤ
  deriving DecidableEq, Repr

/-- A property value: what a payload held, or a time the store has parsed. -/
inductive Value where
  | json (j : Json)
  | time (t : Instant)

def Value.str (s : String) : Value := .json (.str s)

def Json.isNull : Json → Bool
  | .null => true
  | _ => false

def Value.isNull : Value → Bool
  | .json j => j.isNull
  | .time _ => false

def Json.truthy : Json → Bool
  | .null => false
  | .bool b => b
  | .int n => n ≠ 0
  | .float text => text ≠ "0.0" ∧ text ≠ "-0.0"
  | .str s => s ≠ ""
  | .arr items => !items.isEmpty
  | .obj fields => !fields.isEmpty

def Value.truthy : Value → Bool
  | .json j => j.truthy
  | .time _ => true

/-- A value that Python can hash, as the members of a set must be. -/
inductive Scalar where
  | null
  | bool (b : Bool)
  | int (n : ℤ)
  | float (text : String)
  | str (s : String)
  | time (t : Instant)
  deriving DecidableEq, Repr

/-- The value as a member of a set; a list and a dictionary raise a `TypeError` there. -/
def Value.scalar : Value → Option Scalar
  | .json .null => some .null
  | .json (.bool b) => some (.bool b)
  | .json (.int n) => some (.int n)
  | .json (.float text) => some (.float text)
  | .json (.str s) => some (.str s)
  | .json _ => none
  | .time t => some (.time t)

abbrev Props := String → Option Value

namespace Props

def none : Props := fun _ => Option.none

/-- `dict.update` with the listed fields. -/
def assign (p : Props) (fields : List (String × Value)) : Props :=
  fields.foldl (fun p field => Function.update p field.1 (some field.2)) p

/-- `SET n += props`. -/
def overlay (new old : Props) : Props := fun key => (new key).or (old key)

/-- `coalesce`: the value fills a gap. -/
def fill (p : Props) (key : String) (value : Option Value) : Props :=
  Function.update p key ((p key).or value)

end Props

/-- What is known of a node: its labels and its properties. -/
structure Node where
  labels : Finset String
  props : Props

def Node.blank : Node := ⟨∅, Props.none⟩

/-- The parts of the server's surroundings that the store and the handlers call. -/
structure Env where
  workspace : String
  createdBy : Option String
  /-- `datetime.fromisoformat`; `none` where it raises `ValueError`. -/
  fromisoformat : String → Option Instant
  epochMs : Instant → ℤ
  /-- `json.dumps`. -/
  dumps : Json → String
  /-- `str` of a list or a dictionary. -/
  containerText : Json → String
  /-- `blob_store.write`, if there is a blob store: a reference, or the reason it failed. -/
  blobWrite : Option (String → NodeId → Json → Except String String)
  /-- The first `:Delegation` node the database returns for a sub-session. -/
  delegationOf : (NodeId → Option Node) → Scalar → Option Props

/-! ## The buffer -/

structure Patch where
  node : NodeId
  remove : List String
  add : List String
  deriving DecidableEq, Repr

structure Buffer where
  nodes : Dict NodeId Node
  edges : Dict (NodeId × NodeId) Props
  patches : List Patch

namespace Buffer

def empty : Buffer := ⟨Dict.empty, Dict.empty, []⟩

def isEmpty (b : Buffer) : Bool :=
  b.nodes.entries.isEmpty && b.edges.entries.isEmpty && b.patches.isEmpty

/-- The buffered part of a node; blank while nothing is buffered for it. -/
def fragment (b : Buffer) (id : NodeId) : Node := (b.nodes.get id).getD Node.blank

/-- `upsert_node`: labels are added, properties assigned. -/
def upsertNode (id : NodeId) (labels : Finset String) (fields : List (String × Value))
    (b : Buffer) : Buffer :=
  let old := b.fragment id
  { b with nodes := b.nodes.set id ⟨old.labels ∪ labels, old.props.assign fields⟩ }

/-- `upsert_edge`: one entry for each ordered pair of nodes, whatever the types. -/
def upsertEdge (src dst : NodeId) (fields : List (String × Value)) (b : Buffer) : Buffer :=
  let old := (b.edges.get (src, dst)).getD Props.none
  { b with edges := b.edges.set (src, dst) (old.assign fields) }

/-- `remove_edge` only reaches the buffer. -/
def removeEdge (src dst : NodeId) (b : Buffer) : Buffer :=
  { b with edges := b.edges.erase (src, dst) }

/-- `set_labels`: the buffered part changes at once, and a patch is queued for the flush. -/
def setLabels (id : NodeId) (remove add : List String) (b : Buffer) : Buffer :=
  let old := b.fragment id
  { b with
    nodes := b.nodes.set id ⟨(old.labels \ remove.toFinset) ∪ add.toFinset, old.props⟩
    patches := b.patches ++ [⟨id, remove, add⟩] }

end Buffer

/-! ## The database -/

structure Database where
  nodes : NodeId → Option Node
  relationships : NodeId → NodeId → String → Option Props

def Database.empty : Database := ⟨fun _ => none, fun _ _ _ => none⟩

/-! ### Labels -/

def terminalLabels : Finset String := {"ForkedSession", "SubSession", "RootSession"}

/-- `_LATTICE_NORMALIZATION`: of several terminal labels the most specific stays. -/
def normalise (labels : Finset String) : Finset String :=
  let forked := if "ForkedSession" ∈ labels then (labels.erase "SubSession").erase "RootSession"
    else labels
  if "SubSession" ∈ forked then forked.erase "RootSession" else forked

/-- `SET n:…`, followed by the normalisation when a terminal label is among the new ones. -/
def addLabels (new labels : Finset String) : Finset String :=
  if Disjoint new terminalLabels then labels ∪ new else normalise (labels ∪ new)

def Patch.apply (patch : Patch) (labels : Finset String) : Finset String :=
  patch.add.foldl (fun labels label => addLabels {label} labels) (labels \ patch.remove.toFinset)

/-! ### Properties -/

def temporalProps : List String :=
  ["started_at", "ended_at", "occurred_at", "completed_at", "last_updated", "resumed_at",
    "cancelled_at", "last_loop_iteration_at", "loop_completed_at"]

variable (env : Env)

/-- `_convert_temporal_props`, for one property. -/
def convertTemporal (key : String) : Value → Value
  | .json (.str s) =>
    if key ∈ temporalProps ∧ s ≠ "" then
      match env.fromisoformat s with
      | some t => .time t
      | none => .str s
    else .str s
  | v => v

def Json.primitive : Json → Bool
  | .bool _ | .int _ | .float _ | .str _ => true
  | _ => false

/-- `_sanitize_properties`, for one property; `none` where it is skipped. -/
def sanitize (key : String) : Value → Option Value
  | .json .null => none
  | .json (.str s) => if s = "" ∧ key.endsWith "_at" then none else some (.str s)
  | .json (.arr items) =>
    if items.all Json.primitive then some (.json (.arr items))
    else some (.str (env.dumps (.arr items)))
  | .json (.obj fields) => some (.str (env.dumps (.obj fields)))
  | v => some v

def rowValue (p : Props) (key : String) : Option Value :=
  (p key).bind fun v => sanitize env key (convertTemporal env key v)

/-- `_build_node_props`. -/
def buildNodeProps (p : Props) : Props := fun key =>
  if key ∈ ["labels", "created_by", "working_dir", "status_if_absent"] then none
  else if key = "workspace" then some (.str env.workspace)
  else rowValue env p key

/-! ### Writing a buffer -/

def placeholder (id : NodeId) : Node :=
  ⟨{"Node"}, Props.none.assign [("node_id", .str id), ("workspace", .str env.workspace)]⟩

def created (id : NodeId) : Node :=
  { placeholder env id with
    props := (placeholder env id).props.fill "created_by" (env.createdBy.map .str) }

/-- The row of a buffered node is merged into the stored node; the rows of sessions have their own
statement, which fills `working_dir` and `status`. -/
def mergeRow (id : NodeId) (row : Node) (stored : Option Node) : Node :=
  let old := stored.getD (created env id)
  let props := Props.overlay (buildNodeProps env row.props) old.props
  if "Session" ∈ row.labels then
    ⟨addLabels row.labels (insert "Session" old.labels),
      (props.fill "working_dir" ((row.props "working_dir").filter Value.truthy)).fill "status"
        ((row.props "status_if_absent").filter Value.truthy)⟩
  else ⟨addLabels row.labels old.labels, props⟩

def edgeType (p : Props) : String :=
  match p "type" with
  | some (.json (.str type)) => type
  | _ => "RELATED"

def buildEdgeProps (src dst : NodeId) (p : Props) : Props := fun key =>
  if key = "type" ∨ key = "created_by" then none
  else if key = "workspace" then some (.str env.workspace)
  else if key = "src_id" then some (.str src)
  else if key = "dst_id" then some (.str dst)
  else rowValue env p key

namespace Database

def writeNodes (rows : Dict NodeId Node) (db : Database) : Database :=
  { db with nodes := fun id =>
      match rows.get id with
      | none => db.nodes id
      | some row => some (mergeRow env id row (db.nodes id)) }

def writePatch (db : Database) (patch : Patch) : Database :=
  { db with nodes := fun id =>
      if patch.node = id then
        (db.nodes id).map fun node => { node with labels := patch.apply node.labels }
      else db.nodes id }

def writeEdges (edges : Dict (NodeId × NodeId) Props) (db : Database) : Database where
  nodes := fun id =>
    match db.nodes id with
    | some node => some node
    | none => if edges.keys.any fun key => key.1 = id ∨ key.2 = id then some (placeholder env id)
        else none
  relationships := fun src dst type =>
    match edges.get (src, dst) with
    | none => db.relationships src dst type
    | some p =>
      if edgeType p = type then
        some ((buildEdgeProps env src dst p).overlay ((db.relationships src dst type).getD
          (Props.none.fill "created_by" (env.createdBy.map .str))))
      else db.relationships src dst type

/-- `_flush_body` when every transaction commits. -/
def flush (b : Buffer) (db : Database) : Database :=
  (b.patches.foldl writePatch (db.writeNodes env b.nodes)).writeEdges env b.edges

end Database

end ContextIntelligence.Graph
