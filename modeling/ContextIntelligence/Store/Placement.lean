import ContextIntelligence.Graph.Flush
import ContextIntelligence.Handlers.Dispatch
import ContextIntelligence.Lib.Runs

/-!
# Where the flushes are put

Flushing after every call or only at the end leads to one database as long as each call can be
merged into what is pending (`Coalesces`): not where a blank value hides a pending one, an edge
changes its type or is removed, a patch meets a later row, or a value fills a gap. The law behind it
is about one call (`flush_call`).
-/

namespace ContextIntelligence.Store

open Lib Lib.Runs ContextIntelligence.Graph Handlers

/-! ## The store -/

structure Neo4jGraphStore where
  buffer : Buffer
  db : Database

def Neo4jGraphStore.on (db : Database) : Neo4jGraphStore := ⟨Buffer.empty, db⟩

inductive StoreAction where
  | call (c : Call)
  | flush

def storeStep (env : Env) (s : Neo4jGraphStore) : StoreAction → Neo4jGraphStore
  | .call c => { s with buffer := s.buffer.call c }
  | .flush => ⟨Buffer.empty, s.db.flush env s.buffer⟩

def calls (actions : List StoreAction) : List Call :=
  actions.filterMap fun action =>
    match action with
    | .call c => some c
    | .flush => none

/-! ## What can be merged into the buffer -/

/-- No field is blank in its row where the pending properties have a value. -/
def HidesNothing (env : Env) (p : Props) (fields : List (String × Value)) : Prop :=
  ∀ field ∈ fields, (rowValue env (Props.none.assign fields) field.1).isSome
    ∨ (rowValue env p field.1).isNone

def NoFill (p : Props) (key : String) : Prop := (p key).any Value.truthy = false

variable {p : Props} {key : String}

theorem NoFill.filter (h : NoFill p key) : (p key).filter Value.truthy = none := by
  unfold NoFill at h
  cases hval : p key with
  | none => rfl
  | some value =>
    rw [hval, Option.any_some] at h
    simp [h]

/-- The gap is filled by the pending row or by the call, whichever comes first: neither is the row
of a session, or the pending row has no value and the one of the call is that of a session, or the
call has no value and the pending row is that of a session. -/
def FillsOnce (row : Node) (labels : Finset String) (fields : List (String × Value))
    (key : String) : Prop :=
  "Session" ∉ row.labels ∪ labels
    ∨ NoFill row.props key ∧ ("Session" ∈ labels ∨ key ∉ fields.map Prod.fst)
    ∨ "Session" ∈ row.labels ∧ key ∉ fields.map Prod.fst

/-- A row that creates its node says who created it; an edge that does so first does not. -/
def FirstRow (env : Env) (s : Neo4jGraphStore) (id : NodeId) : Prop :=
  (s.buffer.nodes.get id).isSome ∨ (s.db.nodes id).isSome ∨ ¬ s.buffer.HasEnd id
    ∨ env.createdBy = none

def fillKeys : List String := ["working_dir", "status_if_absent"]

def Coalesces (env : Env) (s : Neo4jGraphStore) : StoreAction → Prop
  | .flush => True
  | .call (.upsertNode id labels fields) =>
    FirstRow env s id
      ∧ (∀ row ∈ s.buffer.nodes.get id, HidesNothing env row.props fields
        ∧ ∀ key ∈ fillKeys, FillsOnce row labels fields key)
      ∧ ∀ patch ∈ s.buffer.patches, patch.node = id → patch.Spares labels
  | .call (.upsertEdge src dst fields) =>
    ∀ p ∈ s.buffer.edges.get (src, dst),
      edgeType (Props.none.assign fields) = edgeType p ∧ HidesNothing env p fields
  | .call (.removeEdge src dst) => (s.buffer.edges.get (src, dst)).isNone
  | .call (.setLabels id remove add) =>
    FirstRow env s id
      ∧ (∀ row ∈ s.buffer.nodes.get id, ∀ key ∈ fillKeys, NoFill row.props key
        ∨ ("Session" ∈ (row.labels \ remove.toFinset) ∪ add.toFinset ↔ "Session" ∈ row.labels))
      ∧ (Patch.mk id remove add).Decides s.buffer.patches

instance (env : Env) (s : Neo4jGraphStore) (action : StoreAction) :
    Decidable (Coalesces env s action) := by
  unfold Coalesces FirstRow HidesNothing FillsOnce NoFill
  split <;> infer_instance

/-! ## Properties of two rows in turn -/

variable {fields : List (String × Value)}

variable {env : Env}

theorem rowValue_assign (h : HidesNothing env p fields) (key : String) :
    rowValue env (p.assign fields) key
      = (rowValue env (Props.none.assign fields) key).or (rowValue env p key) := by
  by_cases hkey : key ∈ fields.map Prod.fst
  · obtain ⟨field, hfield, rfl⟩ := List.mem_map.1 hkey
    have hval := h field hfield
    unfold rowValue at hval ⊢
    rw [Props.assign_apply]
    cases hassign : Props.none.assign fields field.1 with
    | none => simp
    | some value =>
      rw [hassign] at hval
      simp only [Option.some_or, Option.bind_some] at hval ⊢
      rcases hval with hnew | hold
      · rw [Option.or_eq_left_of_isSome hnew]
      · rw [Option.isNone_iff_eq_none.1 hold, Option.or_none]
  · simp [rowValue, assign_of_notMem hkey, Props.none]

theorem buildNodeProps_assign (h : HidesNothing env p fields) :
    buildNodeProps env (p.assign fields)
      = (buildNodeProps env (Props.none.assign fields)).overlay (buildNodeProps env p) := by
  funext key
  simp only [buildNodeProps, Props.overlay]
  split
  · rfl
  · split
    · rfl
    · exact rowValue_assign h key

theorem buildEdgeProps_assign (h : HidesNothing env p fields) (src dst : NodeId) :
    buildEdgeProps env src dst (p.assign fields)
      = (buildEdgeProps env src dst (Props.none.assign fields)).overlay
        (buildEdgeProps env src dst p) := by
  funext key
  simp only [buildEdgeProps, Props.overlay]
  repeat' split
  all_goals first | rfl | exact rowValue_assign h key

theorem overlay_assoc (a b c : Props) : (a.overlay b).overlay c = a.overlay (b.overlay c) := by
  funext key
  exact Option.or_assoc

theorem overlay_fill (a p : Props) (key : String) (value : Option Value) :
    a.overlay (p.fill key value) = (a.overlay p).fill key value := by
  funext key'
  by_cases h : key' = key
  · subst h
    simp [Props.overlay, Props.fill, Option.or_assoc]
  · simp [Props.overlay, Props.fill, Function.update_of_ne h]

theorem fill_fill (p : Props) (key : String) (first second : Option Value) :
    (p.fill key first).fill key second = p.fill key (first.or second) := by
  simp [Props.fill, Option.or_assoc]

theorem fill_comm (p : Props) {key key' : String} (h : key ≠ key') (a b : Option Value) :
    (p.fill key a).fill key' b = (p.fill key' b).fill key a := by
  simp [Props.fill, Function.update_of_ne h, Function.update_of_ne h.symm,
    Function.update_comm h]

theorem offered_assign {row : Node} {labels : Finset String} (h : FillsOnce row labels fields key) :
    offered ⟨row.labels ∪ labels, row.props.assign fields⟩ key
      = (offered row key).or (offered ⟨labels, Props.none.assign fields⟩ key) := by
  rcases h with hsess | ⟨hnone, hcall⟩ | ⟨hsess, hkey⟩
  · rw [Finset.mem_union, not_or] at hsess
    simp [offered, hsess]
  · have hrow : offered row key = none := by simp [offered, hnone.filter]
    rw [hrow, Option.none_or]
    by_cases hkey : key ∈ fields.map Prod.fst
    · have hlabs : "Session" ∈ labels := hcall.resolve_right fun h => h hkey
      simp only [offered, Finset.mem_union, hlabs, or_true, if_true, Props.assign_apply row.props]
      cases Props.none.assign fields key with
      | none => simpa using hnone.filter
      | some value => simp
    · simp [offered, assign_of_notMem hkey, Props.none, hnone.filter]
  · simp [offered, hsess, assign_of_notMem hkey, Props.none]

/-! ## Rows and patches in turn -/

section Rows

variable {row : Node} {patches : List Patch}

theorem mergeRow_upsert {labels : Finset String} {fields : List (String × Value)} {id : NodeId}
    (hvals : HidesNothing env row.props fields)
    (hfill : ∀ key ∈ fillKeys, FillsOnce row labels fields key)
    (hpatch : ∀ patch ∈ patches, patch.node = id → patch.Spares labels) (stored : Option Node) :
    (mergeRow env id ⟨row.labels ∪ labels, row.props.assign fields⟩ stored).relabel
        (patchLabels patches id)
      = mergeRow env id ⟨labels, Props.none.assign fields⟩
        (some ((mergeRow env id row stored).relabel (patchLabels patches id))) := by
  have hdir := offered_assign (hfill "working_dir" (by decide))
  have hstat := offered_assign (hfill "status_if_absent" (by decide))
  simp only [mergeRow_eq, Node.relabel, Option.getD_some, Node.mk.injEq]
  constructor
  · rw [← addLabels_addLabels, patchLabels_addLabels hpatch]
  · rw [hdir, hstat, buildNodeProps_assign hvals, overlay_assoc, overlay_fill, overlay_fill,
      fill_comm _ (by decide : "status" ≠ "working_dir"), fill_fill, fill_fill]

theorem overlay_bareRow {p : Props} (h : p "workspace" = some (.str env.workspace)) :
    (buildNodeProps env Props.none).overlay p = p := by
  funext key
  simp only [Props.overlay, buildNodeProps]
  split
  · rfl
  · split
    next hkey => rw [hkey, h, Option.some_or]
    next => rfl

theorem workspace_mergeRow (env : Env) (row : Node) (id : NodeId) (stored : Option Node) :
    (mergeRow env id row stored).props "workspace" = some (.str env.workspace) := by
  rw [mergeRow_eq]
  simp [Props.fill, Props.overlay, buildNodeProps]

theorem offered_relabelled {labels : Finset String} {key : String}
    (h : NoFill row.props key ∨ ("Session" ∈ labels ↔ "Session" ∈ row.labels)) :
    offered ⟨labels, row.props⟩ key = offered row key := by
  rcases h with hnone | hsess
  · simp [offered, hnone.filter]
  · simp [offered, hsess]

theorem mergeRow_setLabels {id : NodeId} {remove add : List String}
    (hfill : ∀ key ∈ fillKeys, NoFill row.props key
      ∨ ("Session" ∈ (row.labels \ remove.toFinset) ∪ add.toFinset ↔ "Session" ∈ row.labels))
    (hdecides : (Patch.mk id remove add).Decides patches) (stored : Option Node) :
    (mergeRow env id ⟨(row.labels \ remove.toFinset) ∪ add.toFinset, row.props⟩ stored).relabel
        (patchLabels (patches ++ [⟨id, remove, add⟩]) id)
      = (mergeRow env id ⟨add.toFinset, Props.none⟩
          (some ((mergeRow env id row stored).relabel (patchLabels patches id)))).relabel
        (patchLabels [⟨id, remove, add⟩] id) := by
  have hwork := workspace_mergeRow env row id stored
  have hdir := offered_relabelled (hfill "working_dir" (by decide))
  have hstat := offered_relabelled (hfill "status_if_absent" (by decide))
  have hbare (key : String) : offered ⟨add.toFinset, Props.none⟩ key = none := by
    simp [offered, Props.none]
  simp only [mergeRow_eq, Node.relabel, Option.getD_some, Node.mk.injEq]
  constructor
  · have h := patchedTogether_eq hdecides row.labels (stored.getD (created env id)).labels
    simpa [patchedTogether, patchedInTurn, patchLabels_append, patchLabels_cons] using h
  · rw [mergeRow_eq] at hwork
    rw [hdir, hstat, hbare, hbare, Props.fill_none, Props.fill_none, overlay_bareRow hwork]

end Rows

/-! ## One call with the rest, or after the rest -/

/-- Patches are queued only for nodes that have a row: `set_labels` writes both. -/
def Patched (b : Buffer) : Prop := ∀ patch ∈ b.patches, (b.nodes.get patch.node).isSome

theorem Patched.call {b : Buffer} (h : Patched b) (c : Call) : Patched (b.call c) := by
  have hset : ∀ (nodes : Dict NodeId Node) (id id' : NodeId) (node : Node),
      (nodes.get id').isSome → ((nodes.set id node).get id').isSome := by
    intro nodes id id' node hsome
    rw [Dict.get_set]
    split <;> simp [hsome]
  cases c with
  | upsertNode id labels fields =>
    intro patch hpatch
    exact hset _ _ _ _ (h patch hpatch)
  | upsertEdge src dst fields => exact h
  | removeEdge src dst => exact h
  | setLabels id remove add =>
    intro patch hpatch
    rcases List.mem_append.1 hpatch with hold | hnew
    · exact hset _ _ _ _ (h patch hold)
    · rw [List.mem_singleton.1 hnew]
      simp [Buffer.call, Buffer.setLabels]

theorem Patched.patchLabels_eq {b : Buffer} (h : Patched b) {id : NodeId}
    (hrow : b.nodes.get id = none) (labels : Finset String) :
    patchLabels b.patches id labels = labels := by
  apply patchLabels_of_forall_ne
  rintro patch hpatch rfl
  have hsome := h patch hpatch
  rw [hrow] at hsome
  cases hsome

section Calls

variable {s : Neo4jGraphStore}

theorem mergeRow_firstRow {id : NodeId} (hpatched : Patched s.buffer)
    (hrow : s.buffer.nodes.get id = none) (hfirst : FirstRow env s id) (row : Node) :
    mergeRow env id row ((s.db.flush env s.buffer).nodes id)
      = mergeRow env id row (s.db.nodes id) := by
  rw [nodes_flush, hrow, writeRow]
  have hlabs : Node.relabel (patchLabels s.buffer.patches id) = fun node => node := by
    funext node
    simp [Node.relabel, hpatched.patchLabels_eq hrow]
  rw [hlabs, Option.map_id']
  cases hstore : s.db.nodes id with
  | some node => rfl
  | none =>
    rw [Option.none_or]
    split
    next hend =>
      -- the edge leaves a placeholder, which differs from a created node in `created_by` alone
      have hnobody : env.createdBy = none := by
        simpa [FirstRow, hrow, hstore, hend] using hfirst
      have hsame : placeholder env id = created env id := by simp [created, hnobody]
      rw [mergeRow_eq, mergeRow_eq, Option.getD_some, Option.getD_none, hsame]
    next => rfl

theorem not_hasEnd_of_edges {b : Buffer} (h : b.edges = Dict.empty) (id : NodeId) :
    ¬ b.HasEnd id := by
  rintro ⟨key, hkey, -⟩
  rw [h] at hkey
  exact absurd hkey List.not_mem_nil

theorem nodes_flush_row (env : Env) (db : Database) (id : NodeId) (row : Node)
    {patches : List Patch} (hpatches : ∀ patch ∈ patches, patch.node = id) (id' : NodeId) :
    (db.flush env ⟨Dict.empty.set id row, Dict.empty, patches⟩).nodes id'
      = if id = id' then
          some ((mergeRow env id row (db.nodes id)).relabel (patchLabels patches id))
        else db.nodes id' := by
  rw [nodes_flush, if_neg (not_hasEnd_of_edges rfl id'), Option.or_none, Dict.get_set]
  by_cases hid : id = id'
  · subst hid
    simp [writeRow]
  · have hlabs : Node.relabel (patchLabels patches id') = fun node => node := by
      funext node
      have hother : ∀ patch ∈ patches, patch.node ≠ id' := fun patch hpatch heq =>
        hid ((hpatches patch hpatch).symm.trans heq)
      simp [Node.relabel, patchLabels_of_forall_ne hother]
    rw [if_neg hid, if_neg hid, hlabs, Option.map_id']
    rfl

theorem nodes_flush_set (env : Env) (b : Buffer) (db : Database) {id id' : NodeId} (row : Node)
    {patches : List Patch} (hpatches : ∀ patch ∈ patches, patch.node = id) (hid : id ≠ id') :
    (db.flush env { b with nodes := b.nodes.set id row, patches := b.patches ++ patches }).nodes id'
      = (db.flush env b).nodes id' := by
  have hother : ∀ patch ∈ patches, patch.node ≠ id' := fun patch hpatch heq =>
    hid ((hpatches patch hpatch).symm.trans heq)
  have hlabs : patchLabels (b.patches ++ patches) id' = patchLabels b.patches id' := by
    funext labels
    rw [patchLabels_append, patchLabels_of_forall_ne hother]
  rw [nodes_flush, nodes_flush, Dict.get_set_of_ne _ hid, hlabs]
  rfl

theorem upsertNode_empty (id : NodeId) (labels : Finset String) (fields : List (String × Value)) :
    Buffer.empty.upsertNode id labels fields
      = ⟨Dict.empty.set id ⟨labels, Props.none.assign fields⟩, Dict.empty, []⟩ := by
  have hblank : Buffer.empty.fragment id = Node.blank := rfl
  rw [Buffer.upsertNode, hblank, Node.blank, Finset.empty_union]
  rfl

theorem setLabels_empty (id : NodeId) (remove add : List String) :
    Buffer.empty.setLabels id remove add
      = ⟨Dict.empty.set id ⟨add.toFinset, Props.none⟩, Dict.empty, [⟨id, remove, add⟩]⟩ := by
  have hblank : Buffer.empty.fragment id = Node.blank := rfl
  rw [Buffer.setLabels, hblank, Node.blank, Finset.empty_sdiff, Finset.empty_union]
  rfl

/-- A row of one node, with patches of it: it is enough to compare what becomes of that node. -/
theorem flush_row {id : NodeId} {row alone : Node} {patches : List Patch}
    (hown : ∀ patch ∈ patches, patch.node = id)
    (h : (mergeRow env id row (s.db.nodes id)).relabel
        (patchLabels (s.buffer.patches ++ patches) id)
      = (mergeRow env id alone ((s.db.flush env s.buffer).nodes id)).relabel
        (patchLabels patches id)) :
    s.db.flush env ⟨s.buffer.nodes.set id row, s.buffer.edges, s.buffer.patches ++ patches⟩
      = (s.db.flush env s.buffer).flush env ⟨Dict.empty.set id alone, Dict.empty, patches⟩ := by
  apply Database.ext_get
  · intro id'
    rw [nodes_flush_row env _ id _ hown]
    by_cases hid : id = id'
    · subst hid
      rw [if_pos rfl, nodes_flush]
      simp only [Dict.get_set_self, writeRow, Option.map_some, Option.some_or, h]
    · rw [if_neg hid]
      exact nodes_flush_set env s.buffer s.db row hown hid
  · intro src dst type
    simp only [relationships_flush]
    rfl

theorem flush_upsertNode {id : NodeId} {labels : Finset String} {fields : List (String × Value)}
    (hpatched : Patched s.buffer) (h : Coalesces env s (.call (.upsertNode id labels fields))) :
    s.db.flush env (s.buffer.upsertNode id labels fields)
      = (s.db.flush env s.buffer).flush env (Buffer.empty.upsertNode id labels fields) := by
  obtain ⟨hfirst, hrow, hpatch⟩ := h
  rw [upsertNode_empty, Buffer.upsertNode, ← List.append_nil s.buffer.patches]
  apply flush_row (fun patch h => absurd h List.not_mem_nil)
  rw [List.append_nil]
  cases hget : s.buffer.nodes.get id with
  | none =>
    have hfrag : s.buffer.fragment id = Node.blank := by simp [Buffer.fragment, hget]
    rw [mergeRow_firstRow hpatched hget hfirst, hfrag]
    simp [Node.relabel, Node.blank, hpatched.patchLabels_eq hget]
  | some row =>
    obtain ⟨hvals, hfill⟩ := hrow row hget
    have hfrag : s.buffer.fragment id = row := by simp [Buffer.fragment, hget]
    rw [hfrag, mergeRow_upsert hvals hfill hpatch, nodes_flush, hget]
    rfl

theorem flush_setLabels {id : NodeId} {remove add : List String} (hpatched : Patched s.buffer)
    (h : Coalesces env s (.call (.setLabels id remove add))) :
    s.db.flush env (s.buffer.setLabels id remove add)
      = (s.db.flush env s.buffer).flush env (Buffer.empty.setLabels id remove add) := by
  obtain ⟨hfirst, hrow, hdecides⟩ := h
  rw [setLabels_empty]
  apply flush_row (by simp)
  cases hget : s.buffer.nodes.get id with
  | none =>
    have hfrag : s.buffer.fragment id = Node.blank := by simp [Buffer.fragment, hget]
    rw [mergeRow_firstRow hpatched hget hfirst, hfrag]
    simp [Node.relabel, Node.blank, patchLabels_append, hpatched.patchLabels_eq hget]
  | some row =>
    have hfrag : s.buffer.fragment id = row := by simp [Buffer.fragment, hget]
    rw [hfrag, mergeRow_setLabels (hrow row hget) hdecides, nodes_flush, hget]
    rfl

theorem hasEnd_upsertEdge (b : Buffer) (src dst id : NodeId) (fields : List (String × Value)) :
    (b.upsertEdge src dst fields).HasEnd id ↔ b.HasEnd id ∨ src = id ∨ dst = id := by
  simp only [Buffer.HasEnd, Buffer.upsertEdge, Dict.keys_set]
  split
  next hmem =>
    constructor
    · exact Or.inl
    · rintro (hold | hnew)
      · exact hold
      · exact ⟨(src, dst), hmem, hnew⟩
  next =>
    simp only [List.mem_append, List.mem_singleton, or_and_right, exists_or, exists_eq_left]

theorem flush_upsertEdge {src dst : NodeId} {fields : List (String × Value)}
    (h : Coalesces env s (.call (.upsertEdge src dst fields))) :
    s.db.flush env (s.buffer.upsertEdge src dst fields)
      = (s.db.flush env s.buffer).flush env (Buffer.empty.upsertEdge src dst fields) := by
  apply Database.ext_get
  · intro id
    have hend := hasEnd_upsertEdge s.buffer src dst id fields
    have halone := hasEnd_upsertEdge Buffer.empty src dst id fields
    have hempty : ¬ Buffer.empty.HasEnd id := not_hasEnd_of_edges rfl id
    have hself (node : Option Node) : (writeRow env id
        ((Buffer.empty.upsertEdge src dst fields).nodes.get id) node).map
          (Node.relabel (patchLabels (Buffer.empty.upsertEdge src dst fields).patches id)) = node :=
      Option.map_id'
    rw [nodes_flush, nodes_flush env (Buffer.empty.upsertEdge src dst fields), hself, nodes_flush]
    simp only [hend, halone, hempty, false_or, Option.or_assoc]
    congr 1
    by_cases hpend : s.buffer.HasEnd id
    · simp [hpend]
    · simp [hpend]
  · intro src' dst' type
    simp only [relationships_flush, Buffer.upsertEdge]
    by_cases hpair : (src, dst) = (src', dst')
    · rw [Prod.mk.injEq] at hpair
      obtain ⟨rfl, rfl⟩ := hpair
      have halone : (Buffer.empty.edges.get (src, dst)).getD Props.none = Props.none := rfl
      rw [Dict.get_set_self, Dict.get_set_self, halone]
      cases hget : s.buffer.edges.get (src, dst) with
      | none => rfl
      | some p =>
        obtain ⟨htype, hvals⟩ := h p hget
        have hkept : edgeType (p.assign fields) = edgeType p :=
          (edgeType_assign p fields).elim (·.trans htype) id
        by_cases hp : edgeType p = type
        · simp [writeEdge, htype, hkept, hp, buildEdgeProps_assign hvals, overlay_assoc]
        · simp [writeEdge, htype, hkept, hp]
    · rw [Dict.get_set_of_ne _ hpair, Dict.get_set_of_ne _ hpair]
      rfl

theorem erase_of_get_none {κ ν : Type} [DecidableEq κ] {d : Dict κ ν} {k : κ}
    (h : d.get k = none) : d.erase k = d := by
  have hkeys : ∀ entry ∈ d.entries, entry.1 ≠ k := fun entry hentry heq =>
    Dict.get_eq_none.1 h (List.mem_map.2 ⟨entry, hentry, heq⟩)
  cases d
  simp only [Dict.erase, Dict.mk.injEq]
  exact List.filter_eq_self.2 fun entry hentry => decide_eq_true (hkeys entry hentry)

theorem flush_removeEdge {src dst : NodeId} (h : Coalesces env s (.call (.removeEdge src dst))) :
    s.db.flush env (s.buffer.removeEdge src dst)
      = (s.db.flush env s.buffer).flush env (Buffer.empty.removeEdge src dst) := by
  have hnothing : s.buffer.removeEdge src dst = s.buffer := by
    rw [Buffer.removeEdge, erase_of_get_none (Option.isNone_iff_eq_none.1 h)]
  have hempty : Buffer.empty.removeEdge src dst = Buffer.empty := rfl
  rw [hnothing, hempty, flush_empty]

theorem flush_call (hpatched : Patched s.buffer) {c : Call} (h : Coalesces env s (.call c)) :
    s.db.flush env (s.buffer.call c)
      = (s.db.flush env s.buffer).flush env (Buffer.empty.call c) := by
  cases c with
  | upsertNode id labels fields => exact flush_upsertNode hpatched h
  | upsertEdge src dst fields => exact flush_upsertEdge h
  | removeEdge src dst => exact flush_removeEdge h
  | setLabels id remove add => exact flush_setLabels hpatched h

end Calls

/-! ## Runs -/

def eager (env : Env) (db : Database) (cs : List Call) : Database :=
  cs.foldl (fun db c => db.flush env (Buffer.empty.call c)) db

theorem flush_run {s : Neo4jGraphStore} (hpatched : Patched s.buffer)
    {actions : List StoreAction} (h : Along (storeStep env) (Coalesces env) s actions) :
    (run (storeStep env) s (actions ++ [.flush])).db
      = eager env (s.db.flush env s.buffer) (calls actions) := by
  induction actions generalizing s with
  | nil => rfl
  | cons action rest ih =>
    obtain ⟨hstep, hrest⟩ := h
    rw [List.cons_append, run_cons]
    cases action with
    | call c =>
      rw [ih (hpatched.call c) hrest]
      exact congrArg (eager env · (calls rest)) (flush_call hpatched hstep)
    | flush =>
      have hempty : Patched (storeStep env s .flush).buffer :=
        fun patch h => absurd h List.not_mem_nil
      rw [ih hempty hrest]
      exact congrArg (eager env · (calls rest)) (flush_empty env _)

/-- Two runs of the same calls that end with a flush lead to the same database, wherever their
other flushes are, if in both every call can be merged into what is pending. -/
theorem flushPlacement (env : Env) (db : Database) (as bs : List StoreAction)
    (hcalls : calls as = calls bs) (has : Along (storeStep env) (Coalesces env) (.on db) as)
    (hbs : Along (storeStep env) (Coalesces env) (.on db) bs) :
    (run (storeStep env) (.on db) (as ++ [.flush])).db
      = (run (storeStep env) (.on db) (bs ++ [.flush])).db := by
  have hempty : Patched (Neo4jGraphStore.on db).buffer := fun patch h => absurd h List.not_mem_nil
  rw [flush_run hempty has, flush_run hempty hbs, hcalls]

/-- The calls of a session that starts, flushed at the end only. -/
def startTogether : List StoreAction :=
  [.call (.upsertNode "s" {"Session", "StubSession"}
      [("status_if_absent", .str "running"), ("session_id", .str "s")]),
    .call (.upsertNode "s" {"Session"} [("started_at", .str "2026-01-01T00:00:00+00:00")]),
    .call (.setLabels "s" ["StubSession"] ["RootSession", "Session", "SST_EVENT"]),
    .call (.upsertEdge "s" "e" (semantic "HAS_EVENT" "CONTAINS"))]

def startInTwo : List StoreAction := startTogether.take 2 ++ [.flush] ++ startTogether.drop 2

theorem flushPlacement_start :
    calls startTogether = calls startInTwo
      ∧ Along (storeStep sampleEnv) (Coalesces sampleEnv) (.on Database.empty) startTogether
      ∧ Along (storeStep sampleEnv) (Coalesces sampleEnv) (.on Database.empty) startInTwo
      ∧ (run (storeStep sampleEnv) (.on Database.empty) (startTogether ++ [.flush])).db
        = (run (storeStep sampleEnv) (.on Database.empty) (startInTwo ++ [.flush])).db :=
  have htogether : Along (storeStep sampleEnv) (Coalesces sampleEnv) (.on Database.empty)
      startTogether := by decide +kernel
  have hint : Along (storeStep sampleEnv) (Coalesces sampleEnv) (.on Database.empty)
      startInTwo := by decide +kernel
  ⟨rfl, htogether, hint,
    flushPlacement sampleEnv Database.empty startTogether startInTwo rfl htogether hint⟩

/-- Two edges of one pair, as a handler and the default handler ask for them. -/
def edgesTogether : List StoreAction :=
  [.call (.upsertEdge "s" "e" (semantic "HAS_EVENT" "CONTAINS")),
    .call (.upsertEdge "s" "e" sourcedFrom)]

def edgesInTwo : List StoreAction := edgesTogether.take 1 ++ [.flush] ++ edgesTogether.drop 1

theorem edgesTogether_ne_edgesInTwo :
    calls edgesTogether = calls edgesInTwo
      ∧ (run (storeStep sampleEnv) (.on Database.empty) (edgesTogether ++ [.flush])).db
        ≠ (run (storeStep sampleEnv) (.on Database.empty) (edgesInTwo ++ [.flush])).db := by
  refine ⟨rfl, fun h => ?_⟩
  have hstore := congrArg (fun db => (db.relationships "s" "e" "HAS_EVENT").isSome) h
  exact absurd hstore (by decide +kernel)

end ContextIntelligence.Store
