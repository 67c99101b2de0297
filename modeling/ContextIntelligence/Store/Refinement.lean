import ContextIntelligence.Handlers.Traced
import ContextIntelligence.Store.Placement

/-!
# Buffered reads and the in-memory store

`Neo4jGraphStore.get_node` shows the buffered row alone; it agrees with the in-memory `GraphState`
after every step exactly when no step makes them part (`ShowsAll`). What is compared is what a
handler can see: presence, the labels but `:Node`, and the properties without the bookkeeping of the
store, null being no value and times being instants.
-/

namespace ContextIntelligence.Store

open Lib Lib.Runs ContextIntelligence.Graph Handlers

/-! ## The in-memory store -/

structure GraphState where
  nodes : Dict NodeId Node
  edges : Dict (NodeId × NodeId) Props

namespace GraphState

def empty : GraphState := ⟨Dict.empty, Dict.empty⟩

def getNode (g : GraphState) (id : NodeId) : Option Node := g.nodes.get id

/-- The properties after an upsert: `status_if_absent` is not one of them, it gives the status of a
node that has none. -/
def assignFields (p : Props) (fields : List (String × Value)) : Props :=
  let assigned := p.assign (fields.filter fun field => field.1 ≠ "status_if_absent")
  match Props.none.assign fields "status_if_absent" with
  | none => assigned
  | some provisional =>
    if ¬ provisional.isNull ∧ ¬ (assigned "status").any Value.truthy then
      Function.update assigned "status" (some provisional)
    else assigned

def upsertNode (id : NodeId) (labels : Finset String) (fields : List (String × Value))
    (g : GraphState) : GraphState :=
  let old := (g.nodes.get id).getD Node.blank
  { g with nodes := g.nodes.set id ⟨old.labels ∪ labels, assignFields old.props fields⟩ }

def upsertEdge (src dst : NodeId) (fields : List (String × Value)) (g : GraphState) : GraphState :=
  let old := (g.edges.get (src, dst)).getD Props.none
  { g with edges := g.edges.set (src, dst) (old.assign fields) }

def removeEdge (src dst : NodeId) (g : GraphState) : GraphState :=
  { g with edges := g.edges.erase (src, dst) }

def setLabels (id : NodeId) (remove add : List String) (g : GraphState) : GraphState :=
  let old := (g.nodes.get id).getD Node.blank
  { g with
    nodes := g.nodes.set id ⟨(old.labels \ remove.toFinset) ∪ add.toFinset, old.props⟩ }

def call (g : GraphState) : Call → GraphState
  | .upsertNode id labels fields => g.upsertNode id labels fields
  | .upsertEdge src dst fields => g.upsertEdge src dst fields
  | .removeEdge src dst => g.removeEdge src dst
  | .setLabels id remove add => g.setLabels id remove add

end GraphState

/-- `get_node` of the buffered store, the read being answered. -/
def Neo4jGraphStore.getNode (s : Neo4jGraphStore) (id : NodeId) : Option Node :=
  (s.buffer.nodes.get id).or (s.db.nodes id)

/-! ## What a handler can see -/

/-- A property as it is compared: null is no value, a time is an instant. -/
def seenValue (env : Env) (key : String) (value : Value) : Option Value :=
  let converted := convertTemporal env key value
  if converted.isNull then none else some converted

def seen (env : Env) (p : Props) (key : String) : Option Value :=
  (p key).bind (seenValue env key)

def bookkeeping : List String := ["node_id", "workspace", "created_by", "labels"]

structure Alike (env : Env) (node other : Node) : Prop where
  labels : ∀ label, label ≠ "Node" → (label ∈ node.labels ↔ label ∈ other.labels)
  values : ∀ key ∉ bookkeeping, seen env node.props key = seen env other.props key

/-- Both reads find a node that looks the same, or both find none. -/
def Agree (env : Env) : Option Node → Option Node → Prop
  | some node, some other => Alike env node other
  | none, none => True
  | _, _ => False

/-! ## The two stores side by side -/

structure Twins where
  store : Neo4jGraphStore
  mem : GraphState

def twinStep (env : Env) (t : Twins) (action : StoreAction) : Twins where
  store := storeStep env t.store action
  mem := match action with
    | .call c => t.mem.call c
    | .flush => t.mem

/-- Every `get_node` of the buffered store agrees with the in-memory store. -/
def Refines (env : Env) (t : Twins) : Prop :=
  ∀ id, Agree env (t.store.getNode id) (t.mem.getNode id)

/-- The value of a property after a row was merged into the stored properties. -/
def mergedValue (env : Env) (row : Node) (stored : Props) (key : String) : Option Value :=
  if key = "working_dir" then (stored key).or (offered row key)
  else if key = "status_if_absent" then stored key
  else if key = "status" then
    ((rowValue env row.props key).or (stored key)).or (offered row "status_if_absent")
  else (rowValue env row.props key).or (stored key)

/-- A flush leaves the row of a node as it was: the labels and values that come from the stored node
or from the patches are those of the row, and none of the row is lost. -/
structure RowSurvives (env : Env) (s : Neo4jGraphStore) (id : NodeId) (row : Node) : Prop where
  labels : ∀ label, label ≠ "Node" →
    (label ∈ patchLabels s.buffer.patches id
        (addLabels row.labels ((s.db.nodes id).getD (created env id)).labels)
      ↔ label ∈ row.labels)
  values : ∀ key ∉ bookkeeping,
    (mergedValue env row ((s.db.nodes id).getD (created env id)).props key).bind (seenValue env key)
      = seen env row.props key

/-- The step hides nothing that is stored and shows nothing that is not to be seen. -/
def ShowsAll (env : Env) (s : Neo4jGraphStore) : StoreAction → Prop
  | .call (.upsertNode id labels fields) =>
    seen env (Props.none.assign fields) "status_if_absent" = none
      ∧ (s.buffer.nodes.get id = none → ∀ node ∈ s.db.nodes id,
        (∀ label ∈ node.labels, label ≠ "Node" → label ∈ labels)
        ∧ ∀ key ∉ bookkeeping, key ∉ fields.map Prod.fst → seen env node.props key = none)
  | .call (.setLabels id remove add) =>
    s.buffer.nodes.get id = none → ∀ node ∈ s.db.nodes id,
      (∀ label ∈ node.labels, label ≠ "Node" → label ∈ remove ∨ label ∈ add)
      ∧ ∀ key ∉ bookkeeping, seen env node.props key = none
  | .call (.upsertEdge _ _ _) => True
  | .call (.removeEdge _ _) => True
  | .flush =>
    (∀ id, s.buffer.HasEnd id → (s.getNode id).isSome)
      ∧ ∀ id, ∀ row ∈ s.buffer.nodes.get id, RowSurvives env s id row

/-! ## Nodes that look the same -/

section Nodes

variable {env : Env} {node other : Node}

theorem Alike.symm (h : Alike env node other) : Alike env other node :=
  ⟨fun label hlab => (h.labels label hlab).symm, fun key hkey => (h.values key hkey).symm⟩

theorem Alike.trans {a b c : Node} (hab : Alike env a b) (hbc : Alike env b c) : Alike env a c :=
  ⟨fun label hlab => (hab.labels label hlab).trans (hbc.labels label hlab),
    fun key hkey => (hab.values key hkey).trans (hbc.values key hkey)⟩

theorem seen_status_if_absent (p : Props) :
    seen env p "status_if_absent" = (p "status_if_absent").filter fun value => ¬ value.isNull := by
  have hkey : "status_if_absent" ∉ temporalProps := by decide
  unfold seen
  cases h : p "status_if_absent" with
  | none => rfl
  | some value =>
    have hsame : convertTemporal env "status_if_absent" value = value := by
      unfold convertTemporal
      split
      · simp [hkey, Value.str]
      · rfl
    cases hnull : value.isNull <;> simp [seenValue, hsame, hnull, Option.filter_some]

variable {fields : List (String × Value)}

theorem assignFields_of_seen
    (h : seen env (Props.none.assign fields) "status_if_absent" = none) (p : Props) :
    GraphState.assignFields p fields
      = p.assign (fields.filter fun field => field.1 ≠ "status_if_absent") := by
  rw [seen_status_if_absent] at h
  unfold GraphState.assignFields
  cases hprovided : Props.none.assign fields "status_if_absent" with
  | none => rfl
  | some provisional =>
    rw [hprovided] at h
    have hnull : provisional.isNull = true := by simpa using h
    simp [hnull]

theorem assign_filter_of_ne {key hidden : String} (h : key ≠ hidden) (p : Props) :
    p.assign (fields.filter fun field => field.1 ≠ hidden) key = p.assign fields key := by
  induction fields using List.reverseRecOn with
  | nil => rfl
  | append_singleton rest field ih =>
    by_cases hfield : field.1 = hidden
    · have hother : key ≠ field.1 := fun heq => h (heq.trans hfield)
      simpa [List.filter_append, hfield, Props.assign, Function.update_of_ne, h] using ih
    · by_cases hkey : key = field.1
      · simp [List.filter_append, hfield, Props.assign, hkey]
      · simpa [List.filter_append, hfield, Props.assign, Function.update_of_ne hkey] using ih

theorem assignFields_status_if_absent {p : Props} (h : p "status_if_absent" = none)
    (fields : List (String × Value)) :
    GraphState.assignFields p fields "status_if_absent" = none := by
  have hhid : p.assign (fields.filter fun field => field.1 ≠ "status_if_absent")
      "status_if_absent" = none := by
    rw [assign_of_notMem _ p, h]
    simp
  unfold GraphState.assignFields
  cases Props.none.assign fields "status_if_absent" with
  | none => exact hhid
  | some provisional =>
    dsimp only
    split
    · rw [Function.update_of_ne (by decide)]
      exact hhid
    · exact hhid

theorem alike_upsert_iff (hfields : seen env (Props.none.assign fields) "status_if_absent" = none)
    (hother : other.props "status_if_absent" = none) (labels : Finset String) :
    Alike env ⟨node.labels ∪ labels, node.props.assign fields⟩
        ⟨other.labels ∪ labels, GraphState.assignFields other.props fields⟩
      ↔ (∀ label, label ≠ "Node" → label ∉ labels → (label ∈ node.labels ↔ label ∈ other.labels))
        ∧ ∀ key ∉ bookkeeping, key ∉ fields.map Prod.fst →
          seen env node.props key = seen env other.props key := by
  rw [assignFields_of_seen hfields]
  constructor
  · intro h
    constructor
    · intro label hlab hnew
      simpa [hnew] using h.labels label hlab
    · intro key hkey hnew
      have hval := h.values key hkey
      have hnew' : key ∉ (fields.filter fun field => field.1 ≠ "status_if_absent").map Prod.fst :=
        fun hmem => hnew (List.map_subset _ (List.filter_subset_self fields) hmem)
      simpa only [seen, assign_of_notMem hnew, assign_of_notMem hnew'] using hval
  · rintro ⟨hlabs, hvals⟩
    constructor
    · intro label hlab
      by_cases hnew : label ∈ labels
      · simp [hnew]
      · simpa [hnew] using hlabs label hlab hnew
    · intro key hkey
      by_cases hnew : key ∈ fields.map Prod.fst
      · by_cases hstat : key = "status_if_absent"
        · subst hstat
          have hhid : "status_if_absent"
              ∉ (fields.filter fun field => field.1 ≠ "status_if_absent").map Prod.fst := by simp
          simpa only [seen, assign_of_mem hnew, assign_of_notMem hhid, hother, Option.bind_none]
            using hfields
        · simp only [seen, assign_filter_of_ne hstat, assign_of_mem hnew]
      · have hnew' : key ∉ (fields.filter fun field => field.1 ≠ "status_if_absent").map Prod.fst :=
          fun hmem => hnew (List.map_subset _ (List.filter_subset_self fields) hmem)
        simpa only [seen, assign_of_notMem hnew, assign_of_notMem hnew'] using hvals key hkey hnew

theorem Alike.no_provisional
    {labels labels' : Finset String} (hother : other.props "status_if_absent" = none)
    (h : Alike env ⟨labels, node.props.assign fields⟩
      ⟨labels', GraphState.assignFields other.props fields⟩) :
    seen env (Props.none.assign fields) "status_if_absent" = none := by
  by_cases hnew : "status_if_absent" ∈ fields.map Prod.fst
  · have hval := h.values "status_if_absent" (by decide)
    simpa only [seen, assign_of_mem hnew, assignFields_status_if_absent hother, Option.bind_none]
      using hval
  · simp [seen, assign_of_notMem hnew, Props.none]

theorem Alike.relabel (h : Alike env node other) (remove add : List String) :
    Alike env ⟨(node.labels \ remove.toFinset) ∪ add.toFinset, node.props⟩
      ⟨(other.labels \ remove.toFinset) ∪ add.toFinset, other.props⟩ := by
  refine ⟨fun label hlab => ?_, h.values⟩
  simp [h.labels label hlab]

theorem alike_bare_iff {other : Node} {remove add : List String} :
    Alike env ⟨(∅ \ remove.toFinset) ∪ add.toFinset, Props.none⟩
        ⟨(other.labels \ remove.toFinset) ∪ add.toFinset, other.props⟩
      ↔ (∀ label ∈ other.labels, label ≠ "Node" → label ∈ remove ∨ label ∈ add)
        ∧ ∀ key ∉ bookkeeping, seen env other.props key = none := by
  constructor
  · intro h
    constructor
    · intro label hmem hlab
      have := h.labels label hlab
      simp only [Finset.empty_sdiff, Finset.empty_union, Finset.mem_union, Finset.mem_sdiff,
        List.mem_toFinset, hmem] at this
      tauto
    · intro key hkey
      exact (h.values key hkey).symm
  · rintro ⟨hlabs, hvals⟩
    constructor
    · intro label hlab
      have := fun hmem => hlabs label hmem hlab
      simp only [Finset.empty_sdiff, Finset.empty_union, Finset.mem_union, Finset.mem_sdiff,
        List.mem_toFinset]
      tauto
    · intro key hkey
      exact (hvals key hkey).symm

theorem props_mergeRow (id : NodeId) (row : Node) (stored : Option Node) {key : String}
    (hkey : key ∉ bookkeeping) :
    (mergeRow env id row stored).props key
      = mergedValue env row (stored.getD (created env id)).props key := by
  rw [mergeRow_eq]
  simp only [bookkeeping, List.mem_cons, List.not_mem_nil, or_false, not_or] at hkey
  obtain ⟨-, hwork, hcreated, hlabs⟩ := hkey
  by_cases hdir : key = "working_dir"
  · subst hdir
    simp [mergedValue, Props.fill, Props.overlay, buildNodeProps]
  · by_cases habs : key = "status_if_absent"
    · subst habs
      simp [mergedValue, Props.fill, Props.overlay, buildNodeProps]
    · by_cases hstat : key = "status"
      · subst hstat
        simp [mergedValue, Props.fill, Props.overlay, buildNodeProps]
      · simp [mergedValue, Props.fill, Props.overlay, buildNodeProps, hdir, habs, hstat,
          hwork, hcreated, hlabs]

theorem rowSurvives_iff (s : Neo4jGraphStore) (id : NodeId) (row : Node) :
    RowSurvives env s id row
      ↔ Alike env ((mergeRow env id row (s.db.nodes id)).relabel (patchLabels s.buffer.patches id))
        row := by
  constructor
  · intro h
    constructor
    · intro label hlab
      simpa [Node.relabel, mergeRow_eq] using h.labels label hlab
    · intro key hkey
      simpa [seen, Node.relabel, props_mergeRow id row _ hkey] using h.values key hkey
  · intro h
    constructor
    · intro label hlab
      simpa [Node.relabel, mergeRow_eq] using h.labels label hlab
    · intro key hkey
      simpa [seen, Node.relabel, props_mergeRow id row _ hkey] using h.values key hkey

end Nodes

/-! ## One step -/

/-- The two stores agree, and each keeps its shape. -/
structure Joined (env : Env) (t : Twins) : Prop where
  refines : Refines env t
  patched : Patched t.store.buffer
  settled : ∀ id, ∀ node ∈ t.mem.nodes.get id, node.props "status_if_absent" = none

section Steps

variable {env : Env} {t : Twins}

theorem Joined.settled_getD (h : Joined env t) (id : NodeId) :
    ((t.mem.nodes.get id).getD Node.blank).props "status_if_absent" = none := by
  cases hget : t.mem.nodes.get id with
  | none => rfl
  | some node => exact h.settled id node hget

theorem Agree.cases {node other : Option Node} (h : Agree env node other) :
    node = none ∧ other = none
      ∨ ∃ n m, node = some n ∧ other = some m ∧ Alike env n m := by
  cases node with
  | none =>
    cases other with
    | none => exact .inl ⟨rfl, rfl⟩
    | some m => exact h.elim
  | some n =>
    cases other with
    | none => exact h.elim
    | some m => exact .inr ⟨n, m, rfl, rfl, h⟩

theorem Agree.any_label {node other : Option Node} (h : Agree env node other) (label : String)
    (hlab : label ≠ "Node") :
    node.any (fun n => label ∈ n.labels) = other.any (fun n => label ∈ n.labels) := by
  obtain ⟨rfl, rfl⟩ | ⟨n, m, rfl, rfl, halive⟩ := h.cases
  · rfl
  · simp [halive.labels label hlab]

variable {id : NodeId}

theorem refines_iff_of_write {t' : Twins} (h : Joined env t) {node other : Node}
    (hstore : ∀ id', t'.store.getNode id' = if id = id' then some node else t.store.getNode id')
    (hmem : ∀ id', t'.mem.getNode id' = if id = id' then some other else t.mem.getNode id') :
    Refines env t' ↔ Alike env node other := by
  constructor
  · intro hrefines
    have hid := hrefines id
    rwa [hstore, hmem, if_pos rfl, if_pos rfl] at hid
  · intro halive id'
    rw [hstore, hmem]
    by_cases hid : id = id'
    · rwa [if_pos hid, if_pos hid]
    · rw [if_neg hid, if_neg hid]
      exact h.refines id'

theorem getNode_set (b : Buffer) (db : Database) (id id' : NodeId) (row : Node)
    (patches : List Patch) :
    (Neo4jGraphStore.mk ⟨b.nodes.set id row, b.edges, patches⟩ db).getNode id'
      = if id = id' then some row else (Neo4jGraphStore.mk b db).getNode id' := by
  rw [Neo4jGraphStore.getNode, Dict.get_set]
  by_cases hid : id = id'
  · simp [hid]
  · simp [hid, Neo4jGraphStore.getNode]

theorem Joined.unbuffered (h : Joined env t) (hrow : t.store.buffer.nodes.get id = none) :
    Agree env (t.store.db.nodes id) (t.mem.nodes.get id) := by
  have hagree := h.refines id
  rwa [Neo4jGraphStore.getNode, hrow, Option.none_or] at hagree

theorem Joined.buffered (h : Joined env t) {id : NodeId} {row : Node}
    (hrow : t.store.buffer.nodes.get id = some row) :
    ∃ other, t.mem.nodes.get id = some other ∧ Alike env row other := by
  have hagree := h.refines id
  rw [Neo4jGraphStore.getNode, hrow, Option.some_or] at hagree
  obtain ⟨hnone, -⟩ | ⟨n, m, hn, hm, halive⟩ := hagree.cases
  · cases hnone
  · cases hn
    exact ⟨m, hm, halive⟩

theorem fragment_of_none {b : Buffer} (h : b.nodes.get id = none) : b.fragment id = Node.blank := by
  rw [Buffer.fragment, h, Option.getD_none]

theorem fragment_of_some {b : Buffer} {row : Node} (h : b.nodes.get id = some row) :
    b.fragment id = row := by
  rw [Buffer.fragment, h, Option.getD_some]

theorem refines_upsertNode_iff (h : Joined env t) (id : NodeId) (labels : Finset String)
    (fields : List (String × Value)) :
    Refines env (twinStep env t (.call (.upsertNode id labels fields)))
      ↔ ShowsAll env t.store (.call (.upsertNode id labels fields)) := by
  have hother := h.settled_getD id
  have hwrite : Refines env (twinStep env t (.call (.upsertNode id labels fields)))
      ↔ Alike env
        ⟨(t.store.buffer.fragment id).labels ∪ labels,
          (t.store.buffer.fragment id).props.assign fields⟩
        ⟨((t.mem.nodes.get id).getD Node.blank).labels ∪ labels,
          GraphState.assignFields ((t.mem.nodes.get id).getD Node.blank).props fields⟩ :=
    refines_iff_of_write h (fun id' => getNode_set t.store.buffer t.store.db id id' _ _)
      (fun id' => Dict.get_set t.mem.nodes id id' _)
  rw [hwrite]
  constructor
  · intro halive
    have hfields := halive.no_provisional hother
    rw [alike_upsert_iff hfields hother] at halive
    refine ⟨hfields, fun hrow node hnode => ?_⟩
    -- the buffer shows the new row alone, the in-memory store what is stored as well
    have hagree := h.unbuffered hrow
    rw [Option.mem_def.1 hnode] at hagree
    obtain ⟨hnone, -⟩ | ⟨n, m, hn, hm, hsame⟩ := hagree.cases
    · cases hnone
    · cases hn
      rw [fragment_of_none hrow, hm, Option.getD_some] at halive
      constructor
      · intro label hmem hlab
        by_contra hnew
        exact Finset.notMem_empty label
          ((halive.1 label hlab hnew).2 ((hsame.labels label hlab).1 hmem))
      · intro key hkey hnew
        exact (hsame.values key hkey).trans (halive.2 key hkey hnew).symm
  · rintro ⟨hfields, hfirst⟩
    rw [alike_upsert_iff hfields hother]
    cases hrow : t.store.buffer.nodes.get id with
    | some row =>
      obtain ⟨other, hget, hsame⟩ := h.buffered hrow
      rw [fragment_of_some hrow, hget, Option.getD_some]
      exact ⟨fun label hlab _ => hsame.labels label hlab,
        fun key hkey _ => hsame.values key hkey⟩
    | none =>
      rw [fragment_of_none hrow]
      obtain ⟨-, hmem⟩ | ⟨n, m, hn, hm, hsame⟩ := (h.unbuffered hrow).cases
      · rw [hmem, Option.getD_none]
        exact ⟨fun _ _ _ => Iff.rfl, fun _ _ _ => rfl⟩
      · obtain ⟨hlabs, hvals⟩ := hfirst hrow n hn
        rw [hm, Option.getD_some]
        constructor
        · intro label hlab hnew
          constructor
          · intro hmem
            exact absurd hmem (Finset.notMem_empty label)
          · intro hmem
            exact absurd (hlabs label ((hsame.labels label hlab).2 hmem) hlab) hnew
        · intro key hkey hnew
          exact (hvals key hkey hnew).symm.trans (hsame.values key hkey)

theorem refines_setLabels_iff (h : Joined env t) (id : NodeId) (remove add : List String) :
    Refines env (twinStep env t (.call (.setLabels id remove add)))
      ↔ ShowsAll env t.store (.call (.setLabels id remove add)) := by
  have hwrite : Refines env (twinStep env t (.call (.setLabels id remove add)))
      ↔ Alike env
        ⟨((t.store.buffer.fragment id).labels \ remove.toFinset) ∪ add.toFinset,
          (t.store.buffer.fragment id).props⟩
        ⟨(((t.mem.nodes.get id).getD Node.blank).labels \ remove.toFinset) ∪ add.toFinset,
          ((t.mem.nodes.get id).getD Node.blank).props⟩ :=
    refines_iff_of_write h (fun id' => getNode_set t.store.buffer t.store.db id id' _ _)
      (fun id' => Dict.get_set t.mem.nodes id id' _)
  rw [hwrite]
  cases hrow : t.store.buffer.nodes.get id with
  | some row =>
    obtain ⟨other, hget, hsame⟩ := h.buffered hrow
    rw [fragment_of_some hrow, hget, Option.getD_some]
    constructor
    · intro _ hnone
      rw [hrow] at hnone
      cases hnone
    · intro _
      exact hsame.relabel remove add
  | none =>
    rw [fragment_of_none hrow, Node.blank, alike_bare_iff]
    obtain ⟨hstore, hmem⟩ | ⟨n, m, hn, hm, hsame⟩ := (h.unbuffered hrow).cases
    · rw [hmem, Option.getD_none]
      constructor
      · intro _ _ node hnode
        rw [hstore] at hnode
        cases hnode
      · intro _
        exact ⟨fun label hlab => absurd hlab (Finset.notMem_empty label), fun _ _ => rfl⟩
    · rw [hm, Option.getD_some]
      constructor
      · rintro ⟨hlabs, hvals⟩ - node hnode
        rw [hn] at hnode
        cases hnode
        exact ⟨fun label hmem hlab =>
            hlabs label ((hsame.labels label hlab).1 hmem) hlab,
          fun key hkey => (hsame.values key hkey).trans (hvals key hkey)⟩
      · intro hshows
        obtain ⟨hlabs, hvals⟩ := hshows hrow n hn
        exact ⟨fun label hmem hlab =>
            hlabs label ((hsame.labels label hlab).2 hmem) hlab,
          fun key hkey => (hsame.values key hkey).symm.trans (hvals key hkey)⟩

theorem getNode_flush_unbuffered (h : Joined env t) (hrow : t.store.buffer.nodes.get id = none) :
    (storeStep env t.store .flush).getNode id
      = (t.store.db.nodes id).or
        (if t.store.buffer.HasEnd id then some (placeholder env id) else none) := by
  have hlabs : Node.relabel (patchLabels t.store.buffer.patches id) = fun node => node := by
    funext node
    simp [Node.relabel, h.patched.patchLabels_eq hrow]
  have hnodes := nodes_flush env t.store.buffer t.store.db id
  rw [hrow, hlabs, Option.map_id'] at hnodes
  exact hnodes

theorem getNode_flush_buffered {row : Node} (hrow : t.store.buffer.nodes.get id = some row) :
    (storeStep env t.store .flush).getNode id
      = some ((mergeRow env id row (t.store.db.nodes id)).relabel
        (patchLabels t.store.buffer.patches id)) := by
  have hnodes := nodes_flush env t.store.buffer t.store.db id
  rw [hrow] at hnodes
  exact hnodes

theorem refines_flush_iff (h : Joined env t) :
    Refines env (twinStep env t .flush) ↔ ShowsAll env t.store .flush := by
  constructor
  · intro hrefines
    constructor
    · intro id hend
      cases hrow : t.store.buffer.nodes.get id with
      | some row => simp [Neo4jGraphStore.getNode, hrow]
      | none =>
        -- a placeholder would be there for one store alone
        obtain ⟨hstore, hmem⟩ | ⟨n, m, hn, -, -⟩ := (h.unbuffered hrow).cases
        · have hagree : Agree env ((storeStep env t.store .flush).getNode id)
            (t.mem.nodes.get id) := hrefines id
          rw [getNode_flush_unbuffered h hrow, hstore, hmem, if_pos hend] at hagree
          exact hagree.elim
        · simp [Neo4jGraphStore.getNode, hrow, hn]
    · intro id row hrow
      obtain ⟨other, hget, hsame⟩ := h.buffered hrow
      have hagree : Agree env ((storeStep env t.store .flush).getNode id)
        (t.mem.nodes.get id) := hrefines id
      rw [getNode_flush_buffered hrow, hget] at hagree
      exact (rowSurvives_iff t.store id row).2 (Alike.trans hagree hsame.symm)
  · rintro ⟨hends, hrows⟩ id
    change Agree env ((storeStep env t.store .flush).getNode id) (t.mem.nodes.get id)
    cases hrow : t.store.buffer.nodes.get id with
    | some row =>
      obtain ⟨other, hget, hsame⟩ := h.buffered hrow
      rw [getNode_flush_buffered hrow, hget]
      exact ((rowSurvives_iff t.store id row).1 (hrows id row hrow)).trans hsame
    | none =>
      rw [getNode_flush_unbuffered h hrow]
      obtain ⟨hstore, hmem⟩ | ⟨n, m, hn, hm, hsame⟩ := (h.unbuffered hrow).cases
      · have hend : ¬ t.store.buffer.HasEnd id := by
          intro hend
          have hsome := hends id hend
          rw [Neo4jGraphStore.getNode, hrow, hstore] at hsome
          cases hsome
        rw [hstore, hmem, if_neg hend]
        trivial
      · rw [hn, hm]
        exact hsame

/-- A step keeps the refinement exactly if it shows all. -/
theorem refines_step_iff (h : Joined env t) (action : StoreAction) :
    Refines env (twinStep env t action) ↔ ShowsAll env t.store action := by
  cases action with
  | flush => exact refines_flush_iff h
  | call c =>
    cases c with
    | upsertNode id labels fields => exact refines_upsertNode_iff h id labels fields
    | setLabels id remove add => exact refines_setLabels_iff h id remove add
    | upsertEdge src dst fields => exact iff_of_true h.refines trivial
    | removeEdge src dst => exact iff_of_true h.refines trivial

theorem settled_step (h : Joined env t) (action : StoreAction) :
    ∀ id, ∀ node ∈ (twinStep env t action).mem.nodes.get id,
      node.props "status_if_absent" = none := by
  intro id node hnode
  -- a row that is set is the only one that changes
  have hrow : ∀ {id' row}, (t.mem.nodes.set id' row).get id = some node →
      row.props "status_if_absent" = none → node.props "status_if_absent" = none := by
    intro id' row hget hsettle
    rw [Dict.get_set] at hget
    split at hget
    · cases hget
      exact hsettle
    · exact h.settled id node hget
  cases action with
  | flush => exact h.settled id node hnode
  | call c =>
    cases c with
    | upsertEdge src dst fields => exact h.settled id node hnode
    | removeEdge src dst => exact h.settled id node hnode
    | upsertNode id' labels fields =>
      exact hrow hnode (assignFields_status_if_absent (h.settled_getD id') fields)
    | setLabels id' remove add => exact hrow hnode (h.settled_getD id')

theorem joined_step (t : Twins) (action : StoreAction) (h : Joined env t)
    (hshows : ShowsAll env t.store action) : Joined env (twinStep env t action) := by
  refine ⟨(refines_step_iff h action).2 hshows, ?_, settled_step h action⟩
  cases action with
  | call c => exact h.patched.call c
  | flush => exact fun patch hpatch => absurd hpatch List.not_mem_nil

end Steps

/-! ## Runs -/

def Twins.initial : Twins := ⟨.on Database.empty, GraphState.empty⟩

theorem joined_initial (env : Env) : Joined env Twins.initial :=
  ⟨fun _ => trivial, fun _ hpatch => absurd hpatch List.not_mem_nil, fun _ _ hnode => nomatch hnode⟩

/-- A worker that starts on an empty database and has flushed the start of a session. -/
def startedWorker : World :=
  (processEvent sampleEnv "s" (sampleEvent "session:start" "2026-01-01T00:00:00+00:00")
    ⟨Cursors.fresh, Buffer.empty, Database.empty, []⟩).2.flush sampleEnv

/-- The calls of the handlers for the start of a session, a flush, and the calls for a prompt. -/
def promptAfterStart : List StoreAction :=
  (storeCalls sampleEnv "s" (sampleEvent "session:start" "2026-01-01T00:00:00+00:00")
      ⟨Cursors.fresh, Buffer.empty, Database.empty, []⟩).map .call
    ++ [.flush]
    ++ (storeCalls sampleEnv "s" (sampleEvent "prompt:submit" "2026-01-01T00:00:01+00:00")
      startedWorker).map .call

end ContextIntelligence.Store
