import ContextIntelligence.Sessions.TypeLabels
import ContextIntelligence.Store.Repeat

/-!
# Type labels under concurrent flushes

Workers share one database, each with a store of its own; a flush commits transaction by
transaction, in any order with those of the others, and may be repeated. Each transaction raises the
type of a node to the join with the types it adds (`joins_flush`), so no order loses a type or
leaves two.
-/

namespace ContextIntelligence.Sessions

open Lib Lib.Runs ContextIntelligence.Graph Handlers ContextIntelligence.Store

/-! ## Workers and their transactions -/

/-- A store: what is buffered, and for a flush under way its snapshot and the transactions left. -/
structure Flusher where
  buffer : Buffer
  inflight : Option (Buffer × List Buffer)

structure Cluster where
  db : Database
  stores : ℕ → Flusher
  /-- For each node, the labels that committed transactions tried to put on it. -/
  tried : NodeId → Finset String

/-- A write of a handler; the label machine may have been shown any type. -/
inductive HandlerCall where
  | upsertNode (id : NodeId) (labels : Finset String) (fields : List (String × Value))
  | upsertEdge (src dst : NodeId) (fields : List (String × Value))
  | removeEdge (src dst : NodeId)
  | transition (id : NodeId) (current : Option SessionType) (event : Lifecycle) (hasParent : Bool)

def HandlerCall.calls : HandlerCall → List Call
  | .upsertNode id labels fields => [.upsertNode id labels fields]
  | .upsertEdge src dst fields => [.upsertEdge src dst fields]
  | .removeEdge src dst => [.removeEdge src dst]
  | .transition id current event hasParent =>
    let t := classify current event hasParent
    if t.add = [] ∧ t.remove = [] then [] else [.setLabels id t.remove t.add]

inductive ClusterAction where
  | write (worker : ℕ) (call : HandlerCall)
  /-- The flush takes its snapshot. -/
  | openFlush (worker : ℕ) (lim : Limits)
  /-- The next transaction commits; after the last one the flush is done. -/
  | commit (worker : ℕ)
  /-- A transaction fails for good and the snapshot is restored. -/
  | fail (worker : ℕ)
  /-- `discard_buffer`, or a new worker in the place of the old one. -/
  | discard (worker : ℕ)

def Cluster.setStore (s : Cluster) (worker : ℕ) (store : Flusher) : Cluster :=
  { s with stores := Function.update s.stores worker store }

def labelsFor (tx : Buffer) (id : NodeId) : Finset String :=
  ((tx.nodes.get id).map Node.labels).getD ∅ ∪ patchAdds tx.patches id

def clusterStep (env : Env) (s : Cluster) : ClusterAction → Cluster
  | .write worker call =>
    let store := s.stores worker
    s.setStore worker { store with buffer := call.calls.foldl Buffer.call store.buffer }
  | .openFlush worker lim =>
    let store := s.stores worker
    match store.inflight with
    | some _ => s
    | none => s.setStore worker ⟨Buffer.empty, some (store.buffer, transactions lim store.buffer)⟩
  | .commit worker =>
    let store := s.stores worker
    match store.inflight with
    | none => s
    | some (_, []) => s.setStore worker { store with inflight := none }
    | some (snapshot, tx :: rest) =>
      { s.setStore worker { store with inflight := some (snapshot, rest) } with
        db := s.db.flush env tx
        tried := fun id => s.tried id ∪ labelsFor tx id }
  | .fail worker =>
    let store := s.stores worker
    match store.inflight with
    | none => s
    | some (snapshot, _) => s.setStore worker ⟨restore snapshot store.buffer, none⟩
  | .discard worker => s.setStore worker ⟨Buffer.empty, none⟩

def Cluster.initial : Cluster := ⟨Database.empty, fun _ => ⟨Buffer.empty, none⟩, fun _ => ∅⟩

/-- The node carries at most one type label: the greatest of those that were tried. -/
def CarriesJoin (s : Cluster) : Prop :=
  ∀ (id : NodeId) (type : SessionType),
    type.label ∈ storedLabels s.db id ↔ currentType (s.tried id) = some type

/-! ## One transaction -/

/-- The labels hold just one type label, the greatest of those that were tried. -/
structure Joins (labels tried : Finset String) : Prop where
  single : Single labels
  current : currentType labels = currentType tried

theorem Joins.addLabels {labels tried : Finset String} (h : Joins labels tried)
    (new : Finset String) : Joins (addLabels new labels) (tried ∪ new) :=
  ⟨single_addLabels (.inl h.single),
    (currentType_addLabels new labels).trans (currentType_union_congr h.current)⟩

theorem Joins.patchLabels {labels tried : Finset String} (h : Joins labels tried)
    {patches : List Patch} (hpatches : ∀ patch ∈ patches, Raises patch) (id : NodeId) :
    Joins (patchLabels patches id labels) (tried ∪ patchAdds patches id) :=
  ⟨single_patchLabels hpatches id (.inl h.single),
    (currentType_patchLabels hpatches id labels).trans (currentType_union_congr h.current)⟩

theorem Joins.insert_node {tried : Finset String} (h : Joins ∅ tried) : Joins {"Node"} tried := by
  refine ⟨single_of_forall_notMem (by decide), ?_⟩
  rw [← h.current]
  decide

variable {id : NodeId}

theorem patchAdds_of_forall_ne {patches : List Patch}
    (h : ∀ patch ∈ patches, patch.node ≠ id) : patchAdds patches id = ∅ := by
  induction patches with
  | nil => rfl
  | cons patch rest ih =>
    obtain ⟨hfirst, hrest⟩ := List.forall_mem_cons.1 h
    have hrest := ih hrest
    rw [patchAdds] at hrest ⊢
    rw [List.foldr_cons, if_neg hfirst, hrest]

theorem joins_flush {env : Env} {db : Database} {tx : Buffer} {tried : Finset String}
    (h : Joins (storedLabels db id) tried) (hraise : ∀ patch ∈ tx.patches, Raises patch)
    (hfound : ∀ patch ∈ tx.patches, patch.node = id →
      (db.nodes id).isSome ∨ (tx.nodes.get id).isSome) :
    Joins (storedLabels (db.flush env tx) id) (tried ∪ labelsFor tx id) := by
  unfold storedLabels at h ⊢
  rw [nodes_flush, labelsFor]
  cases hrow : tx.nodes.get id with
  | some row =>
    have hold : Joins ((db.nodes id).getD (created env id)).labels tried := by
      cases hstore : db.nodes id with
      | some node =>
        rw [hstore] at h
        exact h
      | none =>
        rw [hstore] at h
        exact h.insert_node
    have hnew := (hold.addLabels row.labels).patchLabels hraise id
    simp only [writeRow, Option.map_some, Option.some_or, Option.getD_some, Node.relabel,
      mergeRow_eq]
    rwa [Finset.union_assoc] at hnew
  | none =>
    cases hstore : db.nodes id with
    | some node =>
      rw [hstore] at h
      simpa [writeRow, Node.relabel] using Joins.patchLabels h hraise id
    | none =>
      rw [hstore] at h
      have hadds : patchAdds tx.patches id = ∅ := by
        apply patchAdds_of_forall_ne
        intro patch hpatch hid
        simpa [hrow, hstore] using hfound patch hpatch hid
      simp only [writeRow, Option.map_none, Option.none_or, Option.getD_none, hadds,
        Finset.union_empty]
      by_cases hend : tx.HasEnd id
      · rw [if_pos hend]
        exact Joins.insert_node h
      · rw [if_neg hend]
        exact h

/-! ## Patches find their nodes -/

/-- The patches of the transactions find their nodes among those present or those that the rows of
the transactions up to theirs create. -/
def Ready : (NodeId → Prop) → List Buffer → Prop
  | _, [] => True
  | present, tx :: rest =>
    (∀ patch ∈ tx.patches, present patch.node ∨ (tx.nodes.get patch.node).isSome)
      ∧ Ready (fun id => present id ∨ (tx.nodes.get id).isSome) rest

theorem Ready.mono {present present' : NodeId → Prop} {txs : List Buffer} (h : Ready present txs)
    (himp : ∀ id, present id → present' id) : Ready present' txs := by
  induction txs generalizing present present' with
  | nil => trivial
  | cons tx rest ih =>
    refine ⟨fun patch hpatch => (h.1 patch hpatch).imp_left (himp _), ih h.2 ?_⟩
    intro id hid
    exact hid.imp_left (himp id)

theorem ready_nodes {rows : List (List (NodeId × Node))} {rest : List Buffer}
    {present : NodeId → Prop}
    (h : Ready (fun id => present id ∨ ∃ row ∈ rows, ((Dict.ofList row).get id).isSome) rest) :
    Ready present (rows.map nodeTransaction ++ rest) := by
  induction rows generalizing present with
  | nil => exact h.mono fun id hid => hid.resolve_right (by simp)
  | cons row rows ih =>
    refine ⟨fun patch hpatch => absurd hpatch List.not_mem_nil, ih (h.mono ?_)⟩
    rintro id (hpresent | ⟨row', hmem, hsome⟩)
    · exact .inl (.inl hpresent)
    · rcases List.mem_cons.1 hmem with rfl | hrest
      · exact .inl (.inr hsome)
      · exact .inr ⟨row', hrest, hsome⟩

theorem ready_of_forall {present : NodeId → Prop} {txs : List Buffer}
    (h : ∀ tx ∈ txs, ∀ patch ∈ tx.patches, present patch.node) : Ready present txs := by
  induction txs generalizing present with
  | nil => trivial
  | cons tx rest ih =>
    obtain ⟨hfirst, hrest⟩ := List.forall_mem_cons.1 h
    refine ⟨fun patch hpatch => Or.inl (hfirst patch hpatch), ih ?_⟩
    intro tx' htx' patch hpatch
    exact .inl (hrest tx' htx' patch hpatch)

theorem mem_patches_of_transactions {lim : Limits} {b tx : Buffer} {patch : Patch}
    (htx : tx ∈ transactions lim b) (hpatch : patch ∈ tx.patches) : patch ∈ b.patches := by
  simp only [transactions, List.mem_append, List.mem_map] at htx
  rcases htx with ⟨rows, -, rfl⟩ | ⟨patches, hmem, rfl⟩ | ⟨edges, -, rfl⟩
  · exact absurd hpatch List.not_mem_nil
  · have hflat : patch ∈ (patchChunks lim b).flatten := List.mem_flatten.2 ⟨patches, hmem, hpatch⟩
    rwa [flatten_patchChunks] at hflat
  · exact absurd hpatch List.not_mem_nil

theorem exists_row_of_isSome {lim : Limits} {b : Buffer} (h : (b.nodes.get id).isSome) :
    ∃ rows ∈ nodeChunks lim b, ((Dict.ofList rows).get id).isSome := by
  obtain ⟨node, hnode⟩ := Option.isSome_iff_exists.1 h
  rw [← get_sortedNodes, Dict.get_ofList nodup_sortedNodes] at hnode
  have hmem : (id, node) ∈ (nodeChunks lim b).flatten := by
    rw [flatten_nodeChunks]
    exact Assoc.mem_of_get hnode
  obtain ⟨rows, hrows, hentry⟩ := List.mem_flatten.1 hmem
  refine ⟨rows, hrows, ?_⟩
  have hnodup : (rows.map Prod.fst).Nodup := by
    have hflat : ((nodeChunks lim b).flatten.map Prod.fst).Nodup := by
      rw [flatten_nodeChunks]
      exact nodup_sortedNodes
    exact hflat.sublist ((List.sublist_flatten_of_mem hrows).map Prod.fst)
  rw [Dict.get_ofList hnodup, Assoc.get_of_mem hnodup hentry]
  rfl

theorem ready_transactions {b : Buffer} (h : Patched b) (lim : Limits) (present : NodeId → Prop) :
    Ready present (transactions lim b) := by
  apply ready_nodes
  apply ready_of_forall
  intro tx htx patch hpatch
  have hmem : patch ∈ b.patches :=
    mem_patches_of_transactions (List.mem_append_right ((nodeChunks lim b).map _) htx) hpatch
  exact .inr (exists_row_of_isSome (h patch hmem))

/-! ## Restored buffers -/

theorem patched_restore {snapshot newer : Buffer} (h : Patched snapshot) (h' : Patched newer) :
    Patched (restore snapshot newer) := by
  intro patch hpatch
  rw [restore, get_updateWith, Option.isSome_or, Bool.or_eq_true]
  rcases List.mem_append.1 hpatch with hold | hnew
  · exact .inr (h patch hold)
  · exact .inl (h' patch hnew)

/-! ## Whole runs -/

structure Orderly (b : Buffer) : Prop where
  patched : Patched b
  raises : ∀ patch ∈ b.patches, Raises patch

theorem orderly_empty : Orderly Buffer.empty :=
  ⟨fun _ hpatch => absurd hpatch List.not_mem_nil, fun _ hpatch => absurd hpatch List.not_mem_nil⟩

theorem Orderly.write {b : Buffer} (h : Orderly b) (call : HandlerCall) :
    Orderly (call.calls.foldl Buffer.call b) := by
  refine ⟨patched_foldl _ h.patched, ?_⟩
  cases call with
  | upsertNode id labels fields => exact h.raises
  | removeEdge src dst => exact h.raises
  | upsertEdge src dst fields => exact h.raises
  | transition id current event hasParent =>
    refine raises_of_fromHandlers ?_ h.raises
    intro c hc
    simp only [HandlerCall.calls] at hc
    split at hc
    · cases hc
    · rw [List.mem_singleton.1 hc]
      exact ⟨current, event, hasParent, rfl⟩

theorem Orderly.restore {snapshot newer : Buffer} (h : Orderly snapshot) (h' : Orderly newer) :
    Orderly (restore snapshot newer) := by
  refine ⟨patched_restore h.patched h'.patched, ?_⟩
  intro patch hpatch
  rcases List.mem_append.1 hpatch with hold | hnew
  · exact h.raises patch hold
  · exact h'.raises patch hnew

/-- A store whose buffers are orderly and whose pending transactions find their nodes. -/
structure Flusher.Sound (store : Flusher) (present : NodeId → Prop) : Prop where
  buffer : Orderly store.buffer
  snapshot : ∀ snapshot rest, store.inflight = some (snapshot, rest) → Orderly snapshot
  raises : ∀ snapshot rest, store.inflight = some (snapshot, rest) →
    ∀ tx ∈ rest, ∀ patch ∈ tx.patches, Raises patch
  ready : ∀ snapshot rest, store.inflight = some (snapshot, rest) → Ready present rest

def Cluster.present (s : Cluster) (id : NodeId) : Prop := (s.db.nodes id).isSome

structure Coherent (s : Cluster) : Prop where
  joins : ∀ id, Joins (storedLabels s.db id) (s.tried id)
  stores : ∀ worker, (s.stores worker).Sound s.present

theorem Flusher.Sound.idle {present : NodeId → Prop} {b : Buffer} (h : Orderly b) :
    Flusher.Sound ⟨b, none⟩ present :=
  ⟨h, fun _ _ hin => (nomatch hin), fun _ _ hin => (nomatch hin), fun _ _ hin => (nomatch hin)⟩

theorem Flusher.Sound.mono {store : Flusher} {present present' : NodeId → Prop}
    (h : store.Sound present) (himp : ∀ id, present id → present' id) : store.Sound present' :=
  ⟨h.buffer, h.snapshot, h.raises, fun snapshot rest hin => (h.ready snapshot rest hin).mono himp⟩

theorem Coherent.setStore {s : Cluster} (h : Coherent s) {worker : ℕ} {store : Flusher}
    (hstore : store.Sound s.present) : Coherent (s.setStore worker store) where
  joins := h.joins
  stores other := by
    by_cases hother : other = worker
    · subst hother
      simp only [Cluster.setStore, Function.update_self]
      exact hstore
    · simp only [Cluster.setStore, Function.update_of_ne hother]
      exact h.stores other

theorem present_flush {env : Env} {db : Database} {tx : Buffer}
    (h : (db.nodes id).isSome ∨ (tx.nodes.get id).isSome) :
    ((db.flush env tx).nodes id).isSome := by
  rw [nodes_flush, Option.isSome_or, Option.isSome_map]
  cases hrow : tx.nodes.get id with
  | some row => rfl
  | none =>
    rw [hrow] at h
    simp only [writeRow, h.resolve_right (by simp), Bool.true_or]

theorem coherent_commit {env : Env} {s : Cluster} {worker : ℕ} {snapshot tx : Buffer}
    {rest : List Buffer} (h : Coherent s)
    (hin : (s.stores worker).inflight = some (snapshot, tx :: rest)) :
    Coherent (clusterStep env s (.commit worker)) := by
  have hstore := h.stores worker
  obtain ⟨hfound, hready⟩ := hstore.ready snapshot _ hin
  have hraise := hstore.raises snapshot _ hin
  have hpresent : ∀ id, s.present id ∨ (tx.nodes.get id).isSome →
      ((s.db.flush env tx).nodes id).isSome := fun id hid => present_flush hid
  simp only [clusterStep, hin]
  constructor
  · intro id
    apply joins_flush (h.joins id) (hraise tx List.mem_cons_self)
    rintro patch hpatch rfl
    exact hfound patch hpatch
  · intro other
    by_cases hother : other = worker
    · subst hother
      simp only [Cluster.setStore, Function.update_self]
      refine ⟨hstore.buffer, ?_, ?_, ?_⟩
      · rintro _ _ ⟨⟩
        exact hstore.snapshot snapshot _ hin
      · rintro _ _ ⟨⟩ tx' htx'
        exact hraise tx' (List.mem_cons_of_mem tx htx')
      · rintro _ _ ⟨⟩
        exact hready.mono hpresent
    · simp only [Cluster.setStore, Function.update_of_ne hother]
      exact (h.stores other).mono fun id hid => hpresent id (.inl hid)

/-- Every step keeps the labels joined. -/
theorem coherent_step (env : Env) (s : Cluster) (action : ClusterAction) (h : Coherent s) :
    Coherent (clusterStep env s action) := by
  cases action with
  | write worker call =>
    have hstore := h.stores worker
    exact h.setStore ⟨hstore.buffer.write call, hstore.snapshot, hstore.raises, hstore.ready⟩
  | openFlush worker lim =>
    have hstore := h.stores worker
    cases hin : (s.stores worker).inflight with
    | some pending => simpa only [clusterStep, hin] using h
    | none =>
      simp only [clusterStep, hin]
      apply h.setStore
      refine ⟨orderly_empty, ?_, ?_, ?_⟩
      · rintro _ _ ⟨⟩
        exact hstore.buffer
      · rintro _ _ ⟨⟩ tx htx patch hpatch
        exact hstore.buffer.raises patch (mem_patches_of_transactions htx hpatch)
      · rintro _ _ ⟨⟩
        exact ready_transactions hstore.buffer.patched lim s.present
  | commit worker =>
    cases hin : (s.stores worker).inflight with
    | none => simpa only [clusterStep, hin] using h
    | some pending =>
      obtain ⟨snapshot, _ | ⟨tx, rest⟩⟩ := pending
      · simp only [clusterStep, hin]
        exact h.setStore (.idle (h.stores worker).buffer)
      · exact coherent_commit h hin
  | fail worker =>
    have hstore := h.stores worker
    cases hin : (s.stores worker).inflight with
    | none => simpa only [clusterStep, hin] using h
    | some pending =>
      obtain ⟨snapshot, rest⟩ := pending
      simp only [clusterStep, hin]
      exact h.setStore (.idle ((hstore.snapshot snapshot rest hin).restore hstore.buffer))
  | discard worker => exact h.setStore (.idle orderly_empty)

theorem coherent_initial : Coherent Cluster.initial where
  joins _ := ⟨single_of_forall_notMem (Finset.disjoint_empty_left _), rfl⟩
  stores _ := .idle orderly_empty

/-- Whatever the workers decide, however old the labels they decide on, and in whatever order their
transactions commit, fail and are repeated: every node always carries the greatest of the type
labels that were put on it, and no other. -/
theorem carriesJoin_always (env : Env) (actions : List ClusterAction) :
    Always (clusterStep env) CarriesJoin Cluster.initial actions := by
  refine along_of_invariant (coherent_step env) ?_ coherent_initial actions
  intro s action h id type
  have hjoins := (coherent_step env s action h).joins id
  rw [hjoins.single.mem_iff, hjoins.current]

end ContextIntelligence.Sessions
