import ContextIntelligence.Lib.Chunks
import ContextIntelligence.Store.Placement

/-!
# A flush, transaction by transaction

`_flush_body` sorts the snapshot, cuts rows, patches and edges into chunks and commits each chunk in
a transaction of its own. The first transactions of a flush together write a *part* of the buffer
(`exists_part`), and all of them write the buffer (`commitAll_transactions`).
-/

namespace ContextIntelligence.Store

open Lib ContextIntelligence.Graph

/-! ## Transactions -/

/-- The bounds on a chunk, with the sizes that `_serialized_row_size` gives. -/
structure Limits where
  rows : ℕ
  bytes : ℕ
  nodeSize : Node → ℕ
  patchSize : Patch → ℕ
  edgeSize : Props → ℕ

def sortedNodes (b : Buffer) : List (NodeId × Node) :=
  b.nodes.entries.insertionSort fun x y => x.1 ≤ y.1

def sortedEdges (b : Buffer) : List ((NodeId × NodeId) × Props) :=
  b.edges.entries.insertionSort fun x y => x.1.1 < y.1.1 ∨ x.1.1 = y.1.1 ∧ x.1.2 ≤ y.1.2

/-- What one `execute_write` is given; `Database.flush` on it is `_write_batch`. -/
def nodeTransaction (entries : List (NodeId × Node)) : Buffer :=
  ⟨Dict.ofList entries, Dict.empty, []⟩

def patchTransaction (patches : List Patch) : Buffer := ⟨Dict.empty, Dict.empty, patches⟩

def edgeTransaction (entries : List ((NodeId × NodeId) × Props)) : Buffer :=
  ⟨Dict.empty, Dict.ofList entries, []⟩

/-- `_chunk_list`, for the size that `_serialized_row_size` gives. -/
def chunkList {α : Type} (size : α → ℕ) (maxRows maxBytes : ℕ) (snapshot : List α) :
    List (List α) :=
  chunks size maxRows maxBytes snapshot

/-- `_chunk_dict`: an entry counts with the size of its value. -/
def chunkDict {κ ν : Type} [DecidableEq κ] (size : ν → ℕ) (maxRows maxBytes : ℕ)
    (snapshot : Dict κ ν) : List (Dict κ ν) :=
  (chunks (fun entry => size entry.2) maxRows maxBytes snapshot.entries).map Dict.ofList

theorem entries_chunkDict {κ ν : Type} [DecidableEq κ] (size : ν → ℕ) (maxRows maxBytes : ℕ)
    (snapshot : Dict κ ν) : (chunkDict size maxRows maxBytes snapshot).map Dict.entries
      = chunks (fun entry => size entry.2) maxRows maxBytes snapshot.entries := by
  rw [chunkDict, List.map_map, List.map_congr_left (g := id), List.map_id]
  intro chunk hchunk
  apply Dict.entries_ofList
  -- the keys of a chunk are among those of the dictionary
  have hall := snapshot.nodup
  rw [← flatten_chunks (fun entry => size entry.2) maxRows maxBytes snapshot.entries,
    List.map_flatten, List.nodup_flatten] at hall
  exact hall.1 _ (List.mem_map_of_mem hchunk)

theorem chunking_bounded_partition {κ ν : Type} [DecidableEq κ] (size : ν → ℕ)
    {maxRows maxBytes : ℕ} (hrows : 0 < maxRows) :
    (∀ snapshot : List ν, BoundedPartition size maxRows maxBytes snapshot
      (chunkList size maxRows maxBytes snapshot))
    ∧ ∀ snapshot : Dict κ ν,
      BoundedPartition (fun entry => size entry.2) maxRows maxBytes snapshot.entries
        ((chunkDict size maxRows maxBytes snapshot).map Dict.entries) := by
  refine ⟨boundedPartition_chunks hrows, ?_⟩
  intro snapshot
  rw [entries_chunkDict]
  exact boundedPartition_chunks hrows snapshot.entries

theorem chunking_bounded_partition_two : BoundedPartition id 2 5 [4, 3, 1, 9, 2]
    (chunkList id 2 5 [4, 3, 1, 9, 2]) :=
  (chunking_bounded_partition (κ := ℕ) id (by decide)).1 _

def nodeChunks (lim : Limits) (b : Buffer) : List (List (NodeId × Node)) :=
  (chunkDict lim.nodeSize lim.rows lim.bytes (Dict.ofList (sortedNodes b))).map Dict.entries

def patchChunks (lim : Limits) (b : Buffer) : List (List Patch) :=
  chunkList lim.patchSize lim.rows lim.bytes b.patches

def edgeChunks (lim : Limits) (b : Buffer) : List (List ((NodeId × NodeId) × Props)) :=
  (chunkDict lim.edgeSize lim.rows lim.bytes (Dict.ofList (sortedEdges b))).map Dict.entries

section Flatten

variable {b : Buffer} (lim : Limits)

theorem nodup_sortedNodes : ((sortedNodes b).map Prod.fst).Nodup :=
  ((List.perm_insertionSort _ b.nodes.entries).map Prod.fst).nodup_iff.2 b.nodes.nodup

theorem nodup_sortedEdges : ((sortedEdges b).map Prod.fst).Nodup :=
  ((List.perm_insertionSort _ b.edges.entries).map Prod.fst).nodup_iff.2 b.edges.nodup

theorem flatten_nodeChunks : (nodeChunks lim b).flatten = sortedNodes b := by
  rw [nodeChunks, entries_chunkDict, flatten_chunks, Dict.entries_ofList nodup_sortedNodes]

theorem flatten_edgeChunks : (edgeChunks lim b).flatten = sortedEdges b := by
  rw [edgeChunks, entries_chunkDict, flatten_chunks, Dict.entries_ofList nodup_sortedEdges]

theorem flatten_patchChunks : (patchChunks lim b).flatten = b.patches := flatten_chunks _ _ _ _

end Flatten

def transactions (lim : Limits) (b : Buffer) : List Buffer :=
  (nodeChunks lim b).map nodeTransaction
    ++ ((patchChunks lim b).map patchTransaction ++ (edgeChunks lim b).map edgeTransaction)

def commitAll (env : Env) (db : Database) (txs : List Buffer) : Database :=
  txs.foldl (fun db tx => db.flush env tx) db

theorem commitAll_append (env : Env) (db : Database) (txs txs' : List Buffer) :
    commitAll env db (txs ++ txs') = commitAll env (commitAll env db txs) txs' :=
  List.foldl_append

/-! ## One kind of write at a time -/

section Kinds

variable (env : Env) (db : Database)

theorem not_hasEnd_nodeTransaction (entries : List (NodeId × Node)) (id : NodeId) :
    ¬ (nodeTransaction entries).HasEnd id := by
  rintro ⟨key, hkey, -⟩
  exact absurd hkey List.not_mem_nil

theorem not_hasEnd_patchTransaction (patches : List Patch) (id : NodeId) :
    ¬ (patchTransaction patches).HasEnd id := by
  rintro ⟨key, hkey, -⟩
  exact absurd hkey List.not_mem_nil

theorem nodes_flush_nodeTransaction (entries : List (NodeId × Node)) (id : NodeId) :
    (db.flush env (nodeTransaction entries)).nodes id
      = writeRow env id ((Dict.ofList entries).get id) (db.nodes id) := by
  rw [nodes_flush, if_neg (not_hasEnd_nodeTransaction entries id), Option.or_none]
  have hlabs : Node.relabel (patchLabels [] id) = fun node => node := by
    funext node
    simp [Node.relabel]
  simp only [nodeTransaction, hlabs, Option.map_id']

theorem relationships_flush_nodeTransaction (entries : List (NodeId × Node)) (src dst : NodeId)
    (type : String) :
    (db.flush env (nodeTransaction entries)).relationships src dst type
      = db.relationships src dst type := by
  rw [relationships_flush]
  rfl

theorem flush_patchTransaction (patches : List Patch) :
    db.flush env (patchTransaction patches) = patches.foldl Database.writePatch db := by
  apply Database.ext_get
  · intro id
    rw [nodes_flush, if_neg (not_hasEnd_patchTransaction patches id), Option.or_none,
      nodes_writePatches]
    rfl
  · intro src dst type
    rw [relationships_flush, relationships_writePatches]
    rfl

theorem nodes_flush_edgeTransaction (entries : List ((NodeId × NodeId) × Props)) (id : NodeId) :
    (db.flush env (edgeTransaction entries)).nodes id
      = (db.nodes id).or
        (if (edgeTransaction entries).HasEnd id then some (placeholder env id) else none) := by
  rw [nodes_flush]
  have hlabs : Node.relabel (patchLabels [] id) = fun node => node := by
    funext node
    simp [Node.relabel]
  simp only [edgeTransaction, hlabs, Option.map_id', Dict.get_empty, writeRow]

theorem relationships_flush_edgeTransaction (entries : List ((NodeId × NodeId) × Props))
    (src dst : NodeId) (type : String) :
    (db.flush env (edgeTransaction entries)).relationships src dst type
      = writeEdge env src dst type ((Dict.ofList entries).get (src, dst))
          (db.relationships src dst type) :=
  relationships_flush env (edgeTransaction entries) db src dst type

theorem flush_eq_kinds (nodes : List (NodeId × Node)) (patches : List Patch)
    (edges : List ((NodeId × NodeId) × Props)) :
    db.flush env ⟨Dict.ofList nodes, Dict.ofList edges, patches⟩
      = ((db.flush env (nodeTransaction nodes)).flush env (patchTransaction patches)).flush env
          (edgeTransaction edges) := by
  apply Database.ext_get
  · intro id
    rw [nodes_flush_edgeTransaction, flush_patchTransaction, nodes_writePatches,
      nodes_flush_nodeTransaction, nodes_flush]
    rfl
  · intro src dst type
    rw [relationships_flush_edgeTransaction, flush_patchTransaction, relationships_writePatches,
      relationships_flush_nodeTransaction, relationships_flush]

end Kinds

/-! ## Several transactions of one kind -/

section Merging

variable (env : Env)

theorem get_ofList_append {κ ν : Type} [DecidableEq κ] {l l' : List (κ × ν)}
    (h : ((l ++ l').map Prod.fst).Nodup) (k : κ) :
    (Dict.ofList (l ++ l')).get k = ((Dict.ofList l).get k).or ((Dict.ofList l').get k)
      ∧ ((Dict.ofList l).get k = none ∨ (Dict.ofList l').get k = none) := by
  have hparts := h
  rw [List.map_append, List.nodup_append] at hparts
  obtain ⟨hleft, hright, hdisjoint⟩ := hparts
  rw [Dict.get_ofList h, Dict.get_ofList hleft, Dict.get_ofList hright, Assoc.get_append]
  refine ⟨rfl, ?_⟩
  simp only [Assoc.get_eq_none]
  by_cases hk : k ∈ l.map Prod.fst
  · exact .inr fun hk' => hdisjoint k hk k hk' rfl
  · exact .inl hk

theorem commitAll_merge {κ ν : Type} {transaction : List (κ × ν) → Buffer}
    (hnil : transaction [] = Buffer.empty)
    (hmerge : ∀ {l l' : List (κ × ν)} (db : Database), ((l ++ l').map Prod.fst).Nodup →
      (db.flush env (transaction l)).flush env (transaction l')
        = db.flush env (transaction (l ++ l')))
    (chunks : List (List (κ × ν))) (db : Database) (h : (chunks.flatten.map Prod.fst).Nodup) :
    commitAll env db (chunks.map transaction) = db.flush env (transaction chunks.flatten) := by
  induction chunks generalizing db with
  | nil =>
    rw [List.flatten_nil, hnil, flush_empty]
    rfl
  | cons chunk rest ih =>
    rw [List.flatten_cons] at h ⊢
    have hrest : (rest.flatten.map Prod.fst).Nodup := by
      rw [List.map_append, List.nodup_append] at h
      exact h.2.1
    exact (ih _ hrest).trans (hmerge db h)

theorem commitAll_nodes (chunks : List (List (NodeId × Node))) (db : Database)
    (h : (chunks.flatten.map Prod.fst).Nodup) :
    commitAll env db (chunks.map nodeTransaction)
      = db.flush env (nodeTransaction chunks.flatten) := by
  refine commitAll_merge env rfl (fun db h => Database.ext_get ?_ ?_) chunks db h
  · intro id
    simp only [nodes_flush_nodeTransaction]
    obtain ⟨hget, hone⟩ := get_ofList_append h id
    rw [hget]
    rcases hone with hnone | hnone
    · simp [hnone, writeRow]
    · simp [hnone, writeRow]
  · intro src dst type
    simp only [relationships_flush_nodeTransaction]

theorem commitAll_patches (chunks : List (List Patch)) (db : Database) :
    commitAll env db (chunks.map patchTransaction)
      = db.flush env (patchTransaction chunks.flatten) := by
  induction chunks generalizing db with
  | nil =>
    symm
    exact flush_empty env db
  | cons chunk rest ih =>
    have hstep : commitAll env db ((chunk :: rest).map patchTransaction)
        = commitAll env (db.flush env (patchTransaction chunk)) (rest.map patchTransaction) := rfl
    rw [hstep, ih]
    simp only [flush_patchTransaction, List.flatten_cons, List.foldl_append]

theorem hasEnd_edgeTransaction (entries : List ((NodeId × NodeId) × Props)) (id : NodeId) :
    (edgeTransaction entries).HasEnd id
      ↔ ∃ key, (key.1 = id ∨ key.2 = id) ∧ ((Dict.ofList entries).get key).isSome := by
  constructor
  · rintro ⟨key, hkey, hend⟩
    refine ⟨key, hend, ?_⟩
    by_contra hnone
    exact Dict.get_eq_none.1 (Option.not_isSome_iff_eq_none.1 hnone) hkey
  · rintro ⟨key, hend, hsome⟩
    refine ⟨key, ?_, hend⟩
    by_contra hkey
    have hnone : (Dict.ofList entries).get key = none := Dict.get_eq_none.2 hkey
    rw [hnone] at hsome
    cases hsome

theorem hasEnd_append {l l' : List ((NodeId × NodeId) × Props)}
    (h : ((l ++ l').map Prod.fst).Nodup) (id : NodeId) :
    (edgeTransaction (l ++ l')).HasEnd id
      ↔ (edgeTransaction l).HasEnd id ∨ (edgeTransaction l').HasEnd id := by
  simp only [hasEnd_edgeTransaction, (get_ofList_append h _).1, Option.isSome_or, Bool.or_eq_true,
    and_or_left, exists_or]

theorem commitAll_edges (chunks : List (List ((NodeId × NodeId) × Props))) (db : Database)
    (h : (chunks.flatten.map Prod.fst).Nodup) :
    commitAll env db (chunks.map edgeTransaction)
      = db.flush env (edgeTransaction chunks.flatten) := by
  refine commitAll_merge env rfl (fun {l _} db h => Database.ext_get ?_ ?_) chunks db h
  · intro id
    simp only [nodes_flush_edgeTransaction, hasEnd_append h]
    cases db.nodes id with
    | some node => rfl
    | none =>
      by_cases hfirst : (edgeTransaction l).HasEnd id
      · simp [hfirst]
      · simp [hfirst]
  · intro src dst type
    simp only [relationships_flush_edgeTransaction]
    obtain ⟨hget, hone⟩ := get_ofList_append h (src, dst)
    rw [hget]
    rcases hone with hnone | hnone
    · simp [hnone, writeEdge]
    · simp [hnone, writeEdge]

end Merging

/-! ## Parts of a buffer -/

/-- What the first transactions of a flush write: some of the rows, the first patches and some of
the edges, with patches and edges only once all rows are written. -/
structure Part (b part : Buffer) : Prop where
  row : ∀ id, part.nodes.get id = b.nodes.get id ∨ part.nodes.get id = none
  edge : ∀ pair, part.edges.get pair = b.edges.get pair ∨ part.edges.get pair = none
  patches : part.patches <+: b.patches
  rows_first : part.patches ≠ [] → ∀ id, part.nodes.get id = b.nodes.get id
  rows_first' : (∃ pair, (part.edges.get pair).isSome) → ∀ id, part.nodes.get id = b.nodes.get id

section Parts

variable {lim : Limits} {b : Buffer}

theorem get_sortedNodes (id : NodeId) : (Dict.ofList (sortedNodes b)).get id = b.nodes.get id := by
  rw [Dict.get_ofList nodup_sortedNodes]
  exact Assoc.get_of_perm b.nodes.nodup (List.perm_insertionSort _ _).symm id

theorem get_sortedEdges (pair : NodeId × NodeId) :
    (Dict.ofList (sortedEdges b)).get pair = b.edges.get pair := by
  rw [Dict.get_ofList nodup_sortedEdges]
  exact Assoc.get_of_perm b.edges.nodup (List.perm_insertionSort _ _).symm pair

theorem get_ofList_initial {κ ν : Type} [DecidableEq κ] {l l' : List (κ × ν)} (hinit : l <+: l')
    (h : (l'.map Prod.fst).Nodup) (k : κ) :
    (Dict.ofList l).get k = (Dict.ofList l').get k ∨ (Dict.ofList l).get k = none := by
  obtain ⟨rest, rfl⟩ := hinit
  rw [(get_ofList_append h k).1]
  cases (Dict.ofList l).get k with
  | none => exact .inr rfl
  | some v => exact .inl rfl

theorem nodup_of_initial {κ ν : Type} {l l' : List (κ × ν)} (hinit : l <+: l')
    (h : (l'.map Prod.fst).Nodup) : (l.map Prod.fst).Nodup :=
  h.sublist (hinit.sublist.map Prod.fst)

/-- What the first `i`, `j` and `k` chunks of each kind hold. -/
def partOf (lim : Limits) (b : Buffer) (i j k : ℕ) : Buffer :=
  ⟨Dict.ofList ((nodeChunks lim b).take i).flatten, Dict.ofList ((edgeChunks lim b).take k).flatten,
    ((patchChunks lim b).take j).flatten⟩

theorem nodeChunks_initial (lim : Limits) (b : Buffer) (i : ℕ) :
    ((nodeChunks lim b).take i).flatten <+: sortedNodes b := by
  have h := flatten_take_initial (nodeChunks lim b) i
  rwa [flatten_nodeChunks] at h

theorem edgeChunks_initial (lim : Limits) (b : Buffer) (k : ℕ) :
    ((edgeChunks lim b).take k).flatten <+: sortedEdges b := by
  have h := flatten_take_initial (edgeChunks lim b) k
  rwa [flatten_edgeChunks] at h

theorem patchChunks_initial (lim : Limits) (b : Buffer) (j : ℕ) :
    ((patchChunks lim b).take j).flatten <+: b.patches := by
  have h := flatten_take_initial (patchChunks lim b) j
  rwa [flatten_patchChunks] at h

theorem commitAll_partOf (env : Env) (lim : Limits) (b : Buffer) (db : Database) (i j k : ℕ) :
    commitAll env db (((nodeChunks lim b).take i).map nodeTransaction
        ++ (((patchChunks lim b).take j).map patchTransaction
          ++ ((edgeChunks lim b).take k).map edgeTransaction))
      = db.flush env (partOf lim b i j k) := by
  rw [commitAll_append, commitAll_append,
    commitAll_nodes env _ _ (nodup_of_initial (nodeChunks_initial lim b i) nodup_sortedNodes),
    commitAll_patches,
    commitAll_edges env _ _ (nodup_of_initial (edgeChunks_initial lim b k) nodup_sortedEdges),
    partOf, flush_eq_kinds]

theorem get_nodes_partOf {i : ℕ} (hi : (nodeChunks lim b).length ≤ i) (j k : ℕ) (id : NodeId) :
    (partOf lim b i j k).nodes.get id = b.nodes.get id := by
  rw [partOf, List.take_of_length_le hi, flatten_nodeChunks]
  exact get_sortedNodes id

theorem part_partOf {i j k : ℕ} (hrows : j ≠ 0 ∨ k ≠ 0 → (nodeChunks lim b).length ≤ i) :
    Part b (partOf lim b i j k) where
  row id := by
    have h := get_ofList_initial (nodeChunks_initial lim b i) nodup_sortedNodes id
    rwa [get_sortedNodes] at h
  edge pair := by
    have h := get_ofList_initial (edgeChunks_initial lim b k) nodup_sortedEdges pair
    rwa [get_sortedEdges] at h
  patches := patchChunks_initial lim b j
  rows_first hpatches := by
    apply get_nodes_partOf
    apply hrows
    left
    rintro rfl
    exact hpatches rfl
  rows_first' hedges := by
    apply get_nodes_partOf
    apply hrows
    right
    rintro rfl
    obtain ⟨pair, hpair⟩ := hedges
    cases hpair

/-- Committing the first transactions flushes a part. -/
theorem exists_part (env : Env) (lim : Limits) (b : Buffer) (db : Database) (n : ℕ) :
    ∃ part, Part b part
      ∧ commitAll env db ((transactions lim b).take n) = db.flush env part := by
  refine ⟨partOf lim b n (n - (nodeChunks lim b).length)
    (n - (nodeChunks lim b).length - (patchChunks lim b).length), part_partOf (by omega), ?_⟩
  rw [← commitAll_partOf]
  simp only [transactions, List.take_append, List.length_map, List.map_take]

/-- All transactions together are one flush. -/
theorem commitAll_transactions (env : Env) (lim : Limits) (b : Buffer) (db : Database) :
    commitAll env db (transactions lim b) = db.flush env b := by
  have h := commitAll_partOf env lim b db (nodeChunks lim b).length
    (patchChunks lim b).length (edgeChunks lim b).length
  simp only [List.take_length] at h
  rw [transactions, h, partOf, List.take_length, List.take_length, List.take_length]
  rw [flatten_nodeChunks, flatten_edgeChunks, flatten_patchChunks]
  apply Database.ext_get
  · intro id
    have hend : (Buffer.mk (Dict.ofList (sortedNodes b)) (Dict.ofList (sortedEdges b))
        b.patches).HasEnd id ↔ b.HasEnd id := by
      refine (hasEnd_edgeTransaction (sortedEdges b) id).trans ?_
      simp only [get_sortedEdges, Option.isSome_iff_ne_none, ne_eq, Dict.get_eq_none, not_not,
        Buffer.HasEnd, and_comm]
    simp only [nodes_flush, get_sortedNodes, hend]
  · intro src dst type
    simp only [relationships_flush, get_sortedEdges]

end Parts

end ContextIntelligence.Store
