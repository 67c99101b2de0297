import ContextIntelligence.Sessions.Attachment
import ContextIntelligence.Sessions.Terminal
import ContextIntelligence.Store.Chunks

/-!
# Repeating a failed flush

When a transaction of a flush fails, the ones before it stay committed and the whole snapshot goes
back into the buffer. The next flush absorbs the part that was written (`flush_part`): rows and
edges merge twice as once, and the patches of the label machine only raise the type of a session.
-/

namespace ContextIntelligence.Store

open Lib ContextIntelligence.Graph Handlers Sessions

/-! ## The flush -/

/-- `dict.update`. -/
def updateWith {κ ν : Type} [DecidableEq κ] (d newer : Dict κ ν) : Dict κ ν :=
  newer.entries.foldl (fun d entry => d.set entry.1 entry.2) d

section Updates

variable {κ ν : Type} [DecidableEq κ]

theorem get_foldl_set {entries : List (κ × ν)} (h : (entries.map Prod.fst).Nodup) (d : Dict κ ν)
    (k : κ) : (entries.foldl (fun d entry => d.set entry.1 entry.2) d).get k
      = (Assoc.get k entries).or (d.get k) := by
  induction entries generalizing d with
  | nil => rfl
  | cons entry rest ih =>
    obtain ⟨hfirst, hrest⟩ := List.nodup_cons.1 h
    rw [List.foldl_cons, ih hrest, Dict.get_set, Assoc.get]
    split
    · rename_i heq
      rw [Assoc.get_eq_none.2 (heq ▸ hfirst), Option.none_or, Option.some_or]
    · rfl

theorem get_updateWith (d newer : Dict κ ν) (k : κ) :
    (updateWith d newer).get k = (newer.get k).or (d.get k) :=
  get_foldl_set newer.nodup d k

end Updates

/-- The buffer after a failed flush: the snapshot, and over it what was written meanwhile. -/
def restore (snapshot newer : Buffer) : Buffer :=
  ⟨updateWith snapshot.nodes newer.nodes, updateWith snapshot.edges newer.edges,
    snapshot.patches ++ newer.patches⟩

/-- `_flush_body` with no other calls meanwhile: it succeeds, or the transaction after the first
`n` fails and is rolled back. -/
def flushBody (env : Env) (lim : Limits) (failure : Option ℕ) (s : Neo4jGraphStore) :
    Neo4jGraphStore :=
  match failure with
  | none => ⟨Buffer.empty, commitAll env s.db (transactions lim s.buffer)⟩
  | some n =>
    ⟨restore s.buffer Buffer.empty, commitAll env s.db ((transactions lim s.buffer).take n)⟩

theorem restore_empty (b : Buffer) : restore b Buffer.empty = b := by
  simp [restore, updateWith, Buffer.empty, Dict.empty]

/-! ## Labels -/

section Labels

variable {label : String} {id : NodeId} {patches : List Patch}

theorem patchLabels_cases (hsub : label ≠ "SubSession") (hroot : label ≠ "RootSession")
    (patches : List Patch) (id : NodeId) :
    (∀ labels, label ∈ patchLabels patches id labels)
      ∨ (∀ labels, label ∉ patchLabels patches id labels)
      ∨ ∀ labels, label ∈ patchLabels patches id labels ↔ label ∈ labels := by
  induction patches with
  | nil => exact .inr (.inr fun _ => Iff.rfl)
  | cons patch rest ih =>
    simp only [patchLabels_cons]
    rcases ih with hon | hoff | hsame
    · exact .inl fun _ => hon _
    · exact .inr (.inl fun _ => hoff _)
    · simp only [hsame]
      by_cases hid : patch.node = id
      · simp only [hid, if_true, Patch.apply_eq, mem_addLabels_of_ne hsub hroot,
          Finset.mem_sdiff, List.mem_toFinset]
        by_cases hadd : label ∈ patch.add
        · exact .inl fun _ => Or.inr hadd
        · by_cases hrem : label ∈ patch.remove
          · exact .inr (.inl fun _ => by simp [hadd, hrem])
          · exact .inr (.inr fun _ => by simp [hadd, hrem])
      · exact .inr (.inr fun _ => by rw [if_neg hid])

theorem label_cases (label : String) :
    (∃ type : SessionType, label = type.label) ∨ label ≠ "SubSession" ∧ label ≠ "RootSession" := by
  by_cases hsub : label = "SubSession"
  · exact .inl ⟨.sub, hsub⟩
  · by_cases hroot : label = "RootSession"
    · exact .inl ⟨.root, hroot⟩
    · exact .inr ⟨hsub, hroot⟩

theorem mem_relabelled_of_disjoint {row : Finset String} (h : ∀ patch ∈ patches, Raises patch)
    (hrow : Disjoint row terminalLabels) (hadds : Disjoint (patchAdds patches id) terminalLabels)
    (type : SessionType) (labels : Finset String) :
    type.label ∈ patchLabels patches id (addLabels row labels) ↔ type.label ∈ labels := by
  have hplain : type.label ∈ addLabels row labels ↔ type.label ∈ labels := by
    rw [addLabels, if_pos hrow, Finset.mem_union]
    rw [disjoint_terminal] at hrow
    cases type <;> simp [SessionType.label, hrow]
  rw [← hplain]
  generalize addLabels row labels = start
  induction patches generalizing start with
  | nil => exact Iff.rfl
  | cons patch rest ih =>
    obtain ⟨hfirst, hrest⟩ := List.forall_mem_cons.1 h
    rw [patchLabels_cons]
    by_cases hid : patch.node = id
    · simp only [patchAdds, List.foldr_cons, hid, if_true, Finset.disjoint_union_left] at hadds ⊢
      refine (ih hrest hadds.2 _).trans ?_
      rw [Patch.apply_eq, addLabels, if_pos hadds.1]
      obtain ⟨hfork, hsub, hroot⟩ := hfirst
      have hadd := disjoint_terminal.1 hadds.1
      simp only [List.mem_toFinset] at hadd
      cases type <;>
        simp only [SessionType.label, Finset.mem_union, Finset.mem_sdiff, List.mem_toFinset] <;>
        grind
    · simp only [patchAdds, List.foldr_cons, hid, if_false] at hadds ⊢
      exact ih hrest hadds start

theorem relabelled_twice (h : ∀ patch ∈ patches, Raises patch) (row labels : Finset String) :
    patchLabels patches id (addLabels row (patchLabels patches id (addLabels row labels)))
      = patchLabels patches id (addLabels row labels) := by
  ext label
  rcases label_cases label with ⟨type, rfl⟩ | ⟨hsub, hroot⟩
  · by_cases hplain : Disjoint row terminalLabels ∧ Disjoint (patchAdds patches id) terminalLabels
    · rw [mem_relabelled_of_disjoint h hplain.1 hplain.2]
    · -- a type label is added, so both sides hold just one, the join of all that were there
      have hsingle : ∀ start, Single (patchLabels patches id (addLabels row start)) := by
        intro start
        apply single_patchLabels h
        rcases not_and_or.1 hplain with hrow | hadds
        · exact .inl (single_addLabels (.inr hrow))
        · exact .inr hadds
      have hcurr : ∀ start, currentType (patchLabels patches id (addLabels row start))
          = currentType (start ∪ (row ∪ patchAdds patches id)) := by
        intro start
        rw [currentType_patchLabels h, currentType_union_congr (currentType_addLabels row start),
          Finset.union_assoc]
      rw [(hsingle _).mem_iff, (hsingle _).mem_iff, hcurr,
        currentType_union_congr (hcurr labels), hcurr, Finset.union_assoc, Finset.union_self]
  · rcases patchLabels_cases hsub hroot patches id with hon | hoff | hsame
    · simp [hon]
    · simp [hoff]
    · simp [hsame, mem_addLabels_of_ne hsub hroot]

theorem relabelled_after_initial {first : List Patch} (h : ∀ patch ∈ patches, Raises patch)
    (hinit : first <+: patches) (row labels : Finset String) :
    patchLabels patches id (addLabels row (patchLabels first id (addLabels row labels)))
      = patchLabels patches id (addLabels row labels) := by
  obtain ⟨rest, rfl⟩ := hinit
  have hfirst : ∀ patch ∈ first, Raises patch := fun patch hmem =>
    h patch (List.mem_append_left rest hmem)
  rw [patchLabels_append, patchLabels_append, relabelled_twice hfirst]

end Labels

/-! ## Rows and edges -/

theorem Props.overlay_overlay (new old : Props) :
    new.overlay (new.overlay old) = new.overlay old := by
  funext key
  simp only [Props.overlay]
  cases new key <;> simp

theorem fill_fill_overlay (new old : Props) (workingDir status : Option Value) :
    ((new.overlay (((new.overlay old).fill "working_dir" workingDir).fill "status" status)).fill
        "working_dir" workingDir).fill "status" status
      = ((new.overlay old).fill "working_dir" workingDir).fill "status" status := by
  funext key
  by_cases hstat : key = "status"
  · subst hstat
    simp only [Props.fill, Props.overlay, Function.update_self, ne_eq, String.reduceEq,
      not_false_eq_true, Function.update_of_ne]
    cases new "status" <;> cases old "status" <;> cases status <;> rfl
  · by_cases hdir : key = "working_dir"
    · subst hdir
      simp only [Props.fill, Props.overlay, Function.update_self, ne_eq, String.reduceEq,
        not_false_eq_true, Function.update_of_ne]
      cases new "working_dir" <;> cases old "working_dir" <;> cases workingDir <;> rfl
    · simp only [Props.fill, Props.overlay, ne_eq, hstat, hdir, not_false_eq_true,
        Function.update_of_ne]
      cases new key <;> rfl

section Parts

variable {env : Env} {b part : Buffer} {db : Database}

theorem mergeRow_relabel_mergeRow {id : NodeId} {row : Node} {stored : Option Node}
    {patches : List Patch} (h : ∀ patch ∈ patches, Raises patch) {first : List Patch}
    (hinit : first <+: patches) :
    (mergeRow env id row
      (some ((mergeRow env id row stored).relabel (patchLabels first id)))).relabel
        (patchLabels patches id)
      = (mergeRow env id row stored).relabel (patchLabels patches id) := by
  simp only [mergeRow_eq, Node.relabel, Option.getD_some, fill_fill_overlay,
    relabelled_after_initial h hinit]

theorem writeEdge_writeEdge (src dst : NodeId) (type : String) (edge stored : Option Props) :
    writeEdge env src dst type edge (writeEdge env src dst type edge stored)
      = writeEdge env src dst type edge stored := by
  cases edge with
  | none => rfl
  | some p =>
    by_cases htype : edgeType p = type
    · simp [writeEdge, htype, Props.overlay_overlay]
    · simp [writeEdge, htype]

theorem hasEnd_iff (b : Buffer) (id : NodeId) :
    b.HasEnd id ↔ ∃ key, (key.1 = id ∨ key.2 = id) ∧ (b.edges.get key).isSome := by
  simp only [Option.isSome_iff_ne_none, ne_eq, Dict.get_eq_none, not_not, Buffer.HasEnd, and_comm]

theorem Part.hasEnd (h : Part b part) {id : NodeId} (hend : part.HasEnd id) : b.HasEnd id := by
  rw [hasEnd_iff] at hend ⊢
  obtain ⟨key, hkey, hsome⟩ := hend
  refine ⟨key, hkey, ?_⟩
  rcases h.edge key with heq | hnone
  · rwa [← heq]
  · rw [hnone] at hsome
    cases hsome

theorem flush_part (hpatched : Patched b) (hraise : ∀ patch ∈ b.patches, Raises patch)
    (h : Part b part) : (db.flush env part).flush env b = db.flush env b := by
  apply Database.ext_get
  · intro id
    rw [nodes_flush env b, nodes_flush env b, nodes_flush env part]
    cases hrow : b.nodes.get id with
    | none =>
      -- no row, hence no patch: the node is as stored or a placeholder
      have hpar : part.nodes.get id = none := by
        rcases h.row id with heq | hnone
        · rw [heq, hrow]
        · exact hnone
      have hlabs : ∀ labels, patchLabels part.patches id labels = labels := by
        intro labels
        apply patchLabels_of_forall_ne
        rintro patch hpatch rfl
        have hsome := hpatched patch (h.patches.subset hpatch)
        rw [hrow] at hsome
        cases hsome
      have hkeep : Node.relabel (patchLabels part.patches id) = fun node => node := by
        funext node
        simp [Node.relabel, hlabs]
      have hkeep' : Node.relabel (patchLabels b.patches id) = fun node => node := by
        funext node
        simp [Node.relabel, hpatched.patchLabels_eq hrow]
      simp only [hpar, writeRow, hkeep, hkeep', Option.map_id']
      cases db.nodes id with
      | some node => rfl
      | none =>
        by_cases hend : part.HasEnd id
        · simp [hend, h.hasEnd hend]
        · simp [hend]
    | some row =>
      rcases h.row id with heq | hnone
      · rw [heq, hrow]
        simp only [writeRow, Option.map_some, Option.some_or]
        rw [mergeRow_relabel_mergeRow hraise h.patches]
      · -- the row is not written yet, so nothing after the rows is
        have hlate : ¬ ∀ id, part.nodes.get id = b.nodes.get id := by
          intro hall
          rw [hall id, hrow] at hnone
          cases hnone
        have hpatches : part.patches = [] := by
          by_contra hne
          exact hlate (h.rows_first hne)
        have hend : ¬ part.HasEnd id := by
          rw [hasEnd_iff]
          rintro ⟨key, -, hsome⟩
          exact hlate (h.rows_first' ⟨key, hsome⟩)
        have hkeep : Node.relabel (patchLabels [] id) = fun node => node := by
          funext node
          simp [Node.relabel]
        simp only [hnone, hpatches, writeRow, if_neg hend, Option.or_none, hkeep, Option.map_id']
  · intro src dst type
    simp only [relationships_flush]
    rcases h.edge (src, dst) with heq | hnone
    · rw [heq, writeEdge_writeEdge]
    · rw [hnone]
      rfl

end Parts

/-! ## Attempts -/

theorem raises_of_fromHandlers {calls : List Call} (h : ∀ call ∈ calls, FromHandlers call)
    {b : Buffer} (hb : ∀ patch ∈ b.patches, Raises patch) :
    ∀ patch ∈ (calls.foldl Buffer.call b).patches, Raises patch := by
  induction calls generalizing b with
  | nil => exact hb
  | cons call rest ih =>
    obtain ⟨hfirst, hrest⟩ := List.forall_mem_cons.1 h
    apply ih hrest
    cases call with
    | setLabels id remove add =>
      intro patch hpatch
      rcases List.mem_append.1 hpatch with hold | hnew
      · exact hb patch hold
      · obtain ⟨current, event, hasParent, hclassify⟩ := hfirst
        rw [List.mem_singleton.1 hnew]
        exact raises_of_classify hclassify
    | upsertNode id labels fields => exact hb
    | upsertEdge src dst fields => exact hb
    | removeEdge src dst => exact hb

theorem patched_foldl (calls : List Call) {b : Buffer} (h : Patched b) :
    Patched (calls.foldl Buffer.call b) := by
  induction calls generalizing b with
  | nil => exact h
  | cons call rest ih => exact ih (h.call call)

/-- However often a flush of what the handlers buffered fails, and wherever it does, the one that
succeeds at last leaves the store that a flush without failures would have left. -/
theorem flushBody_after_failures (env : Env) (lim : Limits) (db : Database) (calls : List Call)
    (hcalls : ∀ call ∈ calls, FromHandlers call) (failures : List ℕ) :
    flushBody env lim none (failures.foldl (fun s n => flushBody env lim (some n) s)
        ⟨calls.foldl Buffer.call Buffer.empty, db⟩)
      = flushBody env lim none ⟨calls.foldl Buffer.call Buffer.empty, db⟩ := by
  have hpatched : Patched (calls.foldl Buffer.call Buffer.empty) :=
    patched_foldl calls fun _ hpatch => absurd hpatch List.not_mem_nil
  have hraise := raises_of_fromHandlers hcalls (b := Buffer.empty)
    fun _ hpatch => absurd hpatch List.not_mem_nil
  generalize calls.foldl Buffer.call Buffer.empty = b at hpatched hraise
  induction failures generalizing db with
  | nil => rfl
  | cons n rest ih =>
    obtain ⟨part, hpart, hcomm⟩ := exists_part env lim b db n
    rw [List.foldl_cons]
    simp only [flushBody, restore_empty, hcomm, commitAll_transactions] at ih ⊢
    rw [ih, flush_part hpatched hraise hpart]

/-- The start of a session, flushed in chunks of one row; the first attempt fails before the patch,
the second before the edge. -/
theorem flushBody_after_two_failures :
    let calls : List Call := [.upsertNode "s" {"Session"} [("started_at", .str "t")],
      .upsertEdge "s" "e" sourcedFrom,
      .setLabels "s" ["StubSession"] ["RootSession", "Session", "SST_EVENT"]]
    let lim : Limits := ⟨1, 1000, fun _ => 1, fun _ => 1, fun _ => 1⟩
    flushBody sampleEnv lim none ([1, 2].foldl (fun s n => flushBody sampleEnv lim (some n) s)
        ⟨calls.foldl Buffer.call Buffer.empty, Database.empty⟩)
      = flushBody sampleEnv lim none ⟨calls.foldl Buffer.call Buffer.empty, Database.empty⟩ := by
  intro calls lim
  apply flushBody_after_failures
  intro call hcall
  simp only [calls, List.mem_cons, List.not_mem_nil, or_false] at hcall
  rcases hcall with rfl | rfl | rfl
  · trivial
  · exact ⟨"SOURCED_FROM", rfl⟩
  · exact ⟨none, .start, false, rfl⟩

end ContextIntelligence.Store
