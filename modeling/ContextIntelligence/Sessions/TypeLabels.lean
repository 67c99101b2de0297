import ContextIntelligence.Handlers.Frames

/-!
# Type labels of a session across a flush

A session is typed once its node carries a terminal label. A flush keeps it typed, since a patch
removes a terminal label only to add another; nor does it invent `IncompleteSession`.
-/

namespace ContextIntelligence.Sessions

open Lib ContextIntelligence.Graph Handlers

/-! ## Labels -/

def Typed (labels : Finset String) : Prop := ∃ label ∈ terminalLabels, label ∈ labels

variable {labels : Finset String}

theorem typed_iff :
    Typed labels ↔ "ForkedSession" ∈ labels ∨ "SubSession" ∈ labels ∨ "RootSession" ∈ labels := by
  simp [Typed, terminalLabels]

theorem Typed.mono {labels labels' : Finset String} (h : Typed labels) (hsub : labels ⊆ labels') :
    Typed labels' := by
  obtain ⟨label, hterm, hlab⟩ := h
  exact ⟨label, hterm, hsub hlab⟩

theorem currentType_eq_none : currentType labels = none ↔ ¬ Typed labels := by
  rw [typed_iff]
  unfold currentType
  split
  · simp [*]
  · split
    · simp [*]
    · split <;> simp [*]

theorem normalise_subset (labels : Finset String) : normalise labels ⊆ labels := by
  unfold normalise
  dsimp only
  split <;> split <;> intro label h <;> simp_all

theorem typed_normalise (h : Typed labels) : Typed (normalise labels) := by
  rw [typed_iff] at h ⊢
  unfold normalise
  by_cases hfork : "ForkedSession" ∈ labels
  · simp [hfork]
  · by_cases hsub : "SubSession" ∈ labels
    · simp [hfork, hsub]
    · have hroot : "RootSession" ∈ labels := by simpa [hfork, hsub] using h
      simp [hfork, hsub, hroot]

theorem addLabels_subset (new labels : Finset String) : addLabels new labels ⊆ labels ∪ new := by
  unfold addLabels
  split
  · exact Finset.Subset.refl _
  · exact normalise_subset _

theorem typed_addLabels {new labels : Finset String} (h : Typed labels ∨ Typed new) :
    Typed (addLabels new labels) := by
  have hunion : Typed (labels ∪ new) := by
    rcases h with h | h
    · exact h.mono Finset.subset_union_left
    · exact h.mono Finset.subset_union_right
  unfold addLabels
  split
  · exact hunion
  · exact typed_normalise hunion

/-! ## Patches -/

/-- A patch that does not mark the session incomplete, and that takes a terminal label away only to
put another in its place. -/
structure Sound (patch : Patch) : Prop where
  unmarked : "IncompleteSession" ∉ patch.add
  replaces : (∃ label ∈ patch.remove, label ∈ terminalLabels) →
    ∃ label ∈ patch.add, label ∈ terminalLabels

theorem foldl_addLabels_subset (add : List String) (labels : Finset String) :
    add.foldl (fun labels label => addLabels {label} labels) labels ⊆ labels ∪ add.toFinset := by
  induction add generalizing labels with
  | nil => simp
  | cons label rest ih =>
    refine (ih _).trans ?_
    intro x hx
    rcases Finset.mem_union.1 hx with hx | hx
    · rcases Finset.mem_union.1 (addLabels_subset {label} labels hx) with hold | hnew
      · simp [hold]
      · simp [Finset.mem_singleton.1 hnew]
    · simp [List.mem_toFinset.1 hx]

theorem typed_foldl_addLabels {add : List String}
    (h : Typed labels ∨ ∃ label ∈ add, label ∈ terminalLabels) :
    Typed (add.foldl (fun labels label => addLabels {label} labels) labels) := by
  induction add generalizing labels with
  | nil => exact h.resolve_right (by simp)
  | cons label rest ih =>
    apply ih
    rcases h with h | ⟨label', hmem, hterm⟩
    · exact .inl (typed_addLabels (.inl h))
    · rcases List.mem_cons.1 hmem with rfl | hrest
      · exact .inl (typed_addLabels (.inr ⟨label', hterm, Finset.mem_singleton_self _⟩))
      · exact .inr ⟨label', hrest, hterm⟩

theorem Sound.unmarked_apply {patch : Patch} (h : Sound patch)
    (hlabs : "IncompleteSession" ∉ labels) : "IncompleteSession" ∉ patch.apply labels := by
  intro hmem
  rcases Finset.mem_union.1 (foldl_addLabels_subset _ _ hmem) with hold | hnew
  · exact hlabs (Finset.mem_sdiff.1 hold).1
  · exact h.unmarked (List.mem_toFinset.1 hnew)

theorem Sound.typed_apply {patch : Patch} (h : Sound patch)
    (hlabs : Typed labels) : Typed (patch.apply labels) := by
  apply typed_foldl_addLabels
  obtain ⟨label, hterm, hlab⟩ := hlabs
  by_cases hrem : label ∈ patch.remove
  · exact .inr (h.replaces ⟨label, hrem, hterm⟩)
  · exact .inl ⟨label, hterm, Finset.mem_sdiff.2 ⟨hlab, by simpa using hrem⟩⟩

/-! ## The stored node -/

def storedLabels (db : Database) (id : NodeId) : Finset String :=
  ((db.nodes id).map Node.labels).getD ∅

theorem storedLabels_writePatch (db : Database) (patch : Patch) (id : NodeId) :
    storedLabels (db.writePatch patch) id
      = if patch.node = id ∧ (db.nodes id).isSome then patch.apply (storedLabels db id)
        else storedLabels db id := by
  unfold storedLabels Database.writePatch
  by_cases hid : patch.node = id
  · cases hnode : db.nodes id <;> simp [hid, hnode]
  · simp [hid]

theorem mergeRow_labels (env : Env) (id : NodeId) (row : Node) (stored : Option Node) :
    ∃ base, (mergeRow env id row stored).labels = addLabels row.labels base
      ∧ ((stored.map Node.labels).getD ∅ ⊆ base)
      ∧ base ⊆ (stored.map Node.labels).getD ∅ ∪ {"Node", "Session"} := by
  unfold mergeRow
  dsimp only
  cases stored with
  | none =>
    split
    · exact ⟨_, rfl, by simp, by simp [created, placeholder]; decide⟩
    · exact ⟨_, rfl, by simp, by simp [created, placeholder]⟩
  | some node =>
    split
    · refine ⟨_, rfl, Finset.subset_insert _ _, ?_⟩
      intro label h
      rcases Finset.mem_insert.1 h with rfl | h
      · simp
      · exact Finset.mem_union_left _ h
    · exact ⟨_, rfl, Finset.Subset.refl _, Finset.subset_union_left⟩

theorem storedLabels_writeNodes (env : Env) (db : Database) (rows : Dict NodeId Node)
    (id : NodeId) :
    storedLabels (db.writeNodes env rows) id
      = match rows.get id with
        | none => storedLabels db id
        | some row => (mergeRow env id row (db.nodes id)).labels := by
  unfold storedLabels Database.writeNodes
  cases hrow : rows.get id <;> simp [hrow]

theorem storedLabels_writeEdges (env : Env) (db : Database)
    (edges : Dict (NodeId × NodeId) Props) (id : NodeId) :
    storedLabels (db.writeEdges env edges) id = storedLabels db id
      ∨ storedLabels db id = ∅ ∧ storedLabels (db.writeEdges env edges) id = {"Node"} := by
  unfold storedLabels Database.writeEdges
  cases hnode : db.nodes id with
  | some node => exact .inl (by simp [hnode])
  | none =>
    simp only [hnode]
    split
    · exact .inr ⟨rfl, rfl⟩
    · exact .inl rfl

variable {db : Database}

theorem labels_writePatches {P : Finset String → Prop} {patches : List Patch}
    (hpatches : ∀ patch ∈ patches, ∀ {labels}, P labels → P (patch.apply labels))
    {id : NodeId} (h : P (storedLabels db id)) :
    P (storedLabels (patches.foldl Database.writePatch db) id) := by
  induction patches generalizing db with
  | nil => exact h
  | cons patch rest ih =>
    apply ih fun patch' hmem => hpatches patch' (List.mem_cons_of_mem _ hmem)
    rw [storedLabels_writePatch]
    split
    · exact hpatches patch (List.mem_cons_self ..) h
    · exact h

/-- A property of the labels of a node that the rows give it, that every patch keeps and that a
placeholder has holds after the flush. -/
theorem labels_flush {P : Finset String → Prop} {b : Buffer} {id : NodeId} (env : Env)
    (hnodes : P (storedLabels (db.writeNodes env b.nodes) id))
    (hpatches : ∀ patch ∈ b.patches, ∀ {labels}, P labels → P (patch.apply labels))
    (hnew : P ∅ → P {"Node"}) : P (storedLabels (db.flush env b) id) := by
  have hpatch := labels_writePatches hpatches hnodes
  rw [Database.flush]
  rcases storedLabels_writeEdges env (b.patches.foldl Database.writePatch
    (db.writeNodes env b.nodes)) b.edges id with hsame | ⟨hempty, hplace⟩
  · rw [hsame]
    exact hpatch
  · rw [hplace]
    exact hnew (hempty ▸ hpatch)

theorem unmarked_flush {b : Buffer} {id : NodeId} (env : Env)
    (hpatches : ∀ patch ∈ b.patches, Sound patch)
    (hbuffer : "IncompleteSession" ∉ (b.fragment id).labels)
    (hstore : "IncompleteSession" ∉ storedLabels db id) :
    "IncompleteSession" ∉ storedLabels (db.flush env b) id := by
  refine labels_flush (P := fun labels => "IncompleteSession" ∉ labels) env ?_
    (fun patch hmem => (hpatches patch hmem).unmarked_apply) (fun _ => by decide)
  rw [storedLabels_writeNodes]
  cases hrow : b.nodes.get id with
  | none => exact hstore
  | some row =>
    obtain ⟨base, hlabs, -, hbase⟩ := mergeRow_labels env id row (db.nodes id)
    rw [Buffer.fragment, hrow, Option.getD_some] at hbuffer
    dsimp only
    rw [hlabs]
    intro hmem
    rcases Finset.mem_union.1 (addLabels_subset _ _ hmem) with hmem | hmem
    · rcases Finset.mem_union.1 (hbase hmem) with hold | hnew
      · exact hstore hold
      · exact absurd hnew (by decide)
    · exact hbuffer hmem

theorem typed_flush {b : Buffer} {id : NodeId} (env : Env)
    (hpatches : ∀ patch ∈ b.patches, Sound patch)
    (h : Typed (b.fragment id).labels ∨ Typed (storedLabels db id)) :
    Typed (storedLabels (db.flush env b) id) := by
  have hempty : ¬ Typed ∅ := by
    rintro ⟨label, -, hlab⟩
    exact Finset.notMem_empty _ hlab
  refine labels_flush env ?_ (fun patch hmem => (hpatches patch hmem).typed_apply)
    (fun hnothing => absurd hnothing hempty)
  rw [storedLabels_writeNodes]
  cases hrow : b.nodes.get id with
  | none =>
    rw [Buffer.fragment, hrow] at h
    exact h.resolve_left hempty
  | some row =>
    obtain ⟨base, hlabs, hbase, -⟩ := mergeRow_labels env id row (db.nodes id)
    rw [Buffer.fragment, hrow, Option.getD_some] at h
    dsimp only
    rw [hlabs]
    exact typed_addLabels (h.symm.imp_left fun hold => hold.mono hbase)

end ContextIntelligence.Sessions
