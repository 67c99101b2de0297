import ContextIntelligence.Graph.Calls

/-!
# The algebra of label changes

Two additions of labels in a row are one addition of both sets (`addLabels_addLabels`), so a patch
is a removal followed by one addition (`Patch.apply_eq`). Every label but `SubSession` and
`RootSession` comes and goes on its own.
-/

namespace ContextIntelligence.Graph

/-! ## Adding labels -/

variable {label : String} {labels : Finset String}

theorem mem_normalise :
    label ∈ normalise labels ↔ label ∈ labels
      ∧ (label = "SubSession" → "ForkedSession" ∉ labels)
      ∧ (label = "RootSession" → "ForkedSession" ∉ labels ∧ "SubSession" ∉ labels) := by
  unfold normalise
  by_cases hfork : "ForkedSession" ∈ labels
  · simp [hfork]
    tauto
  · by_cases hsub : "SubSession" ∈ labels
    · simp [hfork, hsub]
      tauto
    · simp [hfork, hsub]

theorem mem_addLabels {new labels : Finset String} :
    label ∈ addLabels new labels ↔ (label ∈ labels ∨ label ∈ new)
      ∧ (¬ Disjoint new terminalLabels → (label = "SubSession" → "ForkedSession" ∉ labels ∪ new)
        ∧ (label = "RootSession" →
          "ForkedSession" ∉ labels ∪ new ∧ "SubSession" ∉ labels ∪ new)) := by
  unfold addLabels
  by_cases h : Disjoint new terminalLabels
  · simp [h]
  · simp [h, mem_normalise]

theorem mem_addLabels_of_ne (hsub : label ≠ "SubSession")
    (hroot : label ≠ "RootSession") {new labels : Finset String} :
    label ∈ addLabels new labels ↔ label ∈ labels ∨ label ∈ new := by
  simp [mem_addLabels, hsub, hroot]

theorem disjoint_terminal :
    Disjoint labels terminalLabels ↔ "ForkedSession" ∉ labels ∧ "SubSession" ∉ labels
      ∧ "RootSession" ∉ labels := by
  simp [terminalLabels]

theorem addLabels_addLabels (a b labels : Finset String) :
    addLabels b (addLabels a labels) = addLabels (a ∪ b) labels := by
  ext label
  by_cases hsub : label = "SubSession"
  · subst hsub
    simp only [mem_addLabels, disjoint_terminal, Finset.mem_union]
    grind
  · by_cases hroot : label = "RootSession"
    · subst hroot
      simp only [mem_addLabels, disjoint_terminal, Finset.mem_union]
      grind
    · simp [mem_addLabels_of_ne hsub hroot, or_assoc]

theorem addLabels_comm (a b labels : Finset String) :
    addLabels a (addLabels b labels) = addLabels b (addLabels a labels) := by
  rw [addLabels_addLabels, addLabels_addLabels, Finset.union_comm]

@[simp] theorem addLabels_empty (labels : Finset String) : addLabels ∅ labels = labels := by
  simp [addLabels]

/-! ## Patches -/

theorem Patch.apply_eq (patch : Patch) (labels : Finset String) :
    patch.apply labels = addLabels patch.add.toFinset (labels \ patch.remove.toFinset) := by
  unfold Patch.apply
  generalize labels \ patch.remove.toFinset = kept
  induction patch.add generalizing kept with
  | nil => simp
  | cons label rest ih =>
    rw [List.foldl_cons, ih, addLabels_addLabels]
    congr 1
    ext
    simp

def patchLabels (patches : List Patch) (id : NodeId) (labels : Finset String) : Finset String :=
  (patches.filter (·.node = id)).foldl (fun labels patch => patch.apply labels) labels

@[simp] theorem patchLabels_nil (id : NodeId) (labels : Finset String) :
    patchLabels [] id labels = labels := rfl

theorem patchLabels_cons (patch : Patch) (rest : List Patch) (id : NodeId)
    (labels : Finset String) :
    patchLabels (patch :: rest) id labels
      = patchLabels rest id (if patch.node = id then patch.apply labels else labels) := by
  by_cases h : patch.node = id
  · simp [patchLabels, h]
  · simp [patchLabels, h]

theorem patchLabels_append (patches more : List Patch) (id : NodeId) (labels : Finset String) :
    patchLabels (patches ++ more) id labels
      = patchLabels more id (patchLabels patches id labels) := by
  simp [patchLabels, List.foldl_append]

variable {patches : List Patch}

theorem patchLabels_of_forall_ne {id : NodeId}
    (h : ∀ patch ∈ patches, patch.node ≠ id) (labels : Finset String) :
    patchLabels patches id labels = labels := by
  have hnone : patches.filter (·.node = id) = [] := by simpa using h
  rw [patchLabels, hnone]
  rfl

/-! ## An addition before and after patches -/

/-- A label of the first set is removed by the patch, or displaced by a label that the patch
removes. -/
def Covers (removed label : String) : Prop :=
  removed = label ∨ removed = "ForkedSession" ∧ label ∈ ["SubSession", "RootSession"]
    ∨ removed = "SubSession" ∧ label = "RootSession"

instance (removed label : String) : Decidable (Covers removed label) := by
  unfold Covers
  infer_instance

/-- The patch removes none of the labels, nor a more specific type label. -/
def Patch.Spares (patch : Patch) (labels : Finset String) : Prop :=
  ∀ removed ∈ patch.remove, ∀ label ∈ labels, ¬ Covers removed label

instance (patch : Patch) (labels : Finset String) : Decidable (patch.Spares labels) := by
  unfold Patch.Spares
  infer_instance

theorem addLabels_sdiff {new removed : Finset String}
    (h : ∀ r ∈ removed, ∀ label ∈ new, ¬ Covers r label) (labels : Finset String) :
    addLabels new labels \ removed = addLabels new (labels \ removed) := by
  have hkept : ∀ label ∈ new, label ∉ removed := fun label hnew hremoved =>
    h label hremoved label hnew (.inl rfl)
  ext label
  simp only [Covers] at h
  by_cases hsub : label = "SubSession"
  · subst hsub
    simp only [mem_addLabels, disjoint_terminal, Finset.mem_union, Finset.mem_sdiff]
    grind
  · by_cases hroot : label = "RootSession"
    · subst hroot
      simp only [mem_addLabels, disjoint_terminal, Finset.mem_union, Finset.mem_sdiff]
      grind
    · simp only [mem_addLabels_of_ne hsub hroot, Finset.mem_sdiff]
      grind

theorem patchLabels_addLabels {id : NodeId} {new : Finset String}
    (h : ∀ patch ∈ patches, patch.node = id → patch.Spares new) (labels : Finset String) :
    patchLabels patches id (addLabels new labels)
      = addLabels new (patchLabels patches id labels) := by
  induction patches generalizing labels with
  | nil => rfl
  | cons patch rest ih =>
    obtain ⟨hfirst, hrest⟩ := List.forall_mem_cons.1 h
    rw [patchLabels_cons, patchLabels_cons]
    by_cases hid : patch.node = id
    · have hspares : ∀ r ∈ patch.remove.toFinset, ∀ label ∈ new, ¬ Covers r label :=
        fun r hr => hfirst hid r (List.mem_toFinset.1 hr)
      rw [if_pos hid, if_pos hid, Patch.apply_eq, Patch.apply_eq, addLabels_sdiff hspares,
        addLabels_comm, ih hrest]
    · rw [if_neg hid, if_neg hid, ih hrest]

/-! ## A patch that also changes the row

`set_labels` changes the buffered labels and queues the patch. What the patch then finds differs
from what it would find had the row been written first; whether it matters depends on the labels
that decide what becomes of `SubSession` and `RootSession`. -/

/-- A set of labels that holds with each type label the more specific ones. -/
structure Upward (T : Set String) : Prop where
  sub : "SubSession" ∈ T → "ForkedSession" ∈ T
  root : "RootSession" ∈ T → "ForkedSession" ∈ T ∧ "SubSession" ∈ T

theorem upward_singleton (hsub : label ≠ "SubSession")
    (hroot : label ≠ "RootSession") : Upward {label} :=
  ⟨fun h => absurd h.symm hsub, fun h => absurd h.symm hroot⟩

/-- The two label sets agree on `T`. -/
def AgreeOn (T : Set String) (labels labels' : Finset String) : Prop :=
  ∀ label ∈ T, label ∈ labels ↔ label ∈ labels'

theorem AgreeOn.addLabels {T : Set String} (hT : Upward T) {labels labels' : Finset String}
    (h : AgreeOn T labels labels') (new : Finset String) :
    AgreeOn T (addLabels new labels) (addLabels new labels') := by
  intro label hlab
  simp only [mem_addLabels, Finset.mem_union, h label hlab]
  by_cases hsub : label = "SubSession"
  · subst hsub
    simp [h _ (hT.sub hlab)]
  · by_cases hroot : label = "RootSession"
    · subst hroot
      simp [h _ (hT.root hlab).1, h _ (hT.root hlab).2]
    · simp [hsub, hroot]

theorem AgreeOn.patchLabels {T : Set String} (hT : Upward T) {labels labels' : Finset String}
    (h : AgreeOn T labels labels') (patches : List Patch) (id : NodeId) :
    AgreeOn T (patchLabels patches id labels) (patchLabels patches id labels') := by
  induction patches generalizing labels labels' with
  | nil => exact h
  | cons patch rest ih =>
    rw [patchLabels_cons, patchLabels_cons]
    apply ih
    by_cases hid : patch.node = id
    · rw [if_pos hid, if_pos hid, Patch.apply_eq, Patch.apply_eq]
      apply AgreeOn.addLabels hT
      intro label hlab
      simp [h label hlab]
    · rw [if_neg hid, if_neg hid]
      exact h

theorem mem_patchLabels_of_mem (hsub : label ≠ "SubSession")
    (hroot : label ≠ "RootSession") {id : NodeId}
    (hpatches : ∀ patch ∈ patches, patch.node = id → label ∉ patch.remove)
    (h : label ∈ labels) : label ∈ patchLabels patches id labels := by
  induction patches generalizing labels with
  | nil => exact h
  | cons patch rest ih =>
    obtain ⟨hfirst, hrest⟩ := List.forall_mem_cons.1 hpatches
    rw [patchLabels_cons]
    apply ih hrest
    by_cases hid : patch.node = id
    · rw [if_pos hid, Patch.apply_eq, mem_addLabels_of_ne hsub hroot]
      simp [h, hfirst hid]
    · rwa [if_neg hid]

/-- The patch decides the type of the session by itself, or leaves it alone: it touches no type
label, or adds one of the two specific ones, or adds `RootSession` where no more specific label is
removed by it or by a patch before it. -/
def Patch.Decides (patch : Patch) (earlier : List Patch) : Prop :=
  (∀ label ∈ patch.remove ++ patch.add, label ∉ terminalLabels)
    ∨ "ForkedSession" ∈ patch.add ∨ "SubSession" ∈ patch.add
    ∨ "RootSession" ∈ patch.add ∧ "ForkedSession" ∉ patch.remove ∧ "SubSession" ∉ patch.remove
      ∧ ∀ q ∈ earlier, q.node = patch.node → "ForkedSession" ∉ q.remove

instance (patch : Patch) (earlier : List Patch) : Decidable (patch.Decides earlier) := by
  unfold Patch.Decides
  infer_instance

section Relabelled

variable (patch : Patch) (patches : List Patch) (row labels : Finset String)

/-- The labels of the node when row and patch are flushed in one. -/
def patchedTogether : Finset String :=
  patch.apply (patchLabels patches patch.node
    (addLabels ((row \ patch.remove.toFinset) ∪ patch.add.toFinset) labels))

/-- The labels of the node when the row is flushed before `set_labels` is called. -/
def patchedInTurn : Finset String :=
  patch.apply (addLabels patch.add.toFinset
    (patchLabels patches patch.node (addLabels row labels)))

variable {patch patches row labels}

theorem mem_changedRow {label : String} (hsub : label ≠ "SubSession")
    (hroot : label ≠ "RootSession") (hrem : label ∉ patch.remove) (hadd : label ∉ patch.add) :
    label ∈ addLabels ((row \ patch.remove.toFinset) ∪ patch.add.toFinset) labels
      ↔ label ∈ addLabels row labels := by
  simp [mem_addLabels_of_ne hsub hroot, hrem, hadd]

theorem mem_patched_iff {label : String} (hsub : label ≠ "SubSession")
    (hroot : label ≠ "RootSession") :
    label ∈ patchedTogether patch patches row labels
      ↔ label ∈ patchedInTurn patch patches row labels := by
  simp only [patchedTogether, patchedInTurn, Patch.apply_eq, mem_addLabels_of_ne hsub hroot,
    Finset.mem_sdiff, List.mem_toFinset]
  by_cases hadd : label ∈ patch.add
  · simp [hadd]
  · by_cases hrem : label ∈ patch.remove
    · simp [hrem]
    · have hagree : AgreeOn {label}
          (addLabels ((row \ patch.remove.toFinset) ∪ patch.add.toFinset) labels)
          (addLabels row labels) := by
        rintro _ rfl
        exact mem_changedRow hsub hroot hrem hadd
      have hpatch := hagree.patchLabels (upward_singleton hsub hroot) patches patch.node label rfl
      simp [hadd, hrem, hpatch]

theorem agreeOn_patched_of_plain
    (hplain : ∀ label ∈ patch.remove ++ patch.add, label ∉ terminalLabels) :
    AgreeOn {"ForkedSession", "SubSession", "RootSession"}
      (patchedTogether patch patches row labels) (patchedInTurn patch patches row labels) := by
  have hupward : Upward {"ForkedSession", "SubSession", "RootSession"} := by
    constructor <;> simp
  have hnone : ∀ label ∈ ({"ForkedSession", "SubSession", "RootSession"} : Set String),
      label ∉ patch.remove ∧ label ∉ patch.add := by
    intro label hlab
    have hmem : label ∈ terminalLabels := by simpa [terminalLabels] using hlab
    exact ⟨fun h => hplain label (List.mem_append_left _ h) hmem,
      fun h => hplain label (List.mem_append_right _ h) hmem⟩
  have hf := hnone "ForkedSession" (by simp)
  have hs := hnone "SubSession" (by simp)
  have hr := hnone "RootSession" (by simp)
  have hrow : AgreeOn {"ForkedSession", "SubSession", "RootSession"}
      (addLabels ((row \ patch.remove.toFinset) ∪ patch.add.toFinset) labels)
      (addLabels row labels) := by
    intro label hlab
    have hlab := hnone label hlab
    simp [mem_addLabels, disjoint_terminal, hf, hs, hr, hlab]
  have hpatch := hrow.patchLabels hupward patches patch.node
  rw [patchedTogether, patchedInTurn, Patch.apply_eq, Patch.apply_eq]
  apply AgreeOn.addLabels hupward
  intro label hlab
  have hnamed := hnone label hlab
  simp [mem_addLabels, disjoint_terminal, hpatch label hlab, hf, hs, hr, hnamed]

/-- A patch that adds a specific type label leaves no other than that and `ForkedSession`. -/
theorem agreeOn_patched_of_specific (h : "ForkedSession" ∈ patch.add ∨ "SubSession" ∈ patch.add) :
    AgreeOn {"SubSession", "RootSession"}
      (patchedTogether patch patches row labels) (patchedInTurn patch patches row labels) := by
  have hfork : "ForkedSession" ∈ patchedTogether patch patches row labels
      ↔ "ForkedSession" ∈ patchedInTurn patch patches row labels :=
    mem_patched_iff (by decide) (by decide)
  simp only [patchedTogether, patchedInTurn, Patch.apply_eq] at hfork ⊢
  rw [mem_addLabels_of_ne (by decide) (by decide), mem_addLabels_of_ne (by decide) (by decide)]
    at hfork
  rintro label (rfl | rfl) <;>
    simp only [mem_addLabels, disjoint_terminal, Finset.mem_union, List.mem_toFinset] at hfork ⊢ <;>
    grind

/-- A patch that adds `RootSession` leaves the more specific label that the node has. -/
theorem agreeOn_patched_of_root (hadd : "RootSession" ∈ patch.add)
    (hfork : "ForkedSession" ∉ patch.remove) (hsub : "SubSession" ∉ patch.remove)
    (hearlier : ∀ q ∈ patches, q.node = patch.node → "ForkedSession" ∉ q.remove)
    (hspec : "ForkedSession" ∉ patch.add ∧ "SubSession" ∉ patch.add) :
    AgreeOn {"SubSession", "RootSession"}
      (patchedTogether patch patches row labels) (patchedInTurn patch patches row labels) := by
  have hfor : "ForkedSession" ∈ addLabels
      ((row \ patch.remove.toFinset) ∪ patch.add.toFinset) labels
        ↔ "ForkedSession" ∈ addLabels row labels :=
    mem_changedRow (by decide) (by decide) hfork hspec.1
  simp only [patchedTogether, patchedInTurn, Patch.apply_eq]
  by_cases hrow : "ForkedSession" ∈ addLabels row labels
  · -- `ForkedSession` is never removed, so it displaces both
    have htogether := mem_patchLabels_of_mem (by decide) (by decide) hearlier (hfor.2 hrow)
    have hturn := mem_patchLabels_of_mem (by decide) (by decide) hearlier hrow
    rintro label (rfl | rfl) <;>
      simp only [mem_addLabels, disjoint_terminal, Finset.mem_union, Finset.mem_sdiff,
        List.mem_toFinset] <;>
      grind
  · -- without it `SubSession` comes and goes on its own
    have hupward : Upward {"ForkedSession", "SubSession"} := by
      constructor <;> simp
    have hagree : AgreeOn {"ForkedSession", "SubSession"}
        (addLabels ((row \ patch.remove.toFinset) ∪ patch.add.toFinset) labels)
        (addLabels row labels) := by
      rw [mem_addLabels_of_ne (by decide) (by decide)] at hrow
      rintro label (rfl | rfl)
      · exact hfor
      · simp only [mem_addLabels, disjoint_terminal, Finset.mem_union, Finset.mem_sdiff,
          List.mem_toFinset]
        grind
    have hpatch := hagree.patchLabels hupward patches patch.node
    have hf := hpatch "ForkedSession" (by simp)
    have hs := hpatch "SubSession" (by simp)
    rintro label (rfl | rfl) <;>
      simp only [mem_addLabels, disjoint_terminal, Finset.mem_union, Finset.mem_sdiff,
        List.mem_toFinset, hf, hs] <;>
      grind

theorem patchedTogether_eq (h : patch.Decides patches) (row labels : Finset String) :
    patchedTogether patch patches row labels = patchedInTurn patch patches row labels := by
  have hdisplace : AgreeOn {"SubSession", "RootSession"}
      (patchedTogether patch patches row labels) (patchedInTurn patch patches row labels) := by
    by_cases hspec : "ForkedSession" ∈ patch.add ∨ "SubSession" ∈ patch.add
    · exact agreeOn_patched_of_specific hspec
    · rw [not_or] at hspec
      rcases h with hplain | hadd | hadd | ⟨hadd, hfork, hsub, hearlier⟩
      · intro label hlab
        exact agreeOn_patched_of_plain hplain label (.inr hlab)
      · exact absurd hadd hspec.1
      · exact absurd hadd hspec.2
      · exact agreeOn_patched_of_root hadd hfork hsub hearlier hspec
  ext label
  by_cases hsub : label = "SubSession"
  · exact hdisplace label (.inl hsub)
  · by_cases hroot : label = "RootSession"
    · exact hdisplace label (.inr hroot)
    · exact mem_patched_iff hsub hroot

end Relabelled

end ContextIntelligence.Graph
