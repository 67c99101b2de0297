import ContextIntelligence.Graph.Labels
import ContextIntelligence.Handlers.Session

/-!
# The type of a session as a join

`_current_type` reads the most specific type label off a set of labels. Every write to a node raises
that type to the join with the type of the labels it adds: a patch of the label machine removes a
type label only to add a more specific one.
-/

namespace ContextIntelligence.Sessions

open ContextIntelligence.Graph Handlers

def Single (labels : Finset String) : Prop :=
  ∀ type : SessionType, type.label ∈ labels → currentType labels = some type

variable {labels : Finset String}

theorem Single.mem_iff (h : Single labels) (type : SessionType) :
    type.label ∈ labels ↔ currentType labels = some type := by
  refine ⟨h type, ?_⟩
  intro hcurr
  unfold currentType at hcurr
  cases type <;> simp only [SessionType.label] <;> grind

theorem single_of_forall_notMem (h : Disjoint labels terminalLabels) : Single labels := by
  rw [disjoint_terminal] at h
  intro type htype
  cases type <;> simp_all [SessionType.label]

/-! ## Additions -/

theorem currentType_addLabels (new labels : Finset String) :
    currentType (addLabels new labels) = currentType (labels ∪ new) := by
  simp only [currentType, mem_addLabels, disjoint_terminal, Finset.mem_union]
  grind

theorem single_addLabels {new labels : Finset String}
    (h : Single labels ∨ ¬ Disjoint new terminalLabels) : Single (addLabels new labels) := by
  intro type htype
  rw [currentType_addLabels]
  by_cases hnew : Disjoint new terminalLabels
  · have hlabs := h.resolve_right fun hnot => hnot hnew
    have hold : type.label ∈ labels := by
      rw [addLabels, if_pos hnew] at htype
      rw [disjoint_terminal] at hnew
      rcases Finset.mem_union.1 htype with hold | hadded
      · exact hold
      · cases type <;> simp_all [SessionType.label]
    have hcurr := hlabs type hold
    rw [disjoint_terminal] at hnew
    simp only [currentType, Finset.mem_union] at hcurr ⊢
    grind
  · rw [mem_addLabels] at htype
    obtain ⟨hmem, hkept⟩ := htype
    have hkept := hkept hnew
    cases type <;> simp only [SessionType.label, currentType, Finset.mem_union] at * <;> grind

theorem currentType_union_congr {a b c : Finset String} (h : currentType a = currentType b) :
    currentType (a ∪ c) = currentType (b ∪ c) := by
  simp only [currentType, Finset.mem_union] at h ⊢
  grind

/-! ## Patches -/

/-- The patch removes a type label only to add a more specific one. -/
def Raises (patch : Patch) : Prop :=
  "ForkedSession" ∉ patch.remove
    ∧ ("SubSession" ∈ patch.remove → "ForkedSession" ∈ patch.add)
    ∧ ("RootSession" ∈ patch.remove → "ForkedSession" ∈ patch.add ∨ "SubSession" ∈ patch.add)

variable {patch : Patch}

/-- The label machine only raises the type. -/
theorem raises_of_classify {current : Option SessionType} {event : Lifecycle}
    {hasParent : Bool} (h : classify current event hasParent = ⟨patch.add, patch.remove⟩) :
    Raises patch := by
  have hall : ∀ (current : Option SessionType) (event : Lifecycle) (hasParent : Bool),
      Raises ⟨patch.node, (classify current event hasParent).remove,
        (classify current event hasParent).add⟩ := by
    rintro (_ | type) event hasParent
    · cases event <;> cases hasParent <;> simp [Raises, classify]
    · cases type <;> cases event <;> cases hasParent <;>
        simp [Raises, classify, SessionType.label]
  have hpatch := hall current event hasParent
  rwa [h] at hpatch

theorem currentType_apply (h : Raises patch) (labels : Finset String) :
    currentType (patch.apply labels) = currentType (labels ∪ patch.add.toFinset) := by
  obtain ⟨hfork, hsub, hroot⟩ := h
  rw [Patch.apply_eq, currentType_addLabels]
  simp only [currentType, Finset.mem_union, Finset.mem_sdiff, List.mem_toFinset]
  grind

theorem single_apply (h : Raises patch)
    (hlabs : Single labels ∨ ¬ Disjoint patch.add.toFinset terminalLabels) :
    Single (patch.apply labels) := by
  rw [Patch.apply_eq]
  apply single_addLabels
  by_cases hadd : Disjoint patch.add.toFinset terminalLabels
  · left
    have hsingle := hlabs.resolve_right fun hnot => hnot hadd
    obtain ⟨hfork, hsub, hroot⟩ := h
    rw [disjoint_terminal] at hadd
    simp only [List.mem_toFinset] at hadd
    -- no type label is added, so none is removed
    intro type htype
    have hcurr := hsingle type (Finset.mem_sdiff.1 htype).1
    simp only [currentType, Finset.mem_sdiff, List.mem_toFinset] at hcurr ⊢
    grind
  · exact .inr hadd

def patchAdds (patches : List Patch) (id : NodeId) : Finset String :=
  patches.foldr (fun patch adds => if patch.node = id then patch.add.toFinset ∪ adds else adds) ∅

theorem currentType_patchLabels {patches : List Patch} (h : ∀ patch ∈ patches, Raises patch)
    (id : NodeId) (labels : Finset String) :
    currentType (patchLabels patches id labels) = currentType (labels ∪ patchAdds patches id) := by
  induction patches generalizing labels with
  | nil => simp [patchAdds]
  | cons patch rest ih =>
    obtain ⟨hfirst, hrest⟩ := List.forall_mem_cons.1 h
    rw [patchLabels_cons, ih hrest]
    by_cases hid : patch.node = id
    · simp only [hid, if_true, patchAdds, List.foldr_cons]
      rw [currentType_union_congr (currentType_apply hfirst labels), Finset.union_assoc]
    · simp only [hid, if_false, patchAdds, List.foldr_cons]

theorem single_patchLabels {patches : List Patch} (h : ∀ patch ∈ patches, Raises patch)
    (id : NodeId) (hlabs : Single labels ∨ ¬ Disjoint (patchAdds patches id) terminalLabels) :
    Single (patchLabels patches id labels) := by
  induction patches generalizing labels with
  | nil => exact hlabs.resolve_right fun hnot => hnot (by simp [patchAdds])
  | cons patch rest ih =>
    obtain ⟨hfirst, hrest⟩ := List.forall_mem_cons.1 h
    rw [patchLabels_cons]
    by_cases hid : patch.node = id
    · simp only [hid, if_true]
      apply ih hrest
      simp only [hid, if_true, patchAdds, List.foldr_cons, Finset.disjoint_union_left,
        not_and_or] at hlabs
      rcases hlabs with hsingle | hadd | hadds
      · exact .inl (single_apply hfirst (.inl hsingle))
      · exact .inl (single_apply hfirst (.inr hadd))
      · exact .inr hadds
    · simp only [hid, if_false, patchAdds, List.foldr_cons] at hlabs ⊢
      exact ih hrest hlabs

end ContextIntelligence.Sessions
