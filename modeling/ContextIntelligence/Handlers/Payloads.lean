import ContextIntelligence.Handlers.Dispatch

/-!
# The payload the handlers see

Between the queue and the handlers a payload is changed in two ways: fields of `raw` are lifted, and
the blob fields are replaced by references. Every other field reaches the handlers as received.
-/

namespace ContextIntelligence.Handlers

open Lib ContextIntelligence.Graph

variable {key : String}

theorem get_foldl_of_get {α : Type} {f : Payload → α → Payload} {items : List α}
    (h : ∀ data, ∀ item ∈ items, (f data item).get key = data.get key) (data : Payload) :
    (items.foldl f data).get key = data.get key := by
  induction items generalizing data with
  | nil => rfl
  | cons item rest ih =>
    obtain ⟨hitem, hrest⟩ : _ ∧ _ :=
      ⟨fun data => h data item List.mem_cons_self,
        fun data other hother => h data other (List.mem_cons_of_mem _ hother)⟩
    rw [List.foldl_cons, ih hrest, hitem]

theorem get_set_ne {key field : String} (h : field ≠ key) (j : Json) (data : Payload) :
    Payload.get (Assoc.set field j data) key = data.get key :=
  Assoc.get_set_of_ne h j data

theorem get_liftRawFields {data data' : Payload}
    (hkey : key ∉ ["stop_reason", "finish_reason", "usage"])
    (h : liftRawFields data = .ok data') : data'.get key = data.get key := by
  simp only [List.mem_cons, List.not_mem_nil, or_false, not_or] at hkey
  have hpromote (raw : Payload) :
      (["stop_reason", "finish_reason"].foldl (promote raw) data).get key = data.get key := by
    apply get_foldl_of_get
    intro data field hfield
    have hne : field ≠ key := by
      rintro rfl
      simp only [List.mem_cons, List.not_mem_nil, or_false] at hfield
      tauto
    unfold promote
    split
    · exact get_set_ne hne _ _
    · rfl
  have husage : "usage" ≠ key := fun heq => hkey.2.2 heq.symm
  simp only [liftRawFields] at h
  split at h
  · split at h
    · cases h
      rw [get_set_ne husage, hpromote]
    · cases h
      rw [get_set_ne husage, hpromote]
    · cases h
    · cases h
      exact hpromote _
  · cases h
    rfl

section Offload

variable {write : String → NodeId → Json → Except String String} {sid nodeId : NodeId}
  {data data' : Payload}

theorem get_offload_of_ne {field : String} (h : field ≠ key) (data : Payload) :
    (offload write sid nodeId data field).get key = data.get key := by
  unfold offload
  split
  · rfl
  · rfl
  · exact get_set_ne h _ _

theorem get_foldl_offload {fields : List String} (h : key ∉ fields) (data : Payload) :
    (fields.foldl (offload write sid nodeId) data).get key = data.get key := by
  apply get_foldl_of_get
  intro data field hfield
  apply get_offload_of_ne
  rintro rfl
  exact h hfield

theorem of_processEventData (h : processEventData write sid nodeId data = .ok data') :
    ∃ lifted, liftRawFields data = .ok lifted
      ∧ data' = blobFields.foldl (offload write sid nodeId) lifted := by
  unfold processEventData at h
  cases hlift : liftRawFields data with
  | error fault =>
    rw [hlift] at h
    cases h
  | ok lifted =>
    rw [hlift] at h
    cases h
    exact ⟨lifted, rfl, rfl⟩

theorem get_processEventData (hlift : key ∉ ["stop_reason", "finish_reason", "usage"])
    (hblob : key ∉ blobFields) (h : processEventData write sid nodeId data = .ok data') :
    data'.get key = data.get key := by
  obtain ⟨lifted, hlifts, rfl⟩ := of_processEventData h
  rw [get_foldl_offload hblob, get_liftRawFields hlift hlifts]

end Offload

variable {env : Env} {sid : NodeId} {e : Event} {o : Occurrence}

theorem of_prepare (h : prepare env sid e = .ok o) :
    ∃ epoch, offloaded env sid e epoch = .ok o.data := by
  simp only [prepare, bind, Except.bind] at h
  split at h
  · cases h
  · split at h
    · cases h
    · next data hdata =>
        cases h
        exact ⟨_, hdata⟩

/-- Other keys come through unchanged. -/
theorem get_prepare (hlift : key ∉ ["stop_reason", "finish_reason", "usage"])
    (hblob : key ∉ blobFields) (h : prepare env sid e = .ok o) :
    o.data.get key = e.data.get key := by
  obtain ⟨epoch, hdata⟩ := of_prepare h
  unfold offloaded at hdata
  split at hdata
  · rw [Except.ok.inj hdata]
  · exact get_processEventData hlift hblob hdata

end ContextIntelligence.Handlers
