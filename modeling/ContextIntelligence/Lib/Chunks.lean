import ContextIntelligence.Lib.Dict

/-!
# Bounded chunks of a list

A list is cut by a bound on the number of items and one on their total size. The chunks in their
order make up the list, none is empty or beyond the bounds, unless one item alone is, and none had
room for the item that follows it (`boundedPartition_chunks`).
-/

namespace ContextIntelligence.Lib

universe u v

variable {α : Type u}

/-- The loop of the chunker: the chunk that is being filled and its size so far. -/
def chunksGo (size : α → ℕ) (maxRows maxBytes : ℕ) (chunk : List α) (bytes : ℕ) :
    List α → List (List α)
  | [] => if chunk.isEmpty then [] else [chunk]
  | item :: rest =>
    if !chunk.isEmpty ∧ (maxRows < chunk.length + 1 ∨ maxBytes < bytes + size item) then
      chunk :: chunksGo size maxRows maxBytes [item] (size item) rest
    else chunksGo size maxRows maxBytes (chunk ++ [item]) (bytes + size item) rest

def chunks (size : α → ℕ) (maxRows maxBytes : ℕ) (items : List α) : List (List α) :=
  chunksGo size maxRows maxBytes [] 0 items

theorem flatten_chunksGo (size : α → ℕ) (maxRows maxBytes : ℕ) (chunk : List α) (bytes : ℕ)
    (items : List α) :
    (chunksGo size maxRows maxBytes chunk bytes items).flatten = chunk ++ items := by
  induction items generalizing chunk bytes with
  | nil => cases chunk <;> simp [chunksGo]
  | cons item rest ih =>
    unfold chunksGo
    split
    · simp [ih]
    · simp [ih]

theorem flatten_chunks (size : α → ℕ) (maxRows maxBytes : ℕ) (items : List α) :
    (chunks size maxRows maxBytes items).flatten = items :=
  flatten_chunksGo size maxRows maxBytes [] 0 items

/-- A chunk that may be emitted: an item that is alone may have any size. -/
structure Bounded (size : α → ℕ) (maxRows maxBytes : ℕ) (chunk : List α) : Prop where
  nonempty : chunk ≠ []
  rows : chunk.length ≤ maxRows
  bytes : (chunk.map size).sum ≤ maxBytes ∨ chunk.length = 1

/-- With the first item of the next chunk the chunk would break a bound. -/
def Full (size : α → ℕ) (maxRows maxBytes : ℕ) (chunk next : List α) : Prop :=
  ∀ item ∈ next.head?, maxRows < chunk.length + 1 ∨ maxBytes < (chunk.map size).sum + size item

structure BoundedPartition (size : α → ℕ) (maxRows maxBytes : ℕ) (items : List α)
    (chunks : List (List α)) : Prop where
  flatten : chunks.flatten = items
  bounded : ∀ chunk ∈ chunks, Bounded size maxRows maxBytes chunk
  full : chunks.IsChain (Full size maxRows maxBytes)

section Bounds

variable {size : α → ℕ} {maxRows maxBytes : ℕ}

/-- The invariant of the loop: the chunk that is being filled is empty or may be emitted. -/
theorem bounded_chunksGo (hrows : 0 < maxRows) {chunk items : List α}
    (h : chunk = [] ∨ Bounded size maxRows maxBytes chunk) :
    ∀ c ∈ chunksGo size maxRows maxBytes chunk (chunk.map size).sum items,
      Bounded size maxRows maxBytes c := by
  induction items generalizing chunk with
  | nil =>
    cases chunk with
    | nil => exact nofun
    | cons item rest =>
      intro c hc
      obtain rfl := List.mem_singleton.1 hc
      exact h.resolve_left nofun
  | cons item rest ih =>
    have hone : Bounded size maxRows maxBytes [item] := ⟨nofun, hrows, .inr rfl⟩
    unfold chunksGo
    split
    · rename_i hfull
      have hne : chunk ≠ [] := by simpa using hfull.1
      intro c hc
      rcases List.mem_cons.1 hc with rfl | hc
      · exact h.resolve_left hne
      · exact ih (.inr hone) c (by simpa using hc)
    · rename_i hroom
      have hnext : Bounded size maxRows maxBytes (chunk ++ [item]) := by
        cases chunk with
        | nil => exact hone
        | cons first others =>
          simp only [List.isEmpty_cons, Bool.not_false, true_and, not_or, Nat.not_lt] at hroom
          refine ⟨nofun, by simpa using hroom.1, .inl ?_⟩
          simpa [Nat.add_assoc] using hroom.2
      have hsum : ((chunk ++ [item]).map size).sum = (chunk.map size).sum + size item := by simp
      rw [← hsum]
      exact ih (.inr hnext)

theorem head_chunksGo (item : α) (chunk : List α) (bytes : ℕ) (items : List α) :
    ∀ c ∈ (chunksGo size maxRows maxBytes (item :: chunk) bytes items).head?,
      c.head? = some item := by
  induction items generalizing chunk bytes with
  | nil => simp [chunksGo]
  | cons next rest ih =>
    unfold chunksGo
    split
    · simp
    · exact ih (chunk ++ [next]) _

theorem full_chunksGo (chunk items : List α) :
    (chunksGo size maxRows maxBytes chunk (chunk.map size).sum items).IsChain
      (Full size maxRows maxBytes) := by
  induction items generalizing chunk with
  | nil => cases chunk <;> simp [chunksGo]
  | cons item rest ih =>
    unfold chunksGo
    split
    · rename_i hfull
      have hrest := ih [item]
      have hsum : ([item].map size).sum = size item := by simp
      rw [hsum] at hrest
      refine List.isChain_cons.2 ⟨?_, hrest⟩
      intro next hnext first hfirst
      rw [head_chunksGo item [] _ rest next hnext] at hfirst
      obtain rfl := Option.some.inj hfirst
      exact hfull.2
    · have hsum : ((chunk ++ [item]).map size).sum = (chunk.map size).sum + size item := by simp
      rw [← hsum]
      exact ih _

theorem boundedPartition_chunks (hrows : 0 < maxRows) (items : List α) :
    BoundedPartition size maxRows maxBytes items (chunks size maxRows maxBytes items) :=
  ⟨flatten_chunks size maxRows maxBytes items, bounded_chunksGo hrows (.inl rfl),
    full_chunksGo [] items⟩

end Bounds

theorem flatten_take_initial (chunks : List (List α)) (k : ℕ) :
    (chunks.take k).flatten <+: chunks.flatten := by
  refine ⟨(chunks.drop k).flatten, ?_⟩
  rw [← List.flatten_append, List.take_append_drop]

/-! ## Dictionaries made of a part of the entries -/

variable {κ : Type u} {ν : Type v} [DecidableEq κ]

theorem Assoc.get_append (k : κ) (l l' : List (κ × ν)) :
    Assoc.get k (l ++ l') = (Assoc.get k l).or (Assoc.get k l') := by
  induction l with
  | nil => simp [Assoc.get]
  | cons entry rest ih =>
    obtain ⟨k', v⟩ := entry
    by_cases h : k' = k
    · simp [Assoc.get, h]
    · simp [Assoc.get, h, ih]

theorem Assoc.get_of_perm {l l' : List (κ × ν)} (hnodup : (l.map Prod.fst).Nodup) (h : l.Perm l')
    (k : κ) : Assoc.get k l' = Assoc.get k l := by
  have hnodup' : (l'.map Prod.fst).Nodup := (h.map Prod.fst).nodup_iff.1 hnodup
  apply Option.ext
  intro v
  constructor
  · intro hget
    exact Assoc.get_of_mem hnodup (h.mem_iff.2 (Assoc.mem_of_get hget))
  · intro hget
    exact Assoc.get_of_mem hnodup' (h.mem_iff.1 (Assoc.mem_of_get hget))

namespace Dict

def ofList (entries : List (κ × ν)) : Dict κ ν :=
  entries.foldl (fun d entry => d.set entry.1 entry.2) Dict.empty

theorem entries_foldl_set (d : Dict κ ν) {entries : List (κ × ν)}
    (h : ((d.entries ++ entries).map Prod.fst).Nodup) :
    (entries.foldl (fun d entry => d.set entry.1 entry.2) d).entries = d.entries ++ entries := by
  induction entries using List.reverseRecOn with
  | nil => exact (List.append_nil _).symm
  | append_singleton rest entry ih =>
    rw [← List.append_assoc, List.map_append, List.nodup_append] at h
    have hnew : entry.1 ∉ (d.entries ++ rest).map Prod.fst := fun hmem =>
      h.2.2 entry.1 hmem entry.1 (by simp) rfl
    rw [List.foldl_append, ← List.append_assoc, ← Assoc.set_of_not_mem hnew, ← ih h.1]
    rfl

theorem entries_ofList {entries : List (κ × ν)} (h : (entries.map Prod.fst).Nodup) :
    (ofList entries).entries = entries :=
  entries_foldl_set empty h

theorem get_ofList {entries : List (κ × ν)} (h : (entries.map Prod.fst).Nodup) (k : κ) :
    (ofList entries).get k = Assoc.get k entries := by
  rw [get, entries_ofList h]

end Dict

end ContextIntelligence.Lib
