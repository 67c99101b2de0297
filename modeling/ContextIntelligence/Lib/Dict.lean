import Mathlib

/-!
# Insertion-ordered dictionaries

A dictionary keeps its entries in the order in which the keys were first inserted; assigning to a
key that is there keeps its place.
-/

namespace ContextIntelligence.Lib

universe u v

variable {κ : Type u} {ν : Type v}

/-! ## Association lists -/

namespace Assoc

variable [DecidableEq κ]

def get (k : κ) : List (κ × ν) → Option ν
  | [] => none
  | (k', v) :: rest => if k' = k then some v else get k rest

def set (k : κ) (v : ν) : List (κ × ν) → List (κ × ν)
  | [] => [(k, v)]
  | (k', v') :: rest => if k' = k then (k, v) :: rest else (k', v') :: set k v rest

theorem get_set_self (k : κ) (v : ν) (l : List (κ × ν)) : get k (set k v l) = some v := by
  induction l with
  | nil => simp [set, get]
  | cons entry rest ih =>
    obtain ⟨k', v'⟩ := entry
    by_cases h : k' = k
    · simp [set, get, h]
    · simp [set, get, h, ih]

theorem get_set_of_ne {k k' : κ} (h : k ≠ k') (v : ν) (l : List (κ × ν)) :
    get k' (set k v l) = get k' l := by
  induction l with
  | nil => simp [set, get, h]
  | cons entry rest ih =>
    obtain ⟨k'', v'⟩ := entry
    by_cases hk : k'' = k
    · subst hk
      simp [set, get, h]
    · simp only [set, if_neg hk, get, ih]

variable {l : List (κ × ν)} {k : κ}

theorem keys_set_of_mem (h : k ∈ l.map Prod.fst) (v : ν) :
    (set k v l).map Prod.fst = l.map Prod.fst := by
  induction l with
  | nil => cases h
  | cons entry rest ih =>
    obtain ⟨k', v'⟩ := entry
    by_cases hk : k' = k
    · simp [set, hk]
    · have hrest : k ∈ rest.map Prod.fst := by
        rcases List.mem_cons.1 h with heq | hrest
        · exact absurd heq.symm hk
        · exact hrest
      simp [set, hk, ih hrest]

theorem set_of_not_mem (h : k ∉ l.map Prod.fst) (v : ν) : set k v l = l ++ [(k, v)] := by
  induction l with
  | nil => rfl
  | cons entry rest ih =>
    obtain ⟨k', v'⟩ := entry
    obtain ⟨hk, hrest⟩ := List.ne_and_not_mem_of_not_mem_cons h
    simp [set, Ne.symm hk, ih hrest]

theorem keys_set_of_not_mem (h : k ∉ l.map Prod.fst) (v : ν) :
    (set k v l).map Prod.fst = l.map Prod.fst ++ [k] := by
  rw [set_of_not_mem h, List.map_append]
  rfl

theorem nodup_set (h : (l.map Prod.fst).Nodup) (k : κ) (v : ν) :
    ((set k v l).map Prod.fst).Nodup := by
  by_cases hk : k ∈ l.map Prod.fst
  · rw [keys_set_of_mem hk]
    exact h
  · rw [keys_set_of_not_mem hk]
    exact h.append (List.nodup_singleton k) fun x hx hx' => hk (List.mem_singleton.1 hx' ▸ hx)

theorem get_eq_none : get k l = none ↔ k ∉ l.map Prod.fst := by
  induction l with
  | nil => simp [get]
  | cons entry rest ih =>
    obtain ⟨k', v'⟩ := entry
    by_cases hk : k' = k
    · simp [get, hk]
    · simp [get, hk, ih, Ne.symm hk]

theorem get_filter_ne (k k' : κ) (l : List (κ × ν)) :
    get k' (l.filter fun entry => entry.1 ≠ k) = if k = k' then none else get k' l := by
  induction l with
  | nil => simp [get]
  | cons entry rest ih =>
    obtain ⟨k'', v⟩ := entry
    by_cases hk : k'' = k
    · subst hk
      by_cases hk' : k'' = k'
      · simpa [hk'] using ih
      · simpa [get, hk'] using ih
    · by_cases hk' : k = k'
      · subst hk'
        simpa [get, hk] using ih
      · simp only [if_neg hk'] at ih ⊢
        simp only [ne_eq, hk, not_false_eq_true, decide_true, List.filter_cons_of_pos, get]
        rw [← ih]

theorem get_mapValues {μ : Type v} (f : κ → ν → μ) (k : κ) (l : List (κ × ν)) :
    get k (l.map fun entry => (entry.1, f entry.1 entry.2)) = (get k l).map (f k) := by
  induction l with
  | nil => rfl
  | cons entry rest ih =>
    obtain ⟨k', v⟩ := entry
    by_cases h : k' = k
    · subst h
      simp [get]
    · simpa [get, h] using ih

theorem mem_of_get {v : ν} (h : get k l = some v) : (k, v) ∈ l := by
  induction l with
  | nil => cases h
  | cons entry rest ih =>
    obtain ⟨k', v'⟩ := entry
    by_cases hk : k' = k
    · subst hk
      rw [get, if_pos rfl] at h
      cases h
      exact List.mem_cons_self
    · rw [get, if_neg hk] at h
      exact List.mem_cons_of_mem _ (ih h)

theorem get_of_mem {v : ν} (hnodup : (l.map Prod.fst).Nodup) (h : (k, v) ∈ l) :
    get k l = some v := by
  induction l with
  | nil => cases h
  | cons entry rest ih =>
    obtain ⟨k', v'⟩ := entry
    obtain ⟨hfree, hrest⟩ := List.nodup_cons.1 hnodup
    rcases List.mem_cons.1 h with heq | hmem
    · cases heq
      simp [get]
    · have hk : k' ≠ k := by
        rintro rfl
        exact hfree (List.mem_map.2 ⟨_, hmem, rfl⟩)
      rw [get, if_neg hk]
      exact ih hrest hmem

theorem get_filter (hnodup : (l.map Prod.fst).Nodup) (p : κ → ν → Bool) (k : κ) :
    get k (l.filter fun entry => p entry.1 entry.2) = (get k l).filter (p k) := by
  induction l with
  | nil => rfl
  | cons entry rest ih =>
    obtain ⟨k', v⟩ := entry
    obtain ⟨hfree, hrest⟩ := List.nodup_cons.1 hnodup
    by_cases hk : k' = k
    · subst hk
      have hnone : get k' rest = none := get_eq_none.2 hfree
      cases hp : p k' v with
      | true => simp [get, hp, Option.filter]
      | false => simp [get, hp, ih hrest, hnone, Option.filter]
    · cases hp : p k' v with
      | true => simp [get, hp, hk, ih hrest]
      | false => simp [get, hp, hk, ih hrest]

end Assoc

/-! ## Dictionaries -/

/-- A dictionary: its entries in order of insertion, no key twice. -/
structure Dict (κ : Type u) (ν : Type v) where
  entries : List (κ × ν)
  nodup : (entries.map Prod.fst).Nodup

namespace Dict

def empty : Dict κ ν := ⟨[], List.nodup_nil⟩

variable (d : Dict κ ν)

def keys : List κ := d.entries.map Prod.fst

def erase [DecidableEq κ] (k : κ) : Dict κ ν where
  entries := d.entries.filter fun entry => entry.1 ≠ k
  nodup := d.nodup.sublist (List.filter_sublist.map Prod.fst)

def filter (d : Dict κ ν) (p : κ → ν → Bool) : Dict κ ν where
  entries := d.entries.filter fun entry => p entry.1 entry.2
  nodup := d.nodup.sublist (List.filter_sublist.map Prod.fst)

def mapValues {μ : Type v} (f : κ → ν → μ) : Dict κ μ where
  entries := d.entries.map fun entry => (entry.1, f entry.1 entry.2)
  nodup := by
    rw [List.map_map]
    exact d.nodup

variable [DecidableEq κ]

def get (d : Dict κ ν) (k : κ) : Option ν := Assoc.get k d.entries

def set (d : Dict κ ν) (k : κ) (v : ν) : Dict κ ν :=
  ⟨Assoc.set k v d.entries, Assoc.nodup_set d.nodup k v⟩

@[simp] theorem get_empty (k : κ) : (empty : Dict κ ν).get k = none := rfl

@[simp] theorem get_set_self (k : κ) (v : ν) : (d.set k v).get k = some v :=
  Assoc.get_set_self k v d.entries

theorem get_set_of_ne {k k' : κ} (h : k ≠ k') (v : ν) : (d.set k v).get k' = d.get k' :=
  Assoc.get_set_of_ne h v d.entries

theorem get_set (k k' : κ) (v : ν) : (d.set k v).get k' = if k = k' then some v else d.get k' := by
  by_cases h : k = k'
  · subst h
    simp
  · rw [get_set_of_ne d h, if_neg h]

theorem get_erase (k k' : κ) : (d.erase k).get k' = if k = k' then none else d.get k' :=
  Assoc.get_filter_ne k k' d.entries

theorem get_eq_none {d : Dict κ ν} {k : κ} : d.get k = none ↔ k ∉ d.keys := Assoc.get_eq_none

theorem get_filter (p : κ → ν → Bool) (k : κ) : (d.filter p).get k = (d.get k).filter (p k) :=
  Assoc.get_filter d.nodup p k

theorem get_mapValues {μ : Type v} (f : κ → ν → μ) (k : κ) :
    (d.mapValues f).get k = (d.get k).map (f k) :=
  Assoc.get_mapValues f k d.entries

theorem mem_entries_iff {d : Dict κ ν} {k : κ} {v : ν} : (k, v) ∈ d.entries ↔ d.get k = some v :=
  ⟨Assoc.get_of_mem d.nodup, Assoc.mem_of_get⟩

theorem keys_set (k : κ) (v : ν) :
    (d.set k v).keys = if k ∈ d.keys then d.keys else d.keys ++ [k] := by
  by_cases h : k ∈ d.keys
  · rw [if_pos h]
    exact Assoc.keys_set_of_mem h v
  · rw [if_neg h]
    exact Assoc.keys_set_of_not_mem h v

end Dict

end ContextIntelligence.Lib
