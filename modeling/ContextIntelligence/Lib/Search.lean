import Mathlib

/-!
# Frontier search up to a boundary

Each hop follows all edges out of the frontier; a node found for the first time is owned and joins
the next frontier, unless it lies on the boundary. `mem_owned_search`: with enough hops, owned are
the nodes reached from the seeds by edges that do not end on the boundary.
-/

namespace ContextIntelligence.Lib.Search

universe u v

variable {α : Type u} {ρ : Type v}

/-- What a search has found, and the frontier of its next hop. -/
structure Sweep (α : Type u) (ρ : Type v) where
  owned : List α
  boundary : List α
  edges : List ρ
  frontier : List α

/-- The nodes reached from the seeds by edges that do not end on the boundary. -/
inductive Reach (hop : α → List (ρ × α)) (isBoundary : α → Bool) (seeds : List α) : α → Prop where
  | seed {a : α} : a ∈ seeds → Reach hop isBoundary seeds a
  | step {a : α} {row : ρ × α} : Reach hop isBoundary seeds a → row ∈ hop a →
      isBoundary row.2 = false → Reach hop isBoundary seeds row.2

section

variable [DecidableEq α] [DecidableEq ρ]

def visit (isBoundary : α → Bool) (s : Sweep α ρ) (row : ρ × α) : Sweep α ρ :=
  let s := { s with edges := if row.1 ∈ s.edges then s.edges else row.1 :: s.edges }
  if row.2 ∈ s.owned ∨ row.2 ∈ s.boundary then s
  else if isBoundary row.2 then { s with boundary := row.2 :: s.boundary }
  else { s with owned := row.2 :: s.owned, frontier := row.2 :: s.frontier }

def round (hop : α → List (ρ × α)) (isBoundary : α → Bool) (s : Sweep α ρ) : Sweep α ρ :=
  (s.frontier.flatMap hop).foldl (visit isBoundary) { s with frontier := [] }

/-- The search goes on while there is a frontier, for at most so many hops. -/
def search (hop : α → List (ρ × α)) (isBoundary : α → Bool) : ℕ → Sweep α ρ → Sweep α ρ
  | 0, s => s
  | hops + 1, s =>
    if s.frontier = [] then s else search hop isBoundary hops (round hop isBoundary s)

def start (seeds : List α) : Sweep α ρ := ⟨seeds.dedup, [], [], seeds.dedup⟩

/-! ## One edge -/

variable {hop : α → List (ρ × α)} {isBoundary : α → Bool} {seeds : List α} {s : Sweep α ρ}
  {row : ρ × α}

def Found (s : Sweep α ρ) (a : α) : Prop := a ∈ s.owned ∨ a ∈ s.boundary

structure Sound (hop : α → List (ρ × α)) (isBoundary : α → Bool) (seeds : List α)
    (s : Sweep α ρ) : Prop where
  seeds_owned : ∀ a ∈ seeds, a ∈ s.owned
  owned : ∀ a ∈ s.owned, Reach hop isBoundary seeds a
  frontier : ∀ a ∈ s.frontier, a ∈ s.owned
  boundary : ∀ a ∈ s.boundary, isBoundary a = true
  disjoint : ∀ a ∈ s.boundary, a ∉ s.owned
  nodup : s.owned.Nodup

theorem visit_cases (isBoundary : α → Bool) (s : Sweep α ρ) (row : ρ × α) :
    (Found s row.2 ∧ (visit isBoundary s row).owned = s.owned
        ∧ (visit isBoundary s row).boundary = s.boundary
        ∧ (visit isBoundary s row).frontier = s.frontier)
      ∨ (¬ Found s row.2 ∧ isBoundary row.2 = true ∧ (visit isBoundary s row).owned = s.owned
        ∧ (visit isBoundary s row).boundary = row.2 :: s.boundary
        ∧ (visit isBoundary s row).frontier = s.frontier)
      ∨ (¬ Found s row.2 ∧ isBoundary row.2 = false
        ∧ (visit isBoundary s row).owned = row.2 :: s.owned
        ∧ (visit isBoundary s row).boundary = s.boundary
        ∧ (visit isBoundary s row).frontier = row.2 :: s.frontier) := by
  unfold visit Found
  by_cases hfound : row.2 ∈ s.owned ∨ row.2 ∈ s.boundary
  · simp [hfound]
  · cases hbound : isBoundary row.2 <;> simp [hfound]

theorem Found.visit {a : α} (h : Found s a) (row : ρ × α) : Found (visit isBoundary s row) a := by
  rcases visit_cases isBoundary s row with ⟨-, ho, hb, -⟩ | ⟨-, -, ho, hb, -⟩ | ⟨-, -, ho, hb, -⟩
  · simpa only [Found, ho, hb] using h
  · rw [Found, ho, hb]
    exact h.imp_right (List.mem_cons_of_mem _)
  · rw [Found, ho, hb]
    exact h.imp_left (List.mem_cons_of_mem _)

theorem found_visit (s : Sweep α ρ) (row : ρ × α) : Found (visit isBoundary s row) row.2 := by
  rcases visit_cases isBoundary s row with ⟨h, ho, hb, -⟩ | ⟨-, -, ho, hb, -⟩ | ⟨-, -, ho, hb, -⟩
  · simpa only [Found, ho, hb] using h
  · rw [Found, hb]
    exact .inr List.mem_cons_self
  · rw [Found, ho]
    exact .inl List.mem_cons_self

theorem Sound.visit (h : Sound hop isBoundary seeds s) {a : α} (ha : Reach hop isBoundary seeds a)
    (hrow : row ∈ hop a) : Sound hop isBoundary seeds (visit isBoundary s row) := by
  rcases visit_cases isBoundary s row with
    ⟨-, ho, hb, hf⟩ | ⟨hnew, hbound, ho, hb, hf⟩ | ⟨hnew, hinner, ho, hb, hf⟩
  · constructor <;> simp only [ho, hb, hf]
    exacts [h.seeds_owned, h.owned, h.frontier, h.boundary, h.disjoint, h.nodup]
  · constructor <;> simp only [ho, hb, hf]
    · exact h.seeds_owned
    · exact h.owned
    · exact h.frontier
    · exact List.forall_mem_cons.2 ⟨hbound, h.boundary⟩
    · exact List.forall_mem_cons.2 ⟨fun hmem => hnew (.inl hmem), h.disjoint⟩
    · exact h.nodup
  · constructor <;> simp only [ho, hb, hf]
    · exact fun b hmem => List.mem_cons_of_mem _ (h.seeds_owned b hmem)
    · exact List.forall_mem_cons.2 ⟨ha.step hrow hinner, h.owned⟩
    · exact List.forall_mem_cons.2
        ⟨List.mem_cons_self, fun b hmem => List.mem_cons_of_mem _ (h.frontier b hmem)⟩
    · exact h.boundary
    · intro b hmem hown
      rcases List.mem_cons.1 hown with rfl | hown
      · exact hnew (.inr hmem)
      · exact h.disjoint b hmem hown
    · exact List.nodup_cons.2 ⟨fun hmem => hnew (.inl hmem), h.nodup⟩

/-! ## One hop -/

/-- What a run over edges makes of a search: the new nodes are those of the frontier. -/
structure Extends (old s : Sweep α ρ) : Prop where
  found : ∀ a, Found old a → Found s a
  owned : ∀ a ∈ s.owned, a ∈ old.owned ∨ a ∈ s.frontier
  length : s.owned.length = old.owned.length + s.frontier.length

theorem Extends.visit {old : Sweep α ρ} (h : Extends old s) (row : ρ × α) :
    Extends old (visit isBoundary s row) := by
  refine ⟨fun a ha => (h.found a ha).visit row, ?_, ?_⟩ <;>
    rcases visit_cases isBoundary s row with
      ⟨-, ho, -, hf⟩ | ⟨-, -, ho, -, hf⟩ | ⟨-, -, ho, -, hf⟩ <;> rw [ho, hf]
  · exact h.owned
  · exact h.owned
  · refine List.forall_mem_cons.2 ⟨.inr List.mem_cons_self, fun a ha => ?_⟩
    exact (h.owned a ha).imp_right (List.mem_cons_of_mem _)
  · exact h.length
  · exact h.length
  · simp only [List.length_cons, h.length]
    omega

theorem found_foldl (rows : List (ρ × α)) {a : α} (h : Found s a) :
    Found (rows.foldl (visit isBoundary) s) a := by
  induction rows generalizing s with
  | nil => exact h
  | cons row rest ih => exact ih (h.visit row)

theorem foldl_visit {old : Sweep α ρ} (rows : List (ρ × α))
    (hrows : ∀ row ∈ rows, ∃ a, Reach hop isBoundary seeds a ∧ row ∈ hop a)
    (hsound : Sound hop isBoundary seeds s) (hext : Extends old s) :
    Sound hop isBoundary seeds (rows.foldl (visit isBoundary) s)
      ∧ Extends old (rows.foldl (visit isBoundary) s)
      ∧ ∀ row ∈ rows, Found (rows.foldl (visit isBoundary) s) row.2 := by
  induction rows generalizing s with
  | nil => exact ⟨hsound, hext, nofun⟩
  | cons row rest ih =>
    obtain ⟨⟨a, ha, hrow⟩, hrest⟩ := List.forall_mem_cons.1 hrows
    obtain ⟨hsound', hext', hfound⟩ := ih hrest (hsound.visit ha hrow) (hext.visit row)
    exact ⟨hsound', hext', List.forall_mem_cons.2 ⟨found_foldl rest (found_visit s row), hfound⟩⟩

def Followed (hop : α → List (ρ × α)) (s : Sweep α ρ) : Prop :=
  ∀ a ∈ s.owned, a ∈ s.frontier ∨ ∀ row ∈ hop a, Found s row.2

/-- A round follows the frontier and stays sound. -/
theorem round_spec (hsound : Sound hop isBoundary seeds s) (hfollow : Followed hop s) :
    Sound hop isBoundary seeds (round hop isBoundary s)
      ∧ Followed hop (round hop isBoundary s)
      ∧ (round hop isBoundary s).owned.length
        = s.owned.length + (round hop isBoundary s).frontier.length := by
  have hcleared : Sound hop isBoundary seeds { s with frontier := [] } :=
    ⟨hsound.seeds_owned, hsound.owned, nofun, hsound.boundary, hsound.disjoint, hsound.nodup⟩
  have hrows : ∀ row ∈ s.frontier.flatMap hop, ∃ a, Reach hop isBoundary seeds a ∧ row ∈ hop a := by
    intro row hrow
    obtain ⟨a, ha, hmem⟩ := List.mem_flatMap.1 hrow
    exact ⟨a, hsound.owned a (hsound.frontier a ha), hmem⟩
  obtain ⟨hsound', hext, hfound⟩ := foldl_visit (s.frontier.flatMap hop) hrows hcleared
    ⟨fun _ h => h, fun _ h => Or.inl h, rfl⟩
  refine ⟨hsound', ?_, hext.length⟩
  intro a ha
  rcases hext.owned a ha with hold | hnew
  · -- an old node is either expanded in this hop or was so before
    rcases hfollow a hold with hfrontier | hdone
    · exact .inr fun row hrow => hfound row (List.mem_flatMap.2 ⟨a, hfrontier, hrow⟩)
    · exact .inr fun row hrow => hext.found row.2 (hdone row hrow)
  · exact .inl hnew

/-! ## The whole search -/

theorem search_of_no_frontier (h : s.frontier = []) (hops : ℕ) :
    search hop isBoundary hops s = s := by
  cases hops with
  | zero => rfl
  | succ hops => exact if_pos h

variable {all : List α}

theorem search_spec (hall : ∀ a, Reach hop isBoundary seeds a → a ∈ all) (hops : ℕ)
    (hhops : all.length < hops + s.owned.length) (hsound : Sound hop isBoundary seeds s)
    (hfollow : Followed hop s) :
    Sound hop isBoundary seeds (search hop isBoundary hops s)
      ∧ Followed hop (search hop isBoundary hops s)
      ∧ (search hop isBoundary hops s).frontier = [] := by
  induction hops generalizing s with
  | zero =>
    have hsubset : s.owned ⊆ all := fun a ha => hall a (hsound.owned a ha)
    have hle := hsound.nodup.length_le_of_subset hsubset
    omega
  | succ hops ih =>
    by_cases hfrontier : s.frontier = []
    · rw [search_of_no_frontier hfrontier]
      exact ⟨hsound, hfollow, hfrontier⟩
    · obtain ⟨hsound', hfollow', hlen⟩ := round_spec hsound hfollow
      simp only [search, if_neg hfrontier]
      by_cases hnext : (round hop isBoundary s).frontier = []
      · rw [search_of_no_frontier hnext]
        exact ⟨hsound', hfollow', hnext⟩
      · have hpos := List.length_pos_iff.2 hnext
        exact ih (by omega) hsound' hfollow'

theorem search_start_spec (hall : ∀ a, Reach hop isBoundary seeds a → a ∈ all)
    {hops : ℕ} (hhops : all.length < hops) :
    Sound hop isBoundary seeds (search hop isBoundary hops (start seeds))
      ∧ Followed hop (search hop isBoundary hops (start seeds))
      ∧ (search hop isBoundary hops (start seeds)).frontier = [] := by
  apply search_spec hall hops (Nat.lt_add_right _ hhops)
  · exact ⟨fun a ha => List.mem_dedup.2 ha, fun a ha => .seed (List.mem_dedup.1 ha),
      fun a ha => ha, nofun, nofun, List.nodup_dedup seeds⟩
  · exact fun a ha => Or.inl ha

/-- With enough hops the search owns what is reachable. -/
theorem mem_owned_search (hall : ∀ a, Reach hop isBoundary seeds a → a ∈ all)
    {hops : ℕ} (hhops : all.length < hops) {a : α} :
    a ∈ (search hop isBoundary hops (start seeds)).owned ↔ Reach hop isBoundary seeds a := by
  obtain ⟨hsound, hfollow, hfrontier⟩ := search_start_spec hall hhops
  refine ⟨hsound.owned a, ?_⟩
  intro h
  induction h with
  | seed ha => exact hsound.seeds_owned _ ha
  | @step a row _ hrow hinner ih =>
    rcases hfollow a ih with hmem | hdone
    · rw [hfrontier] at hmem
      cases hmem
    · refine (hdone row hrow).resolve_right fun hbound => ?_
      rw [hsound.boundary _ hbound] at hinner
      cases hinner

end

end ContextIntelligence.Lib.Search
