import ContextIntelligence.Handlers.Reads

/-!
# The agent behind a self-delegation

`resolve_self_agent` walks from a session to the one that delegated to it, as long as the agent is
`self`. It returns what its rule names for the session where the chain of ancestors ends; when a
session repeats, or the limit is reached first, it gives up.
-/

namespace ContextIntelligence.Handlers

open Lib.Effects ContextIntelligence.Graph

/-- A delegation graph, as its two reads show it: the delegation that spawned a session, and the
session's node. -/
structure Lineage where
  delegation : Scalar → Option Props
  session : Scalar → Option Node

def lineage (env : Env) (w : World) : Lineage where
  delegation id :=
    ((w.buffer.nodes.entries.find? fun entry =>
      "Delegation" ∈ entry.2.labels
        ∧ (entry.2.props "sub_session_id").bind Value.scalar = some id).map
          fun entry => entry.2.props).or (env.delegationOf w.db.nodes id)
  session
    | .str id => visibleNode id w.db w.buffer
    | _ => none

namespace Lineage

variable (g : Lineage)

/-- The session that a session was delegated from by `self`. -/
def up (session : Value) : Option Value :=
  (session.scalar.bind g.delegation).bind fun d =>
    if isStr (d "agent") "self" then (d "parent_session_id").filter Value.truthy else none

/-- What the rule names for the session at which the chain ends: the agent, if the delegation names
one; the kind of the session, if nobody delegated to it; else the link is broken. A list or a
dictionary in the place of a session raises. -/
def ending (session : Value) : Except Fault Value :=
  match session.scalar with
  | none => .error .typeError
  | some id =>
    .ok (match g.delegation id with
      | none => .str (discriminateRoot (g.session id))
      | some d =>
        if isStr (d "agent") "self" then unresolved
        else ((d "agent").filter Value.truthy).getD unresolved)

def ancestor (session : Value) : ℕ → Option Value
  | 0 => some session
  | n + 1 => (ancestor session n).bind g.up

/-- How the walk comes out: at the end of the chain, if it is reached below the limit and before a
session repeats; unresolved if a session repeats or the limit is reached. -/
inductive Outcome (limit : ℕ) (session : Value) : Except Fault Value → Prop where
  | ends {n : ℕ} {t : Value} (hn : n < limit) (ht : g.ancestor session n = some t)
      (hup : g.up t = none)
      (hnew : ∀ i j, i < j → j ≤ n → g.ancestor session i ≠ g.ancestor session j) :
      Outcome limit session (g.ending t)
  | repeats {i j : ℕ} {t : Value} (hij : i < j) (hj : j < limit)
      (hi : g.ancestor session i = some t) (ht : g.ancestor session j = some t) :
      Outcome limit session (.ok unresolved)
  | tooFar {t : Value} (ht : g.ancestor session limit = some t) :
      Outcome limit session (.ok unresolved)

variable {g} {id t u : Value} {n m limit : ℕ}

/-! ## The outcome is one -/

theorem le_of_ends (ht : g.ancestor id n = some t) (hup : g.up t = none)
    (hm : g.ancestor id m = some u) : m ≤ n := by
  by_contra hlt
  have hnone : ∀ k, g.ancestor id (n + 1 + k) = none := by
    intro k
    induction k with
    | zero => simp [ancestor, ht, hup]
    | succ k ih => simp [ancestor, ih]
  obtain ⟨k, rfl⟩ := Nat.exists_eq_add_of_le (Nat.lt_of_not_le hlt)
  rw [hnone k] at hm
  cases hm

theorem Outcome.unique {r r' : Except Fault Value} (h : g.Outcome limit id r)
    (h' : g.Outcome limit id r') : r = r' := by
  -- an outcome at the end of the chain excludes the two others
  have hends : ∀ {n t r}, n < limit → g.ancestor id n = some t → g.up t = none →
      (∀ i j, i < j → j ≤ n → g.ancestor id i ≠ g.ancestor id j) → g.Outcome limit id r →
      r = g.ending t := by
    intro n t r hn ht hup hnew h
    cases h with
    | ends hn' ht' hup' _ =>
      obtain rfl := Nat.le_antisymm (le_of_ends ht' hup' ht) (le_of_ends ht hup ht')
      cases ht.symm.trans ht'
      rfl
    | repeats hij _ hi hj =>
      exact absurd (hi.trans hj.symm) (hnew _ _ hij (le_of_ends ht hup hj))
    | tooFar hfar => exact absurd (le_of_ends ht hup hfar) (Nat.not_le.2 hn)
  cases h with
  | ends hn ht hup hnew => exact (hends hn ht hup hnew h').symm
  | repeats hij hj hi ht =>
    cases h' with
    | ends hn ht' hup hnew => exact hends hn ht' hup hnew (.repeats hij hj hi ht)
    | repeats => rfl
    | tooFar => rfl
  | tooFar ht =>
    cases h' with
    | ends hn ht' hup hnew => exact hends hn ht' hup hnew (.tooFar ht)
    | repeats => rfl
    | tooFar => rfl

end Lineage

/-! ## The walk -/

variable {env : Env} {w : World} {limit : ℕ} {id t u : Value} {visited : Finset Scalar}

theorem eq_of_scalar {key : Scalar} (ht : t.scalar = some key) (hu : u.scalar = some key) :
    t = u := by
  unfold Value.scalar at ht hu
  split at ht <;> cases ht <;> split at hu <;> cases hu <;> rfl

theorem findDelegation_eq (hreads : w.fates = []) (key : Scalar) :
    findDelegation env key w = (.ok ((lineage env w).delegation key), w) := by
  simp only [findDelegation, lineage, readDb, hreads]
  cases w.buffer.nodes.entries.find? _ <;> rfl

theorem getSession_eq (env : Env) (hreads : w.fates = []) (key : Scalar) :
    getSession key w = (.ok ((lineage env w).session key), w) := by
  cases key with
  | str id => exact getNode_eq hreads id
  | _ => simp only [getSession, readDb, hreads]; rfl

theorem resolveSelfAgent_succ (hreads : w.fates = []) {key : Scalar} (hkey : t.scalar = some key)
    (ht : key ∉ visited) (depth : ℕ) :
    resolveSelfAgent env (depth + 1) visited t w
      = match (lineage env w).up t with
        | none => ((lineage env w).ending t, w)
        | some next => resolveSelfAgent env depth (insert key visited) next w := by
  simp only [resolveSelfAgent, hkey, ht, if_false, Eff.bind_of_ok (findDelegation_eq hreads key),
    Lineage.up, Lineage.ending, Option.bind_some]
  cases (lineage env w).delegation key with
  | none =>
    simp only [Eff.bind_of_ok (getSession_eq env hreads key), Option.bind_none]
    rfl
  | some d =>
    simp only [Option.bind_some]
    split
    · cases (d "parent_session_id").filter Value.truthy <;> rfl
    · rfl

theorem outcome_resolveSelfAgent (hreads : w.fates = []) {g : Lineage} (hg : lineage env w = g)
    (depth : ℕ) {k : ℕ} (ht : g.ancestor id k = some t)
    (hvisited : ∀ key, key ∈ visited ↔ ∃ i < k, ∃ u, g.ancestor id i = some u ∧ u.scalar = some key)
    (hnew : ∀ i j, i < j → j < k → g.ancestor id i ≠ g.ancestor id j) :
    ∃ r, resolveSelfAgent env depth visited t w = (r, w) ∧ g.Outcome (k + depth) id r := by
  induction depth generalizing k t visited with
  | zero => exact ⟨_, rfl, .tooFar ht⟩
  | succ depth ih =>
    have hlt : k < k + (depth + 1) := Nat.lt_add_of_pos_right (Nat.succ_pos depth)
    -- the ancestors up to a session that is not among the earlier ones are distinct
    have hall : (∀ i < k, g.ancestor id i ≠ some t) →
        ∀ i j, i < j → j ≤ k → g.ancestor id i ≠ g.ancestor id j := by
      intro hfresh i j hij hj
      rcases Nat.lt_or_eq_of_le hj with hlt | rfl
      · exact hnew i j hij hlt
      · rw [ht]
        exact hfresh i hij
    cases hkey : t.scalar with
    | none =>
      have hup : g.up t = none := by rw [Lineage.up, hkey]; rfl
      have hending : g.ending t = .error .typeError := by rw [Lineage.ending, hkey]
      refine ⟨.error .typeError, by simp [resolveSelfAgent, hkey], hending ▸ .ends hlt ht hup ?_⟩
      refine hall fun i hi heq => ?_
      exact absurd (Lineage.le_of_ends heq hup ht) (Nat.not_le.2 hi)
    | some key =>
      by_cases hmem : key ∈ visited
      · obtain ⟨i, hi, u, hancestor, hu⟩ := (hvisited key).1 hmem
        refine ⟨.ok unresolved, by simp [resolveSelfAgent, hkey, hmem], ?_⟩
        exact .repeats hi hlt hancestor (eq_of_scalar hkey hu ▸ ht)
      · have hfresh : ∀ i < k, g.ancestor id i ≠ some t :=
          fun i hi heq => hmem ((hvisited key).2 ⟨i, hi, t, heq, hkey⟩)
        rw [resolveSelfAgent_succ hreads hkey hmem, hg]
        cases hup : g.up t with
        | none => exact ⟨_, rfl, .ends hlt ht hup (hall hfresh)⟩
        | some next =>
          have hnext : g.ancestor id (k + 1) = some next := by
            rw [Lineage.ancestor, ht, Option.bind_some, hup]
          have hgrown : ∀ key', key' ∈ insert key visited
              ↔ ∃ i < k + 1, ∃ u, g.ancestor id i = some u ∧ u.scalar = some key' := by
            intro key'
            rw [Finset.mem_insert, hvisited, or_comm, eq_comm]
            simp only [Nat.lt_succ_iff_lt_or_eq, or_and_right, exists_or, exists_eq_left, ht,
              Option.some.injEq, exists_eq_left', hkey]
          obtain ⟨r, hrun, houtcome⟩ :=
            ih hnext hgrown fun i j hij hj => hall hfresh i j hij (Nat.le_of_lt_succ hj)
          exact ⟨r, hrun, by rwa [Nat.add_right_comm] at houtcome⟩

theorem exists_outcome (env : Env) (hreads : w.fates = []) (limit : ℕ) (id : Value) :
    ∃ r, resolveSelfAgent env limit ∅ id w = (r, w) ∧ (lineage env w).Outcome limit id r := by
  have hstart : ∀ key, key ∈ (∅ : Finset Scalar)
      ↔ ∃ i < 0, ∃ u, (lineage env w).ancestor id i = some u ∧ u.scalar = some key := by
    simp
  have h := outcome_resolveSelfAgent hreads rfl limit rfl hstart nofun
  rwa [Nat.zero_add] at h

/-- While the database answers, the walk returns exactly the outcome of the chain. -/
theorem resolveSelfAgent_iff (env : Env) {w : World} (hreads : w.fates = []) (limit : ℕ)
    (id : Value) (r : Except Fault Value) :
    resolveSelfAgent env limit ∅ id w = (r, w) ↔ (lineage env w).Outcome limit id r := by
  obtain ⟨r', hrun, houtcome⟩ := exists_outcome env hreads limit id
  rw [hrun]
  constructor
  · rintro heq
    cases heq
    exact houtcome
  · intro h
    rw [h.unique houtcome]

/-- A buffered delegation of a sub-session to an agent by a parent. -/
def delegationNode (subSession agent parent : String) : NodeId × Node :=
  (subSession ++ "-delegation", ⟨{"Delegation", "SST_EVENT"}, Props.none.assign
    [("sub_session_id", .str subSession), ("agent", .str agent),
      ("parent_session_id", .str parent)]⟩)

/-- `c` and `b` were delegated to by `self`, and `a` by `root-session` as `explorer`; `x` and `y`
delegated to each other by `self`. -/
def delegationsWorld : World where
  cursors := Cursors.fresh
  buffer := { Buffer.empty with nodes := ⟨[delegationNode "c" "self" "b",
    delegationNode "b" "self" "a", delegationNode "a" "explorer" "root-session",
    delegationNode "x" "self" "y", delegationNode "y" "self" "x"], by decide⟩ }
  db := Database.empty
  fates := []

/-- The chain ends at the agent of the first ancestor that is not `self`, and the cycle nowhere. -/
theorem resolveSelfAgent_chain_and_cycle :
    resolveSelfAgent sampleEnv 8 ∅ (.str "c") delegationsWorld
        = (.ok (.str "explorer"), delegationsWorld)
      ∧ resolveSelfAgent sampleEnv 8 ∅ (.str "x") delegationsWorld
        = (.ok unresolved, delegationsWorld) := by
  have hnew : ∀ i j, i < j → j ≤ 2 →
      (lineage sampleEnv delegationsWorld).ancestor (.str "c") i
        ≠ (lineage sampleEnv delegationsWorld).ancestor (.str "c") j := by
    intro i j hij hj heq
    have hkeys := congrArg (fun v => v.bind Value.scalar) heq
    interval_cases j <;> interval_cases i <;> exact absurd hkeys (by decide)
  have hends : (lineage sampleEnv delegationsWorld).Outcome 8 (.str "c") (.ok (.str "explorer")) :=
    .ends (t := .str "a") (by decide) rfl rfl hnew
  have hrepeats : (lineage sampleEnv delegationsWorld).Outcome 8 (.str "x") (.ok unresolved) :=
    .repeats (i := 0) (j := 2) (t := .str "x") (by decide) (by decide) rfl rfl
  exact ⟨(resolveSelfAgent_iff sampleEnv rfl 8 _ _).2 hends,
    (resolveSelfAgent_iff sampleEnv rfl 8 _ _).2 hrepeats⟩

end ContextIntelligence.Handlers
