import ContextIntelligence.Lib.Dict
import ContextIntelligence.Lib.Runs

/-!
# Session claims

`SessionClaimStore` keeps the claims in one table and, in a second one, which session each storage
name (queue key, blob directory) is bound to. A recovery reserves a claim under a token and later
finalises or releases it. A name that two rows from before the second table share is bound to no
session for good. Every operation is one transaction, after one that makes missing tables.
-/

namespace ContextIntelligence.Claims

open Lib Lib.Runs

/-! ## Tables -/

inductive Kind where
  | queue
  | blob
  deriving DecidableEq, Repr

abbrev Component := Kind × String

/-- The names under which the storage keeps a session. -/
structure Names where
  foldWorkerKey : String → String
  /-- `none` where `_fold_session_id` raises. -/
  foldSessionId : String → Option String

/-- `_storage_components`. -/
def Names.components (names : Names) (sessionId : String) : List Component :=
  (.queue, names.foldWorkerKey sessionId)
    :: ((names.foldSessionId sessionId).map fun name => (Kind.blob, name)).toList

structure Claim where
  contributorId : String
  workspace : String
  reservationToken : Option String
  deriving DecidableEq, Repr

abbrev ClaimTable := Dict String Claim

/-- For each name its session; `some none` for a name that is ambiguous. -/
abbrev Bindings := Dict Component (Option String)

structure Tables where
  claims : ClaimTable
  bindings : Bindings

/-! ## Transactions -/

def bindRow (bindings : Bindings) (row : String × Component) : Bindings :=
  match bindings.get row.2 with
  | none => bindings.set row.2 (some row.1)
  | some owner => bindings.set row.2 (if owner = some row.1 then some row.1 else none)

def rowsOf (names : Names) (claims : ClaimTable) : List (String × Component) :=
  claims.keys.flatMap fun sessionId => (names.components sessionId).map fun c => (sessionId, c)

def backfill (names : Names) (claims : ClaimTable) : Bindings :=
  (rowsOf names claims).foldl bindRow Dict.empty

/-- `_bindings_match`. -/
def bindingsMatch (names : Names) (t : Tables) (sessionId : String) : Bool :=
  (names.components sessionId).length = 2
    ∧ ∀ c ∈ names.components sessionId, t.bindings.get c = some (some sessionId)

/-- `INSERT OR IGNORE`. -/
def insertBinding (sessionId : String) (bindings : Bindings) (c : Component) : Bindings :=
  if (bindings.get c).isSome then bindings else bindings.set c (some sessionId)

/-- `_bind`; `none` where it refuses. -/
def bind (names : Names) (sessionId : String) (bindings : Bindings) : Option Bindings :=
  let components := names.components sessionId
  if components.length ≠ 2 then none
  else if ∀ c ∈ components, bindings.get c = none ∨ bindings.get c = some (some sessionId) then
    some (components.foldl (insertBinding sessionId) bindings)
  else none

inductive Reservation where
  | reserved
  | existingReservation
  | committed
  | conflict
  deriving DecidableEq, Repr

inductive Answer where
  | raised
  | accepted (value : Bool)
  | reservation (result : Reservation)
  | released
  | workspace (value : Option String)
  deriving DecidableEq, Repr

def Answer.isRefusal : Answer → Bool
  | .raised | .accepted false | .reservation .conflict => true
  | _ => false

section Operations

variable (names : Names) (sessionId contributorId workspace : String)

def claim (t : Tables) : Answer × Tables :=
  match t.claims.get sessionId with
  | some row =>
    if row.reservationToken ≠ none ∨ (row.contributorId, row.workspace) ≠ (contributorId, workspace)
    then (.accepted false, t)
    else match bind names sessionId t.bindings with
      | none => (.accepted false, t)
      | some bindings => (.accepted true, { t with bindings := bindings })
  | none =>
    match bind names sessionId t.bindings with
    | none => (.accepted false, t)
    | some bindings =>
      (.accepted true, ⟨t.claims.set sessionId ⟨contributorId, workspace, none⟩, bindings⟩)

variable (token : String)

def reserveRecovery (t : Tables) : Answer × Tables :=
  match t.claims.get sessionId with
  | some row =>
    if (row.contributorId, row.workspace) ≠ (contributorId, workspace)
        ∨ row.reservationToken ≠ none ∧ row.reservationToken ≠ some token
    then (.reservation .conflict, t)
    else match bind names sessionId t.bindings with
      | none => (.reservation .conflict, t)
      | some bindings =>
        (.reservation (if row.reservationToken = none then .committed else .existingReservation),
          { t with bindings := bindings })
  | none =>
    match bind names sessionId t.bindings with
    | none => (.reservation .conflict, t)
    | some bindings =>
      (.reservation .reserved,
        ⟨t.claims.set sessionId ⟨contributorId, workspace, some token⟩, bindings⟩)

def finalizeRecovery (t : Tables) : Answer × Tables :=
  match t.claims.get sessionId with
  | none => (.accepted false, t)
  | some row =>
    if (row.contributorId, row.workspace) ≠ (contributorId, workspace)
        ∨ !bindingsMatch names t sessionId
    then (.accepted false, t)
    else match row.reservationToken with
      | none => (.accepted true, t)
      | some held =>
        if held ≠ token then (.accepted false, t)
        else (.accepted true,
          { t with claims := t.claims.set sessionId ⟨contributorId, workspace, none⟩ })

def releaseRecovery (t : Tables) : Answer × Tables :=
  if t.claims.get sessionId = some ⟨contributorId, workspace, some token⟩ then
    (.released, ⟨t.claims.erase sessionId, t.bindings.filter fun _ owner => owner ≠ some sessionId⟩)
  else (.released, t)

def committed (t : Tables) : Bool :=
  (t.claims.get sessionId).any fun row => row.reservationToken = none

def storageIdentityMatches (t : Tables) : Bool :=
  committed sessionId t && bindingsMatch names t sessionId

def getWorkspace (t : Tables) : Option String :=
  ((t.claims.get sessionId).filter fun row => row.reservationToken = none).map Claim.workspace

def getBlobWorkspace (t : Tables) : Option String :=
  (names.foldSessionId sessionId).bind fun component =>
    match t.bindings.get (.blob, component) with
    | some (some owner) => getWorkspace owner t
    | _ => none

end Operations

inductive Operation where
  | claim (sessionId contributorId workspace : String)
  | reserveRecovery (sessionId contributorId workspace token : String)
  | finalizeRecovery (sessionId contributorId workspace token : String)
  | releaseRecovery (sessionId contributorId workspace token : String)
  | storageIdentityMatches (sessionId : String)
  | getBlobWorkspace (sessionId : String)
  | getWorkspace (sessionId : String)

def transact (names : Names) (t : Tables) : Operation → Answer × Tables
  | .claim sessionId contributorId workspace => claim names sessionId contributorId workspace t
  | .reserveRecovery sessionId contributorId workspace token =>
    reserveRecovery names sessionId contributorId workspace token t
  | .finalizeRecovery sessionId contributorId workspace token =>
    finalizeRecovery names sessionId contributorId workspace token t
  | .releaseRecovery sessionId contributorId workspace token =>
    releaseRecovery sessionId contributorId workspace token t
  | .storageIdentityMatches sessionId => (.accepted (storageIdentityMatches names sessionId t), t)
  | .getBlobWorkspace sessionId => (.workspace (getBlobWorkspace names sessionId t), t)
  | .getWorkspace sessionId => (.workspace (getWorkspace sessionId t), t)

/-! ## Store instances on one database -/

/-- The database: the claims, and the bindings once they have been made. -/
structure Database where
  claims : ClaimTable
  bindings : Option Bindings

/-- How an operation ends: in the transaction that makes the tables, in its own, or with an answer.
-/
inductive Fate where
  | failsToInitialize
  | fails
  | succeeds
  deriving DecidableEq, Repr

/-- An operation through one of the store instances. -/
structure Request where
  operation : Operation
  fate : Fate

/-- The tables, made by `_initialize_locked` where they are missing. -/
def Database.tables (names : Names) (db : Database) : Tables :=
  ⟨db.claims, db.bindings.getD (backfill names db.claims)⟩

def Tables.database (t : Tables) : Database := ⟨t.claims, some t.bindings⟩

/-- `get_blob_workspace` of an id that has no directory, which is answered before anything else. -/
def Operation.unaddressed (names : Names) : Operation → Bool
  | .getBlobWorkspace sessionId => (names.foldSessionId sessionId).isNone
  | _ => false

/-- An instance that has made the tables remembers it; since making them again changes nothing, it
does not matter which instance is used. -/
def serve (names : Names) (db : Database) (r : Request) : Answer × Database :=
  if r.operation.unaddressed names then (.workspace none, db)
  else
    match r.fate with
    | .failsToInitialize => (.raised, db)
    | .fails => (.raised, (db.tables names).database)
    | .succeeds =>
      let (answer, t) := transact names (db.tables names) r.operation
      (answer, t.database)

def databaseStep (names : Names) (db : Database) (r : Request) : Database := (serve names db r).2

/-! ## What a transaction can do -/

/-- The effect of a transaction on the tables, with its answer. -/
inductive Effect (names : Names) (t : Tables) : Answer → Tables → Prop where
  | same (answer : Answer) : Effect names t answer t
  /-- The names of a session that has its claim are bound. -/
  | bound {sessionId : String} {bindings : Bindings} {answer : Answer}
      (hbind : bind names sessionId t.bindings = some bindings)
      (hclaimed : (t.claims.get sessionId).isSome) (hanswer : answer.isRefusal = false) :
      Effect names t answer { t with bindings := bindings }
  | inserted {sessionId : String} {bindings : Bindings} {answer : Answer} (row : Claim)
      (hbind : bind names sessionId t.bindings = some bindings)
      (hfree : t.claims.get sessionId = none) (hanswer : answer.isRefusal = false) :
      Effect names t answer ⟨t.claims.set sessionId row, bindings⟩
  | finalized {sessionId contributorId workspace token : String}
      (hrow : t.claims.get sessionId = some ⟨contributorId, workspace, some token⟩) :
      Effect names t (.accepted true)
        { t with claims := t.claims.set sessionId ⟨contributorId, workspace, none⟩ }
  | released {sessionId contributorId workspace token : String}
      (hrow : t.claims.get sessionId = some ⟨contributorId, workspace, some token⟩) :
      Effect names t .released
        ⟨t.claims.erase sessionId, t.bindings.filter fun _ owner => owner ≠ some sessionId⟩

theorem effect_claim (names : Names) (sessionId contributorId workspace : String) (t : Tables) :
    Effect names t (claim names sessionId contributorId workspace t).1
      (claim names sessionId contributorId workspace t).2 := by
  unfold claim
  cases hrow : t.claims.get sessionId with
  | some row =>
    dsimp only
    split
    · exact .same _
    · cases hbind : bind names sessionId t.bindings with
      | none => exact .same _
      | some bindings => exact .bound hbind (by simp [hrow]) rfl
  | none =>
    cases hbind : bind names sessionId t.bindings with
    | none => exact .same _
    | some bindings => exact .inserted _ hbind hrow rfl

theorem effect_reserveRecovery (names : Names)
    (sessionId contributorId workspace token : String) (t : Tables) :
    Effect names t (reserveRecovery names sessionId contributorId workspace token t).1
      (reserveRecovery names sessionId contributorId workspace token t).2 := by
  unfold reserveRecovery
  cases hrow : t.claims.get sessionId with
  | some row =>
    dsimp only
    split
    · exact .same _
    · cases hbind : bind names sessionId t.bindings with
      | none => exact .same _
      | some bindings =>
        refine .bound hbind (by simp [hrow]) ?_
        by_cases htoken : row.reservationToken = none
        · simp [htoken, Answer.isRefusal]
        · simp [htoken, Answer.isRefusal]
  | none =>
    cases hbind : bind names sessionId t.bindings with
    | none => exact .same _
    | some bindings => exact .inserted _ hbind hrow rfl

theorem effect_finalizeRecovery (names : Names)
    (sessionId contributorId workspace token : String) (t : Tables) :
    Effect names t (finalizeRecovery names sessionId contributorId workspace token t).1
      (finalizeRecovery names sessionId contributorId workspace token t).2 := by
  unfold finalizeRecovery
  cases hrow : t.claims.get sessionId with
  | none => exact .same _
  | some row =>
    obtain ⟨contributorId', workspace', token'⟩ := row
    dsimp only
    split
    · exact .same _
    · next hmatch =>
        obtain ⟨rfl, rfl⟩ : contributorId' = contributorId ∧ workspace' = workspace := by
          simpa using (not_or.1 hmatch).1
        cases token' with
        | none => exact .same _
        | some held =>
          dsimp only
          split
          · exact .same _
          · exact .finalized hrow

theorem effect_transact (names : Names) (t : Tables) (op : Operation) :
    Effect names t (transact names t op).1 (transact names t op).2 := by
  cases op with
  | claim sessionId contributorId workspace => exact effect_claim names _ _ _ t
  | reserveRecovery sessionId contributorId workspace token =>
    exact effect_reserveRecovery names _ _ _ _ t
  | finalizeRecovery sessionId contributorId workspace token =>
    exact effect_finalizeRecovery names _ _ _ _ t
  | releaseRecovery sessionId contributorId workspace token =>
    simp only [transact, releaseRecovery]
    split
    · next hrow => exact .released hrow
    · exact .same _
  | storageIdentityMatches sessionId => exact .same _
  | getBlobWorkspace sessionId => exact .same _
  | getWorkspace sessionId => exact .same _

/-! ## Names and their owners -/

section Owners

variable {names : Names}

/-- Every claimed session has its names or shares them, and every bound name is that of a claimed
session. -/
structure Owned (names : Names) (t : Tables) : Prop where
  rows : ∀ sessionId, (t.claims.get sessionId).isSome → ∀ c ∈ names.components sessionId,
    t.bindings.get c = some (some sessionId) ∨ t.bindings.get c = some none
  owners : ∀ c sessionId, t.bindings.get c = some (some sessionId) →
    (t.claims.get sessionId).isSome ∧ c ∈ names.components sessionId

structure Filled (done : List (String × Component)) (bindings : Bindings) : Prop where
  bound : ∀ row ∈ done, bindings.get row.2 = some (some row.1) ∨ bindings.get row.2 = some none
  done : ∀ c sessionId, bindings.get c = some (some sessionId) → (sessionId, c) ∈ done

theorem get_bindRow (bindings : Bindings) (sessionId : String) (c c' : Component) :
    (bindRow bindings (sessionId, c)).get c'
      = if c = c' then some (if bindings.get c = none ∨ bindings.get c = some (some sessionId) then
          some sessionId else none) else bindings.get c' := by
  unfold bindRow
  cases hget : bindings.get c with
  | none => simp only [Dict.get_set, true_or, if_true]
  | some owner => simp only [Dict.get_set, reduceCtorEq, false_or, Option.some.injEq]

theorem Filled.bindRow {done : List (String × Component)} {bindings : Bindings}
    (h : Filled done bindings) (row : String × Component) :
    Filled (done ++ [row]) (bindRow bindings row) := by
  obtain ⟨sessionId, c⟩ := row
  constructor
  · rintro ⟨other, c'⟩ hother
    simp only [get_bindRow]
    rcases List.mem_append.1 hother with hold | hnew
    · have hbound := h.bound _ hold
      by_cases hc : c = c'
      · subst hc
        rw [if_pos rfl]
        -- the name was bound before, to this session or to another one
        rcases hbound with hmine | hnone
        · by_cases hsame : other = sessionId <;> simp [hmine, hsame]
        · simp [hnone]
      · rwa [if_neg hc]
    · cases List.mem_singleton.1 hnew
      rw [if_pos rfl]
      split
      · exact .inl rfl
      · exact .inr rfl
  · intro c' other hother
    rw [get_bindRow] at hother
    split at hother
    · next hc =>
        split at hother
        · cases hother
          rw [← hc]
          exact List.mem_append_right _ (List.mem_singleton_self _)
        · cases hother
    · exact List.mem_append_left _ (h.done c' other hother)

theorem filled_backfill (rows : List (String × Component)) :
    Filled rows (rows.foldl bindRow Dict.empty) := by
  induction rows using List.reverseRecOn with
  | nil => exact ⟨fun _ h => absurd h List.not_mem_nil, fun _ _ h => (nomatch h)⟩
  | append_singleton rows row ih =>
    rw [List.foldl_append]
    exact ih.bindRow row

variable {sessionId : String} {claims : ClaimTable}

theorem mem_keys_iff : sessionId ∈ claims.keys ↔ (claims.get sessionId).isSome := by
  rw [Option.isSome_iff_ne_none, ne_eq, Dict.get_eq_none, not_not]

theorem mem_rowsOf {c : Component} :
    (sessionId, c) ∈ rowsOf names claims
      ↔ (claims.get sessionId).isSome ∧ c ∈ names.components sessionId := by
  simp [rowsOf, mem_keys_iff]

theorem owned_backfill (names : Names) (claims : ClaimTable) :
    Owned names ⟨claims, backfill names claims⟩ := by
  have h := filled_backfill (rowsOf names claims)
  constructor
  · intro sessionId hsome c hc
    exact h.bound _ (mem_rowsOf.2 ⟨hsome, hc⟩)
  · intro c sessionId hbound
    exact mem_rowsOf.1 (h.done c sessionId hbound)

theorem bind_spec {bindings bindings' : Bindings}
    (h : bind names sessionId bindings = some bindings') :
    (∀ c ∈ names.components sessionId,
        bindings.get c = none ∨ bindings.get c = some (some sessionId))
      ∧ ∀ c, bindings'.get c =
        if c ∈ names.components sessionId then some (some sessionId) else bindings.get c := by
  unfold bind at h
  dsimp only at h
  split at h
  · cases h
  · split at h
    · next hfree =>
        cases h
        refine ⟨hfree, ?_⟩
        generalize names.components sessionId = components at hfree
        intro c
        induction components generalizing bindings with
        | nil => simp
        | cons first rest ih =>
          obtain ⟨hfirst, hrest⟩ := List.forall_mem_cons.1 hfree
          have hget : ∀ c', (insertBinding sessionId bindings first).get c'
              = if c' = first then some (some sessionId) else bindings.get c' := by
            intro c'
            unfold insertBinding
            rcases hfirst with hnone | hbound
            · simp only [hnone, Option.isSome_none, Bool.false_eq_true, if_false, Dict.get_set,
                eq_comm]
            · by_cases hc : c' = first
              · simp [hbound, hc]
              · simp [hbound, hc]
          rw [List.foldl_cons, ih]
          · rw [hget]
            by_cases hc : c = first
            · simp [hc]
            · simp [hc]
          · intro c' hc'
            rw [hget]
            split
            · exact .inr rfl
            · exact hrest c' hc'
    · cases h

theorem Owned.bind {t : Tables} (h : Owned names t) {bindings : Bindings}
    (hbind : Claims.bind names sessionId t.bindings = some bindings)
    (hclaims : ∀ other, (claims.get other).isSome ↔ (t.claims.get other).isSome
      ∨ other = sessionId) :
    Owned names ⟨claims, bindings⟩ := by
  obtain ⟨hfree, hget⟩ := bind_spec hbind
  constructor
  · intro other hother c hc
    simp only [hget]
    by_cases hshare : c ∈ names.components sessionId
    · rcases (hclaims other).1 hother with hold | rfl
      · -- a claimed session that shared the name would have it already
        rcases h.rows other hold c hc with hbound | hbound
        · rcases hfree c hshare with hnone | hmine
          · rw [hnone] at hbound
            cases hbound
          · rw [hmine] at hbound
            simp [hshare, hbound]
        · rcases hfree c hshare with hnone | hmine
          · rw [hnone] at hbound
            cases hbound
          · rw [hmine] at hbound
            cases hbound
      · simp [hshare]
    · rcases (hclaims other).1 hother with hold | rfl
      · simpa [hshare] using h.rows other hold c hc
      · exact absurd hc hshare
  · intro c other hother
    simp only [hget] at hother
    by_cases hshare : c ∈ names.components sessionId
    · simp only [hshare, if_true, Option.some.injEq] at hother
      subst hother
      exact ⟨(hclaims _).2 (.inr rfl), hshare⟩
    · simp only [hshare, if_false] at hother
      obtain ⟨hsome, hc⟩ := h.owners c other hother
      exact ⟨(hclaims other).2 (.inl hsome), hc⟩

theorem isSome_get_set {row : Claim} (other : String) :
    ((claims.set sessionId row).get other).isSome
      ↔ (claims.get other).isSome ∨ other = sessionId := by
  rw [Dict.get_set]
  by_cases h : sessionId = other
  · simp [h]
  · simp [h, Ne.symm h]

theorem isSome_of_claimed (h : (claims.get sessionId).isSome) (other : String) :
    (claims.get other).isSome ↔ (claims.get other).isSome ∨ other = sessionId := by
  constructor
  · exact Or.inl
  · rintro (hsome | rfl)
    · exact hsome
    · exact h

theorem Owned.effect {t t' : Tables} {answer : Answer} (h : Owned names t)
    (heff : Effect names t answer t') : Owned names t' := by
  cases heff with
  | same => exact h
  | bound hbind hclaimed _ => exact h.bind hbind (isSome_of_claimed hclaimed)
  | inserted row hbind hfree _ => exact h.bind hbind isSome_get_set
  | @finalized sessionId contributorId workspace token hrow =>
    -- the claim is rewritten under its own key
    have hsame : ∀ other, ((t.claims.set sessionId ⟨contributorId, workspace, none⟩).get
        other).isSome ↔ (t.claims.get other).isSome := fun other =>
      (isSome_get_set other).trans
        (isSome_of_claimed (Option.isSome_iff_exists.2 ⟨_, hrow⟩) other).symm
    exact ⟨fun other hother => h.rows other ((hsame other).1 hother), fun c other hbound =>
      ⟨(hsame other).2 (h.owners c other hbound).1, (h.owners c other hbound).2⟩⟩
  | @released sessionId _ _ _ hrow =>
    -- the claim goes together with the names that are bound to it
    constructor
    · intro other hother c hc
      rw [Dict.get_erase] at hother
      by_cases hne : sessionId = other
      · simp [hne] at hother
      · simp only [hne, if_false] at hother
        rw [Dict.get_filter]
        rcases h.rows other hother c hc with hbound | hbound
        · simp [hbound, Option.filter, Ne.symm hne]
        · simp [hbound, Option.filter]
    · intro c other hbound
      rw [Dict.get_filter, Option.filter_eq_some_iff] at hbound
      obtain ⟨hbound, hkept⟩ := hbound
      have hne : sessionId ≠ other := by
        rintro rfl
        simp at hkept
      rw [Dict.get_erase, if_neg hne]
      exact h.owners c other hbound

end Owners

/-! ## Committed claims and ambiguous names -/

section Effects

variable {names : Names} {t t' : Tables} {answer : Answer}

theorem Effect.final (h : Effect names t answer t') {sessionId : String} {row : Claim}
    (hrow : t.claims.get sessionId = some row) (hcomm : row.reservationToken = none) :
    t'.claims.get sessionId = some row := by
  cases h with
  | same => exact hrow
  | bound => exact hrow
  | inserted row' hbind hfree _ =>
    rw [Dict.get_set]
    split
    · next heq =>
        rw [← heq, hfree] at hrow
        cases hrow
    · exact hrow
  | finalized hres =>
    rw [Dict.get_set]
    split
    · next heq =>
        rw [← heq, hres] at hrow
        cases hrow
        cases hcomm
    · exact hrow
  | released hres =>
    rw [Dict.get_erase]
    split
    · next heq =>
        rw [← heq, hres] at hrow
        cases hrow
        cases hcomm
    · exact hrow

theorem bind_ambiguous {sessionId : String} {bindings bindings' : Bindings} {c : Component}
    (hbind : bind names sessionId bindings = some bindings') (hc : bindings.get c = some none) :
    bindings'.get c = some none := by
  obtain ⟨hfree, hget⟩ := bind_spec hbind
  rw [hget]
  split
  · next hshare =>
      have := hfree c hshare
      simp [hc] at this
  · exact hc

theorem Effect.ambiguous (h : Effect names t answer t') {c : Component}
    (hc : t.bindings.get c = some none) : t'.bindings.get c = some none := by
  cases h with
  | same => exact hc
  | bound hbind => exact bind_ambiguous hbind hc
  | inserted row hbind => exact bind_ambiguous hbind hc
  | finalized => exact hc
  | released =>
    rw [Dict.get_filter, hc]
    rfl

theorem Effect.refused (h : Effect names t answer t') (href : answer.isRefusal) : t' = t := by
  cases h with
  | same => rfl
  | bound _ _ hanswer => simp [hanswer] at href
  | inserted _ _ _ hanswer => simp [hanswer] at href
  | finalized => cases href
  | released => cases href

end Effects

/-! ## Whole runs -/

/-- The session has a committed claim and the blob directory is its own. -/
def OwnsBlob (names : Names) (t : Tables) (sessionId directory : String) : Prop :=
  committed sessionId t ∧ names.foldSessionId sessionId = some directory

structure Respects (names : Names) (db : Database) (r : Request) : Prop where
  final : ∀ sessionId row, db.claims.get sessionId = some row → row.reservationToken = none →
    (databaseStep names db r).claims.get sessionId = some row
  exclusive : ∀ a b, a ≠ b → (∃ c ∈ names.components a, c ∈ names.components b) →
    storageIdentityMatches names a ((databaseStep names db r).tables names) →
    storageIdentityMatches names b ((databaseStep names db r).tables names) → False
  /-- A refusal changes nothing, but the tables may have been made for it. -/
  refused : (serve names db r).1.isRefusal → databaseStep names db r = db
    ∨ db.bindings = none ∧ databaseStep names db r = (db.tables names).database
  ambiguous : ∀ c bindings, db.bindings = some bindings → bindings.get c = some none →
    ∃ bindings', (databaseStep names db r).bindings = some bindings' ∧ bindings'.get c = some none
  blob : ∀ sessionId workspace, r.operation = .getBlobWorkspace sessionId →
    (serve names db r).1 = .workspace (some workspace) →
    ∃ directory owner, names.foldSessionId sessionId = some directory
      ∧ OwnsBlob names ((databaseStep names db r).tables names) owner directory
      ∧ getWorkspace owner ((databaseStep names db r).tables names) = some workspace
      ∧ ∀ other, OwnsBlob names ((databaseStep names db r).tables names) other directory →
        other = owner

section Runs

variable {names : Names} {db : Database}

@[simp] theorem tables_database (t : Tables) : t.database.tables names = t := rfl

theorem database_of_tables (h : db.bindings.isSome) : (db.tables names).database = db := by
  obtain ⟨claims, bindings⟩ := db
  obtain ⟨bindings, rfl⟩ := Option.isSome_iff_exists.1 h
  rfl

theorem serve_cases (names : Names) (db : Database) (r : Request) :
    databaseStep names db r = db
      ∨ ∃ t, Effect names (db.tables names) (serve names db r).1 t
        ∧ databaseStep names db r = t.database := by
  unfold databaseStep serve
  split
  · exact .inl rfl
  cases r.fate with
  | failsToInitialize => exact .inl rfl
  | fails => exact .inr ⟨_, .same _, rfl⟩
  | succeeds => exact .inr ⟨_, effect_transact names _ _, rfl⟩

theorem owned_step (r : Request) (h : Owned names (db.tables names)) :
    Owned names ((databaseStep names db r).tables names) := by
  rcases serve_cases names db r with hsame | ⟨t, heff, hstep⟩
  · rwa [hsame]
  · rw [hstep, tables_database]
    exact h.effect heff

theorem exclusive_tables {t : Tables} {a b : String} (hne : a ≠ b)
    (hshare : ∃ c ∈ names.components a, c ∈ names.components b)
    (ha : storageIdentityMatches names a t) (hb : storageIdentityMatches names b t) : False := by
  obtain ⟨c, hca, hcb⟩ := hshare
  simp only [storageIdentityMatches, bindingsMatch, Bool.and_eq_true, decide_eq_true_eq] at ha hb
  have hboth := (ha.2.2 c hca).symm.trans (hb.2.2 c hcb)
  exact hne (Option.some.inj (Option.some.inj hboth))

theorem mem_components_of_fold {sessionId directory : String}
    (h : names.foldSessionId sessionId = some directory) :
    (Kind.blob, directory) ∈ names.components sessionId := by
  simp [Names.components, h]

theorem blob_tables {t : Tables} (h : Owned names t) {sessionId workspace : String}
    (hfound : getBlobWorkspace names sessionId t = some workspace) :
    ∃ directory owner, names.foldSessionId sessionId = some directory
      ∧ OwnsBlob names t owner directory ∧ getWorkspace owner t = some workspace
      ∧ ∀ other, OwnsBlob names t other directory → other = owner := by
  unfold getBlobWorkspace at hfound
  obtain ⟨directory, hdir, hfound⟩ := Option.bind_eq_some_iff.1 hfound
  split at hfound
  · next owner hbound =>
      refine ⟨directory, owner, hdir, ⟨?_, ?_⟩, hfound, ?_⟩
      · simp only [getWorkspace, Option.map_eq_some_iff, Option.filter_eq_some_iff] at hfound
        obtain ⟨row, ⟨hrow, hcomm⟩, -⟩ := hfound
        simpa [committed, hrow] using hcomm
      · have hmem := (h.owners _ owner hbound).2
        simpa [Names.components] using hmem
      · rintro other ⟨hcomm, hother⟩
        have hsome : (t.claims.get other).isSome := by
          unfold committed at hcomm
          cases hrow : t.claims.get other with
          | none => simp [hrow] at hcomm
          | some row => rfl
        rcases h.rows other hsome _ (mem_components_of_fold hother) with hown | hnone
        · exact Option.some.inj (Option.some.inj (hown.symm.trans hbound))
        · rw [hbound] at hnone
          cases hnone
  · cases hfound

theorem respects_of_owned (r : Request) (h : Owned names (db.tables names)) :
    Respects names db r where
  final sessionId row hrow hcomm := by
    rcases serve_cases names db r with hsame | ⟨t, heff, hstep⟩
    · rwa [hsame]
    · rw [hstep]
      exact heff.final hrow hcomm
  exclusive a b hne hshare ha hb := exclusive_tables hne hshare ha hb
  refused href := by
    rcases serve_cases names db r with hsame | ⟨t, heff, hstep⟩
    · exact .inl hsame
    · rw [hstep, heff.refused href]
      cases hbin : db.bindings with
      | none => exact .inr ⟨rfl, rfl⟩
      | some bindings => exact .inl (database_of_tables (by simp [hbin]))
  ambiguous c bindings hbin hc := by
    rcases serve_cases names db r with hsame | ⟨t, heff, hstep⟩
    · exact ⟨bindings, by rw [hsame, hbin], hc⟩
    · rw [hstep]
      refine ⟨t.bindings, rfl, heff.ambiguous ?_⟩
      simpa [Database.tables, hbin] using hc
  blob sessionId workspace hop hanswer := by
    have howned := owned_step r h
    unfold databaseStep serve at *
    split at hanswer
    · cases hanswer
    rename_i haddr
    rw [if_neg haddr] at howned ⊢
    cases hfate : r.fate with
    | failsToInitialize => simp [hfate] at hanswer
    | fails => simp [hfate] at hanswer
    | succeeds =>
      simp only [hfate, hop, transact, tables_database, Answer.workspace.injEq] at hanswer howned ⊢
      exact blob_tables howned hanswer

end Runs

/-- From any database whose storage names have not been bound yet, through any number of store
instances: every request respects the claims. -/
theorem claims_respected (names : Names) (claims : ClaimTable) (requests : List Request) :
    Along (databaseStep names) (Respects names) ⟨claims, none⟩ requests :=
  along_of_invariant (I := fun db => Owned names (db.tables names)) (fun _ r h => owned_step r h)
    (fun _ r h => respects_of_owned r h) (owned_backfill names claims) requests

/-- A refused claim on a database from before the bindings makes the table all the same. -/
theorem refusal_makes_bindings :
    let names : Names := ⟨fun s => s, fun s => some s⟩
    let db : Database := ⟨Dict.empty.set "s" ⟨"first", "w", none⟩, none⟩
    let r : Request := ⟨.claim "s" "second" "w", .succeeds⟩
    (serve names db r).1.isRefusal ∧ databaseStep names db r ≠ db := by
  refine ⟨by decide, fun h => ?_⟩
  have hbin := congrArg (fun db => db.bindings.isSome) h
  exact absurd hbin (by decide)

end ContextIntelligence.Claims
