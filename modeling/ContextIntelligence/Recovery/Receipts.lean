import ContextIntelligence.Lib.Runs
import ContextIntelligence.Recovery.Ledger

/-!
# What a ledger keeps

Every call leaves the rows alone, or admits one receipt where none is outstanding, or moves one
along the table of `mark` (`effect_perform`). From this follows what the ledger promises. Opening a
file with unknown source descriptors rebuilds it with others, and a cancelled caller does not stop
the thread that commits: a run keeps the promises exactly when neither happens.
-/

namespace ContextIntelligence.Recovery

open Lib Lib.Runs ContextIntelligence.Graph

/-! ## Scrubbed payloads -/

section Payloads

mutual

theorem sanitizeRecoveryPayload_idem : ∀ value : Json,
    sanitizeRecoveryPayload (sanitizeRecoveryPayload value) = sanitizeRecoveryPayload value
  | .obj fields => by
      rw [sanitizeRecoveryPayload, sanitizeRecoveryPayload, sanitizeFields_idem fields]
  | .arr items => by
      rw [sanitizeRecoveryPayload, sanitizeRecoveryPayload, sanitizeItems_idem items]
  | .null => rfl
  | .bool _ => rfl
  | .int _ => rfl
  | .float _ => rfl
  | .str _ => rfl

theorem sanitizeItems_idem : ∀ items : List Json,
    sanitizeItems (sanitizeItems items) = sanitizeItems items
  | [] => rfl
  | item :: rest => by
      rw [sanitizeItems, sanitizeItems, sanitizeRecoveryPayload_idem item, sanitizeItems_idem rest]

theorem sanitizeFields_idem : ∀ fields : List (String × Json),
    sanitizeFields (sanitizeFields fields) = sanitizeFields fields
  | [] => rfl
  | (key, value) :: rest => by
      by_cases hkey : key = "working_dir"
      · rw [sanitizeFields, if_pos hkey, sanitizeFields_idem rest]
      · rw [sanitizeFields, if_neg hkey, sanitizeFields, if_neg hkey,
          sanitizeRecoveryPayload_idem value, sanitizeFields_idem rest]

end

mutual

theorem sameJson_refl : ∀ value : Json, sameJson value value = true
  | .obj fields => by rw [sameJson, sameFields_refl fields]
  | .arr items => by rw [sameJson, sameItems_refl items]
  | .null => rfl
  | .bool _ => by simp [sameJson]
  | .int _ => by simp [sameJson]
  | .float _ => by simp [sameJson]
  | .str _ => by simp [sameJson]

theorem sameItems_refl : ∀ items : List Json, sameItems items items = true
  | [] => rfl
  | item :: rest => by rw [sameItems, sameJson_refl item, sameItems_refl rest, Bool.and_self]

theorem sameFields_refl : ∀ fields : List (String × Json), sameFields fields fields = true
  | [] => rfl
  | (key, value) :: rest => by
      simp [sameFields, sameJson_refl value, sameFields_refl rest]

end

variable {env : Surroundings}

theorem RecoveryRequest.sanitize_payload (r : RecoveryRequest) :
    sanitizeRecoveryPayload r.payload = r.payload := by
  cases hkey : r.idempotencyKey <;>
    simp [RecoveryRequest.payload, sanitizeRecoveryPayload, sanitizeFields,
      sanitizeFields_idem, hkey]

theorem AcceptedRequest.replayable (r : AcceptedRequest env) :
    sanitizeStoredPayload env r.payload = (r.payload, false) := by
  have hpass := r.passes
  simp only [RecoveryRequest.passes, Bool.and_eq_true] at hpass
  obtain ⟨⟨hwork, hsess⟩, htime⟩ := hpass
  rw [sanitizeStoredPayload, r.sanitize_payload]
  cases hkey : r.idempotencyKey <;>
    simp_all [RecoveryRequest.payload, hasSafeSession, hasReplayableEnvelope, Payload.get,
      Payload.str, Assoc.get]

end Payloads

/-! ## The promises -/

variable {env : Surroundings}

def OnePending (t : Tables) : Prop :=
  ∀ key key' r r', t.receipts.get key = some r → t.receipts.get key' = some r' →
    r.state.pending → r'.state.pending → key = key'

def LedgerAction.Requeues (key : ReceiptKey) : LedgerAction env → Prop
  | .call (.requeueQuarantined handle ordinal) _ => (handle, ordinal) = key
  | _ => False

structure Orderly (env : Surroundings) (l : Ledger) (action : LedgerAction env) : Prop where
  onePending : OnePending (attempt env l action).2.tables
  receipts : ∀ key r, l.tables.receipts.get key = some r →
    ∃ r', (attempt env l action).2.tables.receipts.get key = some r'
      ∧ r'.sourceLineSha256 = r.sourceLineSha256 ∧ r'.actor = r.actor ∧ r'.workspace = r.workspace
      ∧ (r.state = .written → r'.state = .written)
      ∧ (r.state = .quarantined → r'.state = .quarantined ∨ action.Requeues key)
  descriptors : ∀ handle source, l.tables.sources.get handle = some source →
    ∃ source', (attempt env l action).2.tables.sources.get handle = some source'
      ∧ source'.descriptor = source.descriptor
  payloads : ∀ key r, (attempt env l action).2.tables.receipts.get key = some r → r.state.pending →
    ∃ payload, r.payload = some payload ∧ env.payloadDigest payload = r.payloadSha256
  failed : (attempt env l action).1.success = false → (attempt env l action).2.tables = l.tables

/-- The file is not rebuilt over a descriptor that the server does not recognise, and a cancelled
call leaves nothing to commit. -/
def KeepsRows (env : Surroundings) (l : Ledger) : LedgerAction env → Prop
  | .reopen => True
  | .call op failure =>
    (l.initialized = false → failure ≠ some .opening → (rebuild env l.tables).isSome →
      ∀ handle source, l.tables.sources.get handle = some source →
        validSourceDescriptor source.descriptor)
    ∧ (failure = some .cancelled → (initializeLocked env failure l).2 = true →
      (perform op l.tables).2 = l.tables)

/-! ## What a call can do -/

theorem hasPending_eq_false {t : Tables} :
    t.hasPending = false ↔ ∀ key r, t.receipts.get key = some r → r.state.pending = false := by
  simp only [Tables.hasPending, List.any_eq_false, Bool.not_eq_true]
  constructor
  · intro h key r hget
    exact h (key, r) (Dict.mem_entries_iff.2 hget)
  · rintro h ⟨key, r⟩ hmem
    exact h key r (Dict.mem_entries_iff.1 hmem)

/-- A receipt in the first state may be put into the second: it is outstanding, or stays as it is,
or is requeued while nothing is outstanding. -/
def MayMove (op : Operation env) (t : Tables) (key : ReceiptKey) (old new : ReceiptState) : Prop :=
  old.pending = true ∨ old = new
    ∨ old = .quarantined ∧ t.hasPending = false
      ∧ (LedgerAction.call op none).Requeues key

theorem pending_or_eq_of_allowed {old new : ReceiptState} (h : old ∈ allowedPrevious new) :
    old.pending = true ∨ old = new := by
  cases new <;> simp only [allowedPrevious, List.mem_cons, List.not_mem_nil, or_false] at h <;>
    rcases h with rfl | rfl | rfl | rfl | rfl <;> simp [ReceiptState.pending]

/-- A call leaves the rows alone, or admits a new receipt, or moves one. -/
inductive Effect (op : Operation env) (t : Tables) : Outcome → Tables → Prop where
  | nothing (outcome : Outcome) : Effect op t outcome t
  | admission (key : ReceiptKey) (descriptor : Descriptor) (line actor workspace : String)
      (request : AcceptedRequest env) (lease : Option String)
      (hfresh : t.receipts.get key = none) (hpending : t.hasPending = false) :
      Effect op t (.admitted .accepted)
        (t.admitReceipt env key descriptor line actor workspace request.payload lease)
  | movement (key : ReceiptKey) (r : Receipt) (state : ReceiptState) (outcome : Outcome)
      (hget : t.receipts.get key = some r) (hmay : MayMove op t key r.state state)
      (hsuccess : outcome.success = true) :
      Effect op t outcome (t.move key r state)

theorem effect_admitSource (t : Tables) (handle : String) (descriptor : Descriptor) (ordinal : ℤ)
    (line actor workspace : String) (request : AcceptedRequest env) (requireLease : Bool)
    (lease : Option String) (op : Operation env) :
    Effect op t
      (.admitted (t.admitSource env handle descriptor ordinal line actor workspace request.payload
        requireLease lease).1)
      (t.admitSource env handle descriptor ordinal line actor workspace request.payload requireLease
        lease).2 := by
  unfold Tables.admitSource
  rw [request.sanitize_payload]
  dsimp only
  split
  · exact .nothing _
  · cases hget : t.receipts.get (handle, ordinal) with
    | some r =>
      dsimp only
      split
      · exact .nothing _
      · exact .nothing _
    | none =>
      dsimp only
      split
      · exact .nothing _
      · next hpending =>
        rw [Bool.not_eq_true] at hpending
        split
        · cases lease with
          | none => exact .nothing _
          | some id =>
            dsimp only
            split
            · exact .nothing _
            · exact .admission _ _ _ _ _ request _ hget hpending
        · exact .admission _ _ _ _ _ request _ hget hpending

theorem effect_perform (op : Operation env) (t : Tables) :
    Effect op t (perform op t).1 (perform op t).2 := by
  cases op with
  | admitSource handle descriptor ordinal line actor workspace request requireLease lease =>
    unfold perform
    dsimp only
    split
    · exact effect_admitSource t handle descriptor ordinal line actor workspace request
        requireLease lease _
    · exact .nothing _
  | mark handle ordinal state =>
    unfold perform Tables.mark
    dsimp only
    split
    · cases hget : t.receipts.get (handle, ordinal) with
      | none => exact .nothing _
      | some r =>
        dsimp only
        by_cases hall : r.state ∈ allowedPrevious state
        · rw [if_pos hall]
          exact .movement _ r state _ hget
            ((pending_or_eq_of_allowed hall).imp id Or.inl) rfl
        · rw [if_neg hall]
          exact .nothing _
    · exact .nothing _
  | requeueQuarantined handle ordinal =>
    unfold perform Tables.requeueQuarantined
    dsimp only
    split
    · by_cases hpending : t.hasPending = true
      · rw [if_pos hpending]
        exact .nothing _
      · rw [if_neg hpending]
        cases hget : t.receipts.get (handle, ordinal) with
        | none => exact .nothing _
        | some r =>
          dsimp only
          by_cases hstate : r.state = .quarantined
          · rw [if_pos hstate]
            rw [Bool.not_eq_true] at hpending
            exact .movement _ r _ _ hget (.inr (.inr ⟨hstate, hpending, rfl⟩)) rfl
          · rw [if_neg hstate]
            exact .nothing _
    · exact .nothing _
  | quarantinePending handle ordinal =>
    unfold perform Tables.quarantinePending
    dsimp only
    split
    · cases hget : t.receipts.get (handle, ordinal) with
      | none => exact .nothing _
      | some r =>
        dsimp only
        by_cases hstate : r.state.pending = true
        · rw [if_pos hstate]
          exact .movement _ r _ _ hget (.inl hstate) rfl
        · rw [if_neg hstate]
          exact .nothing _
    · exact .nothing _

/-! ## What the rows keep -/

/-- The payload of a receipt can be replayed as it is and matches its digest; a written receipt has
given it up. -/
def Fit (env : Surroundings) (r : Receipt) : Prop :=
  match r.payload with
  | none => r.state = .written
  | some payload =>
    sanitizeStoredPayload env payload = (payload, false)
      ∧ env.payloadDigest payload = r.payloadSha256

structure Sound (env : Surroundings) (t : Tables) : Prop where
  onePending : OnePending t
  fit : ∀ key r, t.receipts.get key = some r → Fit env r

theorem sound_empty (env : Surroundings) : Sound env Tables.empty :=
  ⟨fun _ _ _ _ h => (nomatch h), fun _ _ h => (nomatch h)⟩

theorem Sound.payload_of_pending {t : Tables} (h : Sound env t) {key : ReceiptKey} {r : Receipt}
    (hget : t.receipts.get key = some r) (hpending : r.state.pending = true) :
    ∃ payload, r.payload = some payload ∧ env.payloadDigest payload = r.payloadSha256 := by
  have hfit := h.fit key r hget
  unfold Fit at hfit
  cases hpay : r.payload with
  | none =>
    rw [hpay] at hfit
    rw [hfit] at hpending
    cases hpending
  | some payload =>
    rw [hpay] at hfit
    exact ⟨payload, rfl, hfit.2⟩

theorem Sound.admitReceipt {t : Tables} (h : Sound env t) {key : ReceiptKey}
    (hpending : t.hasPending = false)
    (descriptor : Descriptor) (line actor workspace : String) (request : AcceptedRequest env)
    (lease : Option String) :
    Sound env (t.admitReceipt env key descriptor line actor workspace request.payload lease) := by
  rw [hasPending_eq_false] at hpending
  -- the new receipt is the one outstanding
  have hold : ∀ key' r, (t.admitReceipt env key descriptor line actor workspace request.payload
      lease).receipts.get key' = some r → r.state.pending = true → key = key' := by
    intro key' r hget hr
    by_contra hne
    rw [Tables.admitReceipt, Dict.get_set_of_ne _ hne] at hget
    rw [hpending key' r hget] at hr
    cases hr
  refine ⟨fun key₁ key₂ r₁ r₂ hget₁ hget₂ h₁ h₂ =>
    (hold key₁ r₁ hget₁ h₁).symm.trans (hold key₂ r₂ hget₂ h₂), fun key' r hget => ?_⟩
  by_cases hkey : key = key'
  · subst hkey
    rw [Tables.admitReceipt, Dict.get_set_self] at hget
    cases hget
    exact ⟨request.replayable, rfl⟩
  · rw [Tables.admitReceipt, Dict.get_set_of_ne _ hkey] at hget
    exact h.fit key' r hget

theorem Sound.move {t : Tables} (h : Sound env t) {op : Operation env} {key : ReceiptKey}
    {r : Receipt} {state : ReceiptState} (hget : t.receipts.get key = some r)
    (hmay : MayMove op t key r.state state) : Sound env (t.move key r state) := by
  -- an outstanding receipt was so before, or was requeued where none was
  have hpending : ∀ key' r', (t.move key r state).receipts.get key' = some r' →
      r'.state.pending = true →
        (∃ r₀, t.receipts.get key' = some r₀ ∧ r₀.state.pending = true)
          ∨ key = key' ∧ t.hasPending = false := by
    intro key' r' hget' hr'
    by_cases hkey : key = key'
    · subst hkey
      rw [Tables.move, Dict.get_set_self] at hget'
      cases hget'
      rcases hmay with hold | hsame | ⟨-, hnone, -⟩
      · exact .inl ⟨r, hget, hold⟩
      · exact .inl ⟨r, hget, hsame ▸ hr'⟩
      · exact .inr ⟨rfl, hnone⟩
    · rw [Tables.move, Dict.get_set_of_ne _ hkey] at hget'
      exact .inl ⟨r', hget', hr'⟩
  have hnone : t.hasPending = false → ∀ key' r₀, t.receipts.get key' = some r₀ →
      ¬ r₀.state.pending = true := fun hfalse key' r₀ hget' =>
    Bool.eq_false_iff.1 (hasPending_eq_false.1 hfalse key' r₀ hget')
  constructor
  · intro key₁ key₂ r₁ r₂ hget₁ hget₂ h₁ h₂
    rcases hpending key₁ r₁ hget₁ h₁ with ⟨r₁', hold₁, h₁'⟩ | ⟨hkey₁, hfalse⟩
    · rcases hpending key₂ r₂ hget₂ h₂ with ⟨r₂', hold₂, h₂'⟩ | ⟨-, hfalse⟩
      · exact h.onePending key₁ key₂ r₁' r₂' hold₁ hold₂ h₁' h₂'
      · exact absurd h₁' (hnone hfalse key₁ r₁' hold₁)
    · rcases hpending key₂ r₂ hget₂ h₂ with ⟨r₂', hold₂, h₂'⟩ | ⟨hkey₂, -⟩
      · exact absurd h₂' (hnone hfalse key₂ r₂' hold₂)
      · exact hkey₁.symm.trans hkey₂
  · intro key' r' hget'
    by_cases hkey : key = key'
    · subst hkey
      rw [Tables.move, Dict.get_set_self] at hget'
      cases hget'
      have hfit := h.fit key r hget
      unfold Fit at hfit ⊢
      by_cases hwrite : state = .written
      · simp [hwrite]
      · simp only [if_neg hwrite]
        cases hpay : r.payload with
        | some payload =>
          rw [hpay] at hfit
          exact hfit
        | none =>
          -- only a written receipt is without payload, and it stays written
          rw [hpay] at hfit
          rcases hmay with hold | hsame | ⟨hold, -, -⟩
          · rw [hfit] at hold
            cases hold
          · exact absurd (hsame.symm.trans hfit) hwrite
          · rw [hfit] at hold
            cases hold
    · rw [Tables.move, Dict.get_set_of_ne _ hkey] at hget'
      exact h.fit key' r' hget'

theorem Sound.effect {t t' : Tables} (h : Sound env t) {op : Operation env} {outcome : Outcome}
    (heff : Effect op t outcome t') : Sound env t' := by
  cases heff with
  | nothing => exact h
  | admission key descriptor line actor workspace request lease hfresh hpending =>
    exact h.admitReceipt hpending descriptor line actor workspace request lease
  | movement key r state _ hget hmay hsuccess => exact h.move hget hmay

/-- Each receipt keeps its identity, `written` is for good, and `quarantined` until requeued. -/
theorem Effect.receipts {t t' : Tables} {op : Operation env} {outcome : Outcome}
    (h : Effect op t outcome t') {key : ReceiptKey} {r : Receipt}
    (hget : t.receipts.get key = some r) :
    ∃ r', t'.receipts.get key = some r'
      ∧ r'.sourceLineSha256 = r.sourceLineSha256 ∧ r'.actor = r.actor ∧ r'.workspace = r.workspace
      ∧ (r.state = .written → r'.state = .written)
      ∧ (r.state = .quarantined →
        r'.state = .quarantined ∨ (LedgerAction.call op none).Requeues key) := by
  cases h with
  | nothing => exact ⟨r, hget, rfl, rfl, rfl, id, Or.inl⟩
  | admission key' descriptor line actor workspace request lease hfresh hpending =>
    have hkey : key' ≠ key := by
      rintro rfl
      rw [hfresh] at hget
      cases hget
    exact ⟨r, (Dict.get_set_of_ne _ hkey _).trans hget, rfl, rfl, rfl, id, Or.inl⟩
  | movement key' r₀ state _ hget₀ hmay hsuccess =>
    by_cases hkey : key' = key
    · subst hkey
      rw [hget₀] at hget
      cases hget
      refine ⟨_, Dict.get_set_self _ _ _, rfl, rfl, rfl, fun hwrite => ?_, fun hquar => ?_⟩
      · rcases hmay with hold | hsame | ⟨hold, -, -⟩
        · rw [hwrite] at hold
          cases hold
        · exact hsame ▸ hwrite
        · rw [hwrite] at hold
          cases hold
      · rcases hmay with hold | hsame | ⟨-, -, hrequest⟩
        · rw [hquar] at hold
          cases hold
        · exact .inl (hsame ▸ hquar)
        · exact .inr hrequest
    · exact ⟨r, (Dict.get_set_of_ne _ hkey _).trans hget, rfl, rfl, rfl, id, Or.inl⟩

theorem Effect.sources {t t' : Tables} {op : Operation env} {outcome : Outcome}
    (h : Effect op t outcome t') {handle : String} {source : Source}
    (hget : t.sources.get handle = some source) : t'.sources.get handle = some source := by
  cases h with
  | nothing => exact hget
  | admission key descriptor line actor workspace request lease hfresh hpending =>
    unfold Tables.admitReceipt
    dsimp only
    split
    · exact hget
    · next habs =>
      have hkey : key.1 ≠ handle := by
        intro heq
        rw [heq, hget] at habs
        exact habs rfl
      rw [Dict.get_set_of_ne _ hkey, hget]
  | movement => exact hget

theorem Effect.eq_of_failed {t t' : Tables} {op : Operation env} {outcome : Outcome}
    (h : Effect op t outcome t') (hfail : outcome.success = false) : t' = t := by
  cases h with
  | nothing => rfl
  | admission => cases hfail
  | movement _ _ _ _ _ _ hsuccess =>
    rw [hsuccess] at hfail
    cases hfail

/-! ## Opening -/

section Opening

variable {t : Tables} {l : Ledger}

theorem quarantinedSourceDescriptor_valid :
    validSourceDescriptor quarantinedSourceDescriptor = true := by decide +kernel

theorem Sound.needsSanitization_eq (h : Sound env t) :
    needsSanitization env t
      = t.sources.entries.any fun entry => !validSourceDescriptor entry.2.descriptor := by
  have hrecs : (t.receipts.entries.any fun entry => entry.2.unfit env) = false := by
    rw [List.any_eq_false]
    rintro ⟨key, r⟩ hmem
    have hfit := h.fit key r (Dict.mem_entries_iff.1 hmem)
    unfold Fit at hfit
    unfold Receipt.unfit
    cases hpay : r.payload with
    | none =>
      rw [hpay] at hfit
      simp [show r.state = .written from hfit, ReceiptState.pending]
    | some payload =>
      rw [hpay] at hfit
      simp [hfit.1, sameJson_refl]
  rw [needsSanitization, hrecs, Bool.or_false]

theorem Sound.needsSanitization_of_valid (h : Sound env t)
    (hval : ∀ handle source, t.sources.get handle = some source →
      validSourceDescriptor source.descriptor = true) : needsSanitization env t = false := by
  rw [h.needsSanitization_eq, List.any_eq_false]
  rintro ⟨handle, source⟩ hmem
  simp [hval handle source (Dict.mem_entries_iff.1 hmem)]

variable {source : Source} {handle : String}

theorem needsSanitization_of_invalid (hget : t.sources.get handle = some source)
    (hinv : validSourceDescriptor source.descriptor = false) : needsSanitization env t = true := by
  have hany :
      (t.sources.entries.any fun entry => !validSourceDescriptor entry.2.descriptor) = true :=
    List.any_eq_true.2 ⟨(handle, source), Dict.mem_entries_iff.2 hget, by simp [hinv]⟩
  rw [needsSanitization, hany, Bool.true_or]

theorem Sound.tables_initialize (h : Sound env l.tables) {failure : Option Failure}
    (hkeeps : l.initialized = false → failure ≠ some .opening → (rebuild env l.tables).isSome →
      ∀ handle source, l.tables.sources.get handle = some source →
        validSourceDescriptor source.descriptor) :
    (initializeLocked env failure l).1.tables = l.tables := by
  unfold initializeLocked
  split
  · rfl
  · next hclosed =>
    split
    · rfl
    · next hopening =>
      split
      · next hends =>
        cases hrebuild : rebuild env l.tables with
        | none => rfl
        | some rebuilt =>
          -- there is nothing to scrub, since every descriptor is recognised
          have hval := hkeeps (Bool.eq_false_iff.2 hclosed) hopening (by rw [hrebuild]; rfl)
          rw [h.needsSanitization_of_valid hval] at hends
          cases hends
      · split <;> rfl

theorem rebuild_sources {rebuilt : Tables} (hrebuild : rebuild env t = some rebuilt)
    (hget : t.sources.get handle = some source)
    (hinv : validSourceDescriptor source.descriptor = false) :
    ∃ source', rebuilt.sources.get handle = some source'
      ∧ source'.descriptor = quarantinedSourceDescriptor := by
  unfold rebuild at hrebuild
  split at hrebuild
  · cases hrebuild
    refine ⟨rebuildSource env source, ?_, ?_⟩
    · rw [Dict.get_mapValues, hget, Option.map_some]
    · simp [rebuildSource, hinv]
  · cases hrebuild

theorem sources_initialize_of_invalid {failure : Option Failure} (hclosed : l.initialized = false)
    (hopening : failure ≠ some .opening) (hrebuild : (rebuild env l.tables).isSome)
    (hget : l.tables.sources.get handle = some source)
    (hinv : validSourceDescriptor source.descriptor = false) :
    ∃ source', (initializeLocked env failure l).1.tables.sources.get handle = some source'
      ∧ source'.descriptor = quarantinedSourceDescriptor := by
  obtain ⟨rebuilt, hrebuilt⟩ := Option.isSome_iff_exists.1 hrebuild
  have hsource := rebuild_sources hrebuilt hget hinv
  unfold initializeLocked
  rw [if_neg (by simp [hclosed]), if_neg hopening, if_pos (needsSanitization_of_invalid hget hinv),
    hrebuilt]
  dsimp only
  split
  · exact hsource
  · exact hsource

end Opening

/-! ## Runs -/

section Runs

variable {l : Ledger}

theorem attempt_call (l : Ledger) (op : Operation env) (failure : Option Failure) :
    attempt env l (.call op failure) = (.raised, (initializeLocked env failure l).1)
      ∨ (initializeLocked env failure l).2 = true
        ∧ attempt env l (.call op failure)
          = (if failure = some .cancelled then .raised
              else (perform op (initializeLocked env failure l).1.tables).1,
            { (initializeLocked env failure l).1 with
              tables := (perform op (initializeLocked env failure l).1.tables).2 }) := by
  simp only [attempt]
  split
  · exact .inl rfl
  · next hrun =>
    rw [not_or, Bool.not_eq_false] at hrun
    exact .inr ⟨hrun.1, rfl⟩

theorem attempt_cancelled (l : Ledger) (op : Operation env)
    (h : (initializeLocked env (some .cancelled) l).2 = true) :
    attempt env l (.call op (some .cancelled))
      = (.raised, { (initializeLocked env (some .cancelled) l).1 with
          tables := (perform op (initializeLocked env (some .cancelled) l).1.tables).2 }) := by
  simp [attempt, h]

theorem LedgerAction.Requeues.of_call {op : Operation env} {key : ReceiptKey}
    (h : (LedgerAction.call op none).Requeues key) (failure : Option Failure) :
    (LedgerAction.call op failure).Requeues key := by
  cases op <;> exact h

theorem orderly_of_keepsRows (h : Sound env l.tables) (action : LedgerAction env)
    (hkeeps : KeepsRows env l action) :
    Orderly env l action ∧ Sound env (attempt env l action).2.tables := by
  cases action with
  | reopen =>
    exact ⟨⟨h.onePending, fun _ r hget => ⟨r, hget, rfl, rfl, rfl, id, Or.inl⟩,
      fun _ source hget => ⟨source, hget, rfl⟩, fun _ _ hget => h.payload_of_pending hget,
      fun _ => rfl⟩, h⟩
  | call op failure =>
    obtain ⟨hopen, hcan⟩ := hkeeps
    have htables := h.tables_initialize hopen
    have heff := effect_perform op l.tables
    rcases attempt_call l op failure with hstop | ⟨hopened, hran⟩
    · have hsame : (attempt env l (.call op failure)).2.tables = l.tables := by
        rw [hstop, htables]
      constructor
      · constructor <;> simp only [hsame]
        · exact h.onePending
        · exact fun _ r hget => ⟨r, hget, rfl, rfl, rfl, id, Or.inl⟩
        · exact fun _ source hget => ⟨source, hget, rfl⟩
        · exact fun _ _ hget => h.payload_of_pending hget
        · exact fun _ => trivial
      · rwa [hsame]
    · rw [htables] at hran
      have hrows : (attempt env l (.call op failure)).2.tables = (perform op l.tables).2 := by
        rw [hran]
      have hsound := h.effect heff
      constructor
      · constructor
        · rw [hrows]
          exact hsound.onePending
        · intro key r hget
          obtain ⟨r', hget', hline, hact, hwork, hwrite, hquar⟩ :=
            heff.receipts hget
          rw [hrows]
          exact ⟨r', hget', hline, hact, hwork, hwrite,
            fun hstate => (hquar hstate).imp_right fun hrequest =>
              hrequest.of_call failure⟩
        · intro handle source hget
          rw [hrows]
          exact ⟨source, heff.sources hget, rfl⟩
        · intro key r hget hpending
          rw [hrows] at hget
          exact hsound.payload_of_pending hget hpending
        · intro hfail
          rw [hrows]
          by_cases hcancel : failure = some .cancelled
          · exact hcan hcancel hopened
          · rw [hran, if_neg hcancel] at hfail
            exact heff.eq_of_failed hfail
      · rw [hrows]
        exact hsound

theorem sources_attempt {op : Operation env} {failure : Option Failure} {handle : String}
    {source : Source}
    (hget : (initializeLocked env failure l).1.tables.sources.get handle = some source) :
    (attempt env l (.call op failure)).2.tables.sources.get handle = some source := by
  rcases attempt_call l op failure with hstop | ⟨-, hran⟩
  · rw [hstop]
    exact hget
  · rw [hran]
    exact (effect_perform op _).sources hget

theorem keepsRows_of_orderly (h : Sound env l.tables) (action : LedgerAction env)
    (hord : Orderly env l action) : KeepsRows env l action := by
  cases action with
  | reopen => trivial
  | call op failure =>
    have hopen : l.initialized = false → failure ≠ some .opening →
        (rebuild env l.tables).isSome →
          ∀ handle source, l.tables.sources.get handle = some source →
            validSourceDescriptor source.descriptor := by
      intro hclosed hopening hrebuild handle source hget
      by_contra hinv
      rw [Bool.not_eq_true] at hinv
      obtain ⟨source', hget', hquar⟩ :=
        sources_initialize_of_invalid hclosed hopening hrebuild hget hinv
      obtain ⟨source'', hget'', hsame⟩ := hord.descriptors handle source hget
      rw [sources_attempt hget'] at hget''
      cases hget''
      -- the descriptor in its place is a recognised one
      rw [← hsame, hquar, quarantinedSourceDescriptor_valid] at hinv
      cases hinv
    refine ⟨hopen, fun hcancel hopened => ?_⟩
    subst hcancel
    have hran := attempt_cancelled l op hopened
    rw [h.tables_initialize hopen] at hran
    have hfail := hord.failed (by rw [hran]; rfl)
    rwa [hran] at hfail

theorem orderly_iff_keepsRows (h : Sound env l.tables) (action : LedgerAction env) :
    Orderly env l action ↔ KeepsRows env l action :=
  ⟨keepsRows_of_orderly h action, fun hkeeps => (orderly_of_keepsRows h action hkeeps).1⟩

end Runs

def Ledger.new : Ledger := ⟨false, Tables.empty⟩

def ledgerStep (env : Surroundings) (l : Ledger) (action : LedgerAction env) : Ledger :=
  (attempt env l action).2

/-- Surroundings in which every text is a time and all digests are zero. -/
def sampleSurroundings : Surroundings where
  payloadDigest := fun _ => zeroDigest
  descriptorDigest := fun _ _ _ _ _ => zeroDigest
  isBlank := fun s => s = ""
  isIsoTime := fun _ => true

/-- The descriptor of a lease client whose former session id is a path. -/
def pathDescriptor : Descriptor := ⟨"legacy-recovery-lease-v1", "a/b", zeroDigest, zeroDigest, 0⟩

def sampleRequest : AcceptedRequest sampleSurroundings where
  event := "prompt:submit"
  workspace := "w"
  idempotencyKey := none
  data := [("session_id", .str "s"), ("timestamp", .str "t")]
  passes := by decide +kernel

/-- A record is admitted under a lease, the server restarts, and an operator asks to requeue. -/
def reopenedOverPath : List (LedgerAction sampleSurroundings) :=
  [.call (.admitSource zeroDigest pathDescriptor 0 zeroDigest "" "w" sampleRequest true (some "l"))
      none,
    .reopen,
    .call (.requeueQuarantined zeroDigest 0) none]

theorem Orderly.descriptor_eq {l : Ledger} {action : LedgerAction env} (h : Orderly env l action)
    (handle : String) (d : Descriptor)
    (hd : (l.tables.sources.get handle).map Source.descriptor = some d) :
    ((attempt env l action).2.tables.sources.get handle).map Source.descriptor = some d := by
  obtain ⟨source, hget, hdesc⟩ := Option.map_eq_some_iff.1 hd
  obtain ⟨source', hget', hsame⟩ := h.descriptors handle source hget
  rw [hget', Option.map_some, hsame, hdesc]

end ContextIntelligence.Recovery
