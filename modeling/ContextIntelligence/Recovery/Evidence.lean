import ContextIntelligence.Queue.Directory
import ContextIntelligence.Recovery.Outbox

/-!
# Recovery evidence

Whether a receipt was dead-lettered, or retried since, is read from lines that hold a record, a
payload, an envelope and an origin. `evidence_fails_closed`: no layer that cannot be read is taken
for absence, whatever JSON decodes to. The requested origin is compared as it is; encoding and
decoding gives it back.
-/

namespace ContextIntelligence.Recovery.Evidence

open Lib.Lines ContextIntelligence.Graph Queue Outbox

abbrev Fields := List (String × Json)

/-! ## Origins -/

structure Decoding where
  /-- `json.loads` of a line; `none` where it raises. -/
  loads : Bytes → Option Json
  /-- `json.loads` of a text. -/
  loadsText : String → Option Json
  /-- `session_id.strip() == ""`. -/
  isBlank : String → Bool
  /-- `legacy_source_handle`, of the session and the digest of the stream: all else in the
  descriptor is fixed. -/
  legacySourceHandle : String → String → String

def v1OriginKeys : List String := ["source_handle", "ordinal", "source_line_sha256"]

def legacyOriginKeys : List String :=
  ["session_id", "source_stream_sha256", "ordinal", "source_line_sha256"]

/-- `set(candidate) == keys`. -/
def hasKeys (keys : List String) (fields : Fields) : Bool :=
  (fields.all fun f => f.1 ∈ keys) && keys.all fun key => (fields.lookup key).isSome

def ordinalOf : Option Json → Option ℤ
  | some (.int n) => if 0 ≤ n ∧ n ≤ 2 ^ 63 - 1 then some n else none
  | _ => none

/-- `_digest`, with the digest. -/
def digestOf : Option Json → Option String
  | some (.str s) => if isSha256Hex s then some s else none
  | _ => none

section Readers

variable (d : Decoding)

def sessionIdOf : Option Json → Option String
  | some (.str s) => if d.isBlank s then none else some s
  | _ => none

/-- `normalized_recovery_origin`; it is `none` where `_is_valid_recovery_origin` fails. -/
def normalizedRecoveryOrigin : Json → Option Origin
  | .obj fields =>
    if hasKeys v1OriginKeys fields || hasKeys legacyOriginKeys fields then do
      let ordinal ← ordinalOf (fields.lookup "ordinal")
      let line ← digestOf (fields.lookup "source_line_sha256")
      if (fields.lookup "source_handle").isSome then
        let handle ← digestOf (fields.lookup "source_handle")
        return ⟨handle, ordinal, line⟩
      else
        let session ← sessionIdOf d (fields.lookup "session_id")
        let stream ← digestOf (fields.lookup "source_stream_sha256")
        return ⟨d.legacySourceHandle session stream, ordinal, line⟩
    else none
  | _ => none

/-- `_is_valid_recovery_origin`. -/
def isValidRecoveryOrigin (candidate : Json) : Bool := (normalizedRecoveryOrigin d candidate).isSome

/-- `_matches_recovery_origin`, on an envelope that is a dictionary. -/
def matchesRecoveryOrigin (envelope : Fields) (origin : Json) : Bool :=
  let wanted := normalizedRecoveryOrigin d origin
  let found := (envelope.lookup "_recovery_origin").bind (normalizedRecoveryOrigin d)
  wanted.isSome && wanted = found

/-! ## Lines -/

/-- `RecoveryReceiptError` with its text, and `OSError`. -/
inductive EvidenceError where
  | receipt (text : String)
  | os
  deriving DecidableEq, Repr

/-- `_decode_dead_letter`: the envelope, or `none` for a binary payload. -/
def decodeDeadLetter (file : String) (raw : Bytes) : Except EvidenceError (Option Fields) :=
  let corrupt := .error (.receipt s!"corrupt dead-letter record in {file}")
  match d.loads raw with
  | some (.obj record) =>
    match record.lookup "payload" with
    | some (.str payload) =>
      match d.loadsText payload with
      | some (.obj envelope) =>
        match envelope.lookup "_recovery_origin" with
        | some origin =>
          if isValidRecoveryOrigin d origin then .ok (some envelope)
          else .error (.receipt s!"dead-letter record in {file} has a malformed recovery origin")
        | none => .ok (some envelope)
      | _ => corrupt
    | _ =>
      match record.lookup "payload_b64" with
      | some (.str _) => .ok none
      | _ => corrupt
  | _ => corrupt

/-- `_retry_audit_envelope`. -/
def retryAuditEnvelope (file : String) (raw : Bytes) : Except EvidenceError Fields := do
  let noOrigin := .error (.receipt s!"retry audit record in {file} has no valid origin")
  match ← decodeDeadLetter d file raw with
  | some envelope =>
    match envelope.lookup "_recovery_origin" with
    | some origin => if isValidRecoveryOrigin d origin then .ok envelope else noOrigin
    | none => noOrigin
  | none => noOrigin

/-! ## Files -/

/-- The bytes that `bytes.strip` removes. -/
def isSpaceByte (b : UInt8) : Bool := b ∈ [32, 9, 10, 11, 12, 13]

/-- The complete records of a file: a torn tail is not one, and blank lines are dropped. -/
def completeLines (content : Bytes) : List Bytes :=
  ((Lib.Lines.records newline content).map fun r => r.raw ++ [newline]).filter
    fun line => !line.all isSpaceByte

/-- `_read_evidence`: what the stream yields, or that reading fails. -/
def readEvidence (file : String × Artifact) : List (Except EvidenceError (String × Bytes)) :=
  match file.2 with
  | .missing => []
  | .unreadable => [.error .os]
  | .bytes content => (completeLines content).map fun raw => .ok (file.1, raw)

/-- A directory as `os.scandir` lists it; one that is missing has no files. -/
abbrev Listing := Except EvidenceError (List (String × Artifact))

/-- `_evidence_files`. -/
def evidenceFiles (suffix : String) (files : List (String × Artifact)) : List (String × Artifact) :=
  (files.filter fun f => f.1.endsWith suffix).mergeSort fun f g => f.1 ≤ g.1

/-- `_scan`, with what it asks of a line. -/
def scanEvidence (suffix : String) (hit : String → Bytes → Except EvidenceError Bool)
    (dir : Listing) : Except EvidenceError Bool := do
  let files ← dir
  ((evidenceFiles suffix files).flatMap readEvidence).anyM fun item => do
    let (file, raw) ← item
    hit file raw

def deadHit (origin : Json) (file : String) (raw : Bytes) : Except EvidenceError Bool := do
  match ← decodeDeadLetter d file raw with
  | some envelope => return matchesRecoveryOrigin d envelope origin
  | none => return false

def auditHit (origin : Json) (file : String) (raw : Bytes) : Except EvidenceError Bool := do
  return matchesRecoveryOrigin d (← retryAuditEnvelope d file raw) origin

/-- `recovery_origin_is_dead`. -/
def recoveryOriginIsDead (dir : Listing) (origin : Json) : Except EvidenceError Bool :=
  scanEvidence ".dead.jsonl" (deadHit d origin) dir

/-- `recovery_origin_has_retry_audit`. -/
def recoveryOriginHasRetryAudit (dir : Listing) (origin : Json) : Except EvidenceError Bool :=
  scanEvidence ".recovery-retry-audit.jsonl" (auditHit d origin) dir

/-! ## What a line says -/

/-- The receipt a valid origin denotes, in the shape the server writes or in the old one. -/
inductive Denotes : Json → Origin → Prop where
  | v1 {fields : Fields} {handle line : String} {ordinal : ℤ} (hkeys : hasKeys v1OriginKeys fields)
      (hord : ordinalOf (fields.lookup "ordinal") = some ordinal)
      (hline : digestOf (fields.lookup "source_line_sha256") = some line)
      (hhandle : digestOf (fields.lookup "source_handle") = some handle) :
      Denotes (.obj fields) ⟨handle, ordinal, line⟩
  | legacy {fields : Fields} {session stream line : String} {ordinal : ℤ}
      (hkeys : hasKeys legacyOriginKeys fields)
      (hord : ordinalOf (fields.lookup "ordinal") = some ordinal)
      (hline : digestOf (fields.lookup "source_line_sha256") = some line)
      (hsess : sessionIdOf d (fields.lookup "session_id") = some session)
      (hstream : digestOf (fields.lookup "source_stream_sha256") = some stream) :
      Denotes (.obj fields) ⟨d.legacySourceHandle session stream, ordinal, line⟩

/-- A dead-letter record: its payload is an envelope whose origin, if it has one, is valid, or it is
binary. -/
inductive WellFormed (raw : Bytes) : Option Fields → Prop where
  | text {record envelope : Fields} {payload : String} (hrec : d.loads raw = some (.obj record))
      (hpay : record.lookup "payload" = some (.str payload))
      (henv : d.loadsText payload = some (.obj envelope))
      (horig : ∀ found, envelope.lookup "_recovery_origin" = some found → ∃ o, Denotes d found o) :
      WellFormed raw (some envelope)
  | binary {record : Fields} {b64 : String} (hrec : d.loads raw = some (.obj record))
      (hpay : ∀ payload, record.lookup "payload" ≠ some (.str payload))
      (hb64 : record.lookup "payload_b64" = some (.str b64)) : WellFormed raw none

/-- The envelope has the origin `o`. -/
def Carries (envelope : Option Fields) (o : Origin) : Prop :=
  ∃ fields found, envelope = some fields ∧ fields.lookup "_recovery_origin" = some found
    ∧ Denotes d found o

def WellFormedAudit (raw : Bytes) (envelope : Option Fields) : Prop :=
  WellFormed d raw envelope ∧ ∃ o, Carries d envelope o

def SameReceipt (envelope : Option Fields) (origin : Json) : Prop :=
  ∃ o, Denotes d origin o ∧ Carries d envelope o

/-- A line is read, is formed as it should, and its envelope does or does not have the origin. -/
def Says (Formed : Bytes → Option Fields → Prop) (origin : Json) (answer : Bool)
    (item : Except EvidenceError (String × Bytes)) : Prop :=
  ∃ line envelope, item = .ok line ∧ Formed line.2 envelope
    ∧ (SameReceipt d envelope origin ↔ answer = true)

/-- The answer is no exactly if every file can be read, every complete line in it is well formed and
none has the origin; it is yes exactly if some line has it and all lines before it are well formed
and do not. Everything else is an error. -/
def FailsClosed (origin : Json) (suffix : String) (Formed : Bytes → Option Fields → Prop)
    (ask : Listing → Except EvidenceError Bool) : Prop :=
  ∀ dir,
    (ask dir = .ok false ↔ ∃ files, dir = .ok files ∧ ∀ file ∈ files, file.1.endsWith suffix →
      ∀ item ∈ readEvidence file, Says d Formed origin false item)
    ∧ (ask dir = .ok true ↔ ∃ files before item rest, dir = .ok files
      ∧ (evidenceFiles suffix files).flatMap readEvidence = before ++ item :: rest
      ∧ (∀ earlier ∈ before, Says d Formed origin false earlier) ∧ Says d Formed origin true item)

end Readers

/-! ## Readers and what they accept -/

section Spec

variable {d : Decoding}

theorem isSome_lookup_iff {keys : List String} {fields : Fields} (h : hasKeys keys fields)
    (key : String) : (fields.lookup key).isSome ↔ key ∈ keys := by
  simp only [hasKeys, Bool.and_eq_true, List.all_eq_true, decide_eq_true_eq] at h
  refine ⟨fun hsome => ?_, h.2 key⟩
  obtain ⟨f, hf, hkey⟩ := List.lookup_isSome_iff.1 hsome
  rw [eq_of_beq hkey]
  exact h.1 f hf

theorem normalized_iff {candidate : Json} {o : Origin} :
    normalizedRecoveryOrigin d candidate = some o ↔ Denotes d candidate o := by
  constructor
  · intro h
    cases candidate with
    | obj fields =>
      simp only [normalizedRecoveryOrigin, Bool.or_eq_true, Option.ite_none_right_eq_some,
        Option.bind_eq_bind, Option.bind_eq_some_iff] at h
      obtain ⟨hkeys, ordinal, hord, line, hline, h⟩ := h
      split at h
      · rename_i hsource
        obtain ⟨handle, hhandle, rfl⟩ := by simpa [Option.bind_eq_some_iff] using h
        -- the old shape has no `source_handle`
        refine .v1 (hkeys.resolve_right fun hleg => ?_) hord hline hhandle
        exact absurd ((isSome_lookup_iff hleg _).1 hsource) (by decide)
      · rename_i hsource
        obtain ⟨session, hsess, stream, hstream, rfl⟩ := by simpa [Option.bind_eq_some_iff] using h
        refine .legacy (hkeys.resolve_left fun hv1 => ?_) hord hline hsess hstream
        exact hsource ((isSome_lookup_iff hv1 _).2 (by decide))
    | _ => cases h
  · rintro (⟨hkeys, hord, hline, hhandle⟩ | ⟨hkeys, hord, hline, hsess, hstream⟩)
    · have hsource := (isSome_lookup_iff hkeys "source_handle").2 (by decide)
      simp [normalizedRecoveryOrigin, hkeys, hord, hline, hhandle, hsource]
    · have hsource := (isSome_lookup_iff hkeys "source_handle").not.2 (by decide)
      simp only [normalizedRecoveryOrigin, hkeys, hord, hline, hsess, hstream, if_neg hsource]
      simp

theorem isValid_iff {candidate : Json} :
    isValidRecoveryOrigin d candidate = true ↔ ∃ o, Denotes d candidate o := by
  simp only [isValidRecoveryOrigin, Option.isSome_iff_exists, normalized_iff]

theorem matches_iff {envelope : Fields} {origin : Json} :
    matchesRecoveryOrigin d envelope origin = true ↔ SameReceipt d (some envelope) origin := by
  simp only [matchesRecoveryOrigin, SameReceipt, Carries, Bool.and_eq_true, decide_eq_true_eq,
    Option.isSome_iff_exists, Option.some.injEq, ← normalized_iff]
  constructor
  · rintro ⟨⟨o, ho⟩, heq⟩
    obtain ⟨found, hfound, hnorm⟩ := Option.bind_eq_some_iff.1 (heq.symm.trans ho)
    exact ⟨o, ho, envelope, found, rfl, hfound, hnorm⟩
  · rintro ⟨o, ho, _, found, rfl, hfound, hnorm⟩
    exact ⟨⟨o, ho⟩, by rw [ho, hfound, Option.bind_some, hnorm]⟩

theorem decodeDeadLetter_iff (file : String) {raw : Bytes} {envelope : Option Fields} :
    decodeDeadLetter d file raw = .ok envelope ↔ WellFormed d raw envelope := by
  constructor
  · intro h
    unfold decodeDeadLetter at h
    split at h <;> try cases h
    rename_i record hrec
    split at h
    · rename_i payload hpay
      split at h <;> try cases h
      rename_i fields henv
      split at h
      · rename_i found hfound
        split at h <;> cases h
        rename_i hvalid
        refine .text hrec hpay henv fun found' h' => ?_
        cases hfound.symm.trans h'
        exact isValid_iff.1 hvalid
      · rename_i hnone
        cases h
        exact .text hrec hpay henv fun _ h' => nomatch hnone.symm.trans h'
    · rename_i hpay
      split at h <;> cases h
      rename_i b64 hb64
      exact .binary hrec hpay hb64
  · rintro (⟨hrec, hpay, henv, horig⟩ | ⟨hrec, hpay, hb64⟩)
    · simp only [decodeDeadLetter, hrec, hpay, henv]
      split
      · rename_i found hfound
        rw [if_pos (isValid_iff.2 (horig found hfound))]
      · rfl
    · simp only [decodeDeadLetter, hrec, hb64]

theorem retryAuditEnvelope_iff {file : String} {raw : Bytes} {fields : Fields} :
    retryAuditEnvelope d file raw = .ok fields ↔ WellFormedAudit d raw (some fields) := by
  unfold retryAuditEnvelope
  constructor
  · intro h
    cases hdec : decodeDeadLetter d file raw with
    | error e => rw [hdec] at h; cases h
    | ok envelope =>
      rw [hdec] at h
      cases envelope with
      | none => cases h
      | some envelope =>
      simp only [bind, Except.bind] at h
      split at h <;> try cases h
      rename_i found hfound
      split at h <;> cases h
      rename_i hvalid
      obtain ⟨o, ho⟩ := isValid_iff.1 hvalid
      exact ⟨(decodeDeadLetter_iff file).1 hdec, o, fields, found, rfl, hfound, ho⟩
  · rintro ⟨hform, o, _, found, heq, hfound, ho⟩
    cases heq
    rw [(decodeDeadLetter_iff file).2 hform]
    simp only [bind, Except.bind, hfound]
    rw [if_pos (isValid_iff.2 ⟨o, ho⟩)]

end Spec

/-! ## Scans -/

section Scan

variable {ε α : Type} {f : α → Except ε Bool}

theorem anyM_eq_false_iff {l : List α} : l.anyM f = .ok false ↔ ∀ a ∈ l, f a = .ok false := by
  induction l with
  | nil => simp [pure, Except.pure]
  | cons a l ih =>
    rw [List.forall_mem_cons, ← ih, List.anyM_cons]
    cases h : f a with
    | error e => simp [bind, Except.bind]
    | ok b => cases b <;> simp [bind, Except.bind, pure, Except.pure]

theorem anyM_eq_true_iff {l : List α} : l.anyM f = .ok true
    ↔ ∃ before a rest, l = before ++ a :: rest ∧ (∀ b ∈ before, f b = .ok false)
      ∧ f a = .ok true := by
  constructor
  · intro h
    induction l with
    | nil => cases h
    | cons a l ih =>
      rw [List.anyM_cons] at h
      cases ha : f a with
      | error e => rw [ha] at h; cases h
      | ok b =>
        cases b with
        | true => exact ⟨[], a, l, rfl, nofun, ha⟩
        | false =>
          rw [ha] at h
          obtain ⟨before, x, rest, rfl, hbefore, hx⟩ := ih h
          exact ⟨a :: before, x, rest, rfl, List.forall_mem_cons.2 ⟨ha, hbefore⟩, hx⟩
  · rintro ⟨before, a, rest, rfl, hbefore, ha⟩
    induction before with
    | nil => rw [List.nil_append, List.anyM_cons, ha]; rfl
    | cons b before ih =>
      obtain ⟨hb, hbefore⟩ := List.forall_mem_cons.1 hbefore
      rw [List.cons_append, List.anyM_cons, hb]
      exact ih hbefore

end Scan

section Answers

variable {d : Decoding} {origin : Json} {hit : String → Bytes → Except EvidenceError Bool}
  {Formed : Bytes → Option Fields → Prop}

def Answers (d : Decoding) (origin : Json) (hit : String → Bytes → Except EvidenceError Bool)
    (Formed : Bytes → Option Fields → Prop) : Prop :=
  ∀ file raw answer, hit file raw = .ok answer
    ↔ ∃ envelope, Formed raw envelope ∧ (SameReceipt d envelope origin ↔ answer = true)

theorem answers_deadHit : Answers d origin (deadHit d origin) (WellFormed d) := by
  intro file raw answer
  simp only [deadHit, ← decodeDeadLetter_iff file]
  cases decodeDeadLetter d file raw with
  | error e => simp [bind, Except.bind]
  | ok envelope =>
    cases envelope with
    | none => cases answer <;> simp [bind, Except.bind, pure, Except.pure, SameReceipt, Carries]
    | some fields =>
      constructor
      · rintro ⟨⟩
        exact ⟨some fields, rfl, matches_iff.symm⟩
      · rintro ⟨_, heq, hsame⟩
        cases heq
        exact congrArg Except.ok (Bool.eq_iff_iff.2 (matches_iff.trans hsame))

theorem answers_auditHit : Answers d origin (auditHit d origin) (WellFormedAudit d) := by
  intro file raw answer
  constructor
  · intro h
    simp only [auditHit] at h
    cases henv : retryAuditEnvelope d file raw with
    | error e => rw [henv] at h; cases h
    | ok fields =>
      rw [henv] at h
      cases h
      exact ⟨some fields, retryAuditEnvelope_iff.1 henv, matches_iff.symm⟩
  · rintro ⟨envelope, hform, hsame⟩
    obtain ⟨-, o, fields, -, rfl, -⟩ := id hform
    rw [auditHit, retryAuditEnvelope_iff.2 hform]
    simp only [bind, Except.bind, pure, Except.pure]
    rw [Bool.eq_iff_iff.2 (matches_iff.trans hsame)]

theorem Answers.item (h : Answers d origin hit Formed) (answer : Bool)
    (item : Except EvidenceError (String × Bytes)) :
    (do let (file, raw) ← item; hit file raw) = .ok answer ↔ Says d Formed origin answer item := by
  cases item with
  | error e => simp [bind, Except.bind, Says]
  | ok line =>
    refine (h line.1 line.2 answer).trans ?_
    simp [Says]

theorem Answers.failsClosed (h : Answers d origin hit Formed) (suffix : String) :
    FailsClosed d origin suffix Formed (scanEvidence suffix hit) := by
  intro dir
  cases dir with
  | error e => simp [scanEvidence, bind, Except.bind]
  | ok files =>
    constructor
    · refine anyM_eq_false_iff.trans ?_
      simp only [h.item, evidenceFiles, List.mem_flatMap, List.mem_mergeSort, List.mem_filter,
        Except.ok.injEq, exists_eq_left']
      exact ⟨fun hall file hf hend item hi => hall item ⟨file, ⟨hf, hend⟩, hi⟩,
        fun hall item ⟨file, ⟨hf, hend⟩, hi⟩ => hall file hf hend item hi⟩
    · refine anyM_eq_true_iff.trans ?_
      simp only [h.item, Except.ok.injEq]
      exact ⟨fun ⟨before, a, rest, h⟩ => ⟨files, before, a, rest, rfl, h⟩,
        fun ⟨_, before, a, rest, rfl, h⟩ => ⟨before, a, rest, h⟩⟩

end Answers

/-- An envelope matches exactly if it denotes the requested receipt, and both questions are answered
only from lines that are well formed. -/
theorem evidence_fails_closed (d : Decoding) (origin : Json) :
    (∀ envelope, matchesRecoveryOrigin d envelope origin = true
        ↔ SameReceipt d (some envelope) origin)
      ∧ FailsClosed d origin ".dead.jsonl" (WellFormed d) (recoveryOriginIsDead d · origin)
      ∧ FailsClosed d origin ".recovery-retry-audit.jsonl" (WellFormedAudit d)
        (recoveryOriginHasRetryAudit d · origin) :=
  ⟨fun _ => matches_iff, answers_deadHit.failsClosed _, answers_auditHit.failsClosed _⟩

end ContextIntelligence.Recovery.Evidence
