import ContextIntelligence.Recovery.Outbox

/-!
# What the outbox keeps

`Consistent`: a line of a log belongs to a receipt; an enqueued receipt has a record above the
committed offset; a pending one that was never flushed has one too, or no line at all; a written one
was flushed. A write, a commit and a trim change the logs (`Consistent.logs`), calls on the ledger
the receipts (`Consistent.ledger`), whoever makes them.
-/

namespace ContextIntelligence.Recovery.Outbox

open Lib Lib.Lines ContextIntelligence.Graph
  Queue

/-! ## Spools of a state -/

section Spools

variable {s : State} {key key' : String} {f : Spool → Spool}

@[simp] theorem State.spool_modifySpool_self (s : State) (key : String) (f : Spool → Spool) :
    (s.modifySpool key f).spool key = f (s.spool key) := by
  rw [State.spool, State.modifySpool, Dict.get_set_self, Option.getD_some]

theorem State.spool_modifySpool_of_ne (s : State) (h : key ≠ key') (f : Spool → Spool) :
    (s.modifySpool key f).spool key' = s.spool key' := by
  rw [State.spool, State.modifySpool, Dict.get_set_of_ne _ h, State.spool]

@[simp] theorem State.workers_setWorker_self (s : State) (key : String) (w : Worker) :
    (s.setWorker key w).workers key = w :=
  Function.update_self ..

theorem State.workers_setWorker_of_ne (s : State) (h : key' ≠ key) (w : Worker) :
    (s.setWorker key w).workers key' = s.workers key' :=
  Function.update_of_ne h ..

def SameLogs (s s' : State) : Prop :=
  ∀ key, (s'.spool key).log = (s.spool key).log ∧ (s'.spool key).offset = (s.spool key).offset

theorem SameLogs.refl (s : State) : SameLogs s s := fun _ => ⟨rfl, rfl⟩

theorem SameLogs.of_queue {s s' : State} (h : s'.queue = s.queue) : SameLogs s s' := by
  intro key
  rw [State.spool, State.spool, h]
  exact ⟨rfl, rfl⟩

theorem SameLogs.modifySpool (s : State) (key : String)
    (hf : ∀ sp : Spool, (f sp).log = sp.log ∧ (f sp).offset = sp.offset) :
    SameLogs s (s.modifySpool key f) := by
  intro key'
  by_cases h : key = key'
  · subst h
    rw [State.spool_modifySpool_self]
    exact hf _
  · rw [State.spool_modifySpool_of_ne s h]
    exact ⟨rfl, rfl⟩

theorem SameLogs.content {s s' : State} (h : SameLogs s s') (key : String) :
    (s'.spool key).content = (s.spool key).content := by
  rw [Spool.content, Spool.content, (h key).1]

theorem SameLogs.committedOffset {s s' : State} (h : SameLogs s s') (key : String) :
    (s'.spool key).committedOffset = (s.spool key).committedOffset := by
  rw [Spool.committedOffset, Spool.committedOffset, (h key).2]

end Spools

/-! ## Where an origin is found -/

variable (c : Codec)

def HasLine (s : State) (o : Origin) : Prop :=
  ∃ key, ∃ record ∈ (s.spool key).records, c.decode record.raw = .recovered o

/-- A complete line above the committed offset carries the origin. -/
def Deliverable (s : State) (o : Origin) : Prop :=
  ∃ key, ∃ record ∈ (s.spool key).uncommitted, c.decode record.raw = .recovered o

/-- A scan finds the origin above the committed offset, perhaps in an unterminated rest. -/
def Queued (s : State) (o : Origin) : Prop := ∃ key, true ∈ found c o (s.spool key)

variable {c}

variable {o : Origin}

theorem mem_found {sp : Spool} {above : Bool} :
    above ∈ found c o sp ↔ ∃ line ∈ streamed sp.content, c.decode line.1 = .recovered o
      ∧ above = decide (sp.committedOffset < line.2) := by
  simp only [found, List.mem_map, List.mem_filter, decide_eq_true_eq]
  constructor
  · rintro ⟨line, ⟨hline, hdec⟩, rfl⟩
    exact ⟨line, hline, hdec, rfl⟩
  · rintro ⟨line, hline, hdec, rfl⟩
    exact ⟨line, ⟨hline, hdec⟩, rfl⟩

theorem mem_streamed {bytes : Bytes} {line : Bytes × ℕ} :
    line ∈ streamed bytes ↔ (∃ record ∈ records newline bytes, line = (record.raw, record.stop))
      ∨ torn newline [] bytes ≠ [] ∧ line = (torn newline [] bytes, bytes.length) := by
  rw [streamed, List.mem_append, List.mem_map]
  constructor
  · rintro (⟨record, hrec, rfl⟩ | htail)
    · exact .inl ⟨record, hrec, rfl⟩
    · split at htail
      · cases htail
      · next hne => exact .inr ⟨hne, List.mem_singleton.1 htail⟩
  · rintro (⟨record, hrec, rfl⟩ | ⟨hne, rfl⟩)
    · exact .inl ⟨record, hrec, rfl⟩
    · rw [if_neg hne]
      exact .inr (List.mem_singleton_self _)

theorem found_empty (o : Origin) : found c o Spool.empty = [] := by
  simp [found, streamed, Spool.empty, Spool.content, records, scan, torn]

variable {s : State}

theorem mem_matched {above : Bool} :
    (above ∈ s.queue.entries.flatMap fun entry => found c o entry.2)
      ↔ ∃ key, above ∈ found c o (s.spool key) := by
  rw [List.mem_flatMap]
  constructor
  · rintro ⟨⟨key, sp⟩, hentry, habove⟩
    refine ⟨key, ?_⟩
    rw [State.spool, Dict.mem_entries_iff.1 hentry]
    exact habove
  · rintro ⟨key, habove⟩
    cases hget : s.queue.get key with
    | none =>
      rw [State.spool, hget, Option.getD_none, found_empty] at habove
      cases habove
    | some sp =>
      rw [State.spool, hget, Option.getD_some] at habove
      exact ⟨(key, sp), Dict.mem_entries_iff.2 hget, habove⟩

theorem commitState_eq_queued : commitState c s o = some .queued ↔ Queued c s o := by
  rw [Queued, ← mem_matched, commitState]
  split
  · next hq => exact iff_of_true rfl hq
  · next hq =>
    refine iff_of_false (fun h => ?_) hq
    split at h <;> cases h

theorem commitState_eq_none : commitState c s o = none ↔ ∀ key, found c o (s.spool key) = [] := by
  have hnil : (s.queue.entries.flatMap fun entry => found c o entry.2) = []
      ↔ ∀ key, found c o (s.spool key) = [] := by
    simp only [List.eq_nil_iff_forall_not_mem, mem_matched, not_exists]
    exact ⟨fun h key above => h above key, fun h above key => h key above⟩
  rw [← hnil, commitState]
  split
  · next hq =>
    refine iff_of_false nofun fun heq => ?_
    rw [heq] at hq
    cases hq
  · split
    · next heq => exact iff_of_true rfl heq
    · next hne => exact iff_of_false nofun hne

theorem commitState_eq_committed (h : commitState c s o = some .committed) :
    ¬ Queued c s o ∧ ∃ key, found c o (s.spool key) ≠ [] := by
  constructor
  · intro hq
    rw [commitState_eq_queued.2 hq] at h
    cases h
  · by_contra hnone
    simp only [not_exists, Decidable.not_not] at hnone
    rw [commitState_eq_none.2 hnone] at h
    cases h

def Bounded (s : State) : Prop :=
  ∀ key, (s.spool key).log = none
    ∨ Boundary newline (s.spool key).content (s.spool key).committedOffset

variable {key : String}

variable {record : Record}

theorem mem_uncommitted_iff (h : Bounded s) :
    record ∈ (s.spool key).uncommitted
      ↔ record ∈ (s.spool key).records ∧ (s.spool key).committedOffset < record.stop := by
  rcases h key with hnone | hbound
  · have hcont := Spool.content_of_log_none hnone
    simp [Spool.uncommitted, Spool.records, hcont, recordsFrom, records, scan]
  · exact mem_recordsFrom_iff hbound

theorem Deliverable.queued {s : State} (h : Bounded s) {o : Origin} (ho : Deliverable c s o) :
    Queued c s o := by
  obtain ⟨key, record, hrec, hdec⟩ := ho
  obtain ⟨hmem, hlt⟩ := (mem_uncommitted_iff h).1 hrec
  refine ⟨key, mem_found.2 ⟨(record.raw, record.stop), ?_, hdec, ?_⟩⟩
  · exact mem_streamed.2 (.inl ⟨record, hmem, rfl⟩)
  · rw [decide_eq_true hlt]

theorem HasLine.found_ne_nil (ho : HasLine c s o) : ∃ key, found c o (s.spool key) ≠ [] := by
  obtain ⟨key, record, hrec, hdec⟩ := ho
  refine ⟨key, fun hnil => ?_⟩
  have hmem : decide ((s.spool key).committedOffset < record.stop) ∈ found c o (s.spool key) :=
    mem_found.2 ⟨(record.raw, record.stop), mem_streamed.2 (.inl ⟨record, hrec, rfl⟩),
      hdec, rfl⟩
  rw [hnil] at hmem
  cases hmem

theorem committedOffset_lt_length (h : Bounded s)
    (htorn : torn newline [] (s.spool key).content ≠ []) :
    (s.spool key).committedOffset < (s.spool key).content.length := by
  have hlen := completeEnd_add_torn_length newline 0 [] (s.spool key).content
  have hpos := List.length_pos_of_ne_nil htorn
  simp only [List.length_nil, Nat.add_zero, Nat.zero_add] at hlen
  rcases h key with hnone | hbound
  · rw [Spool.content_of_log_none hnone] at htorn
    exact absurd rfl htorn
  · -- the boundary is the end of a complete part
    have hle : (s.spool key).committedOffset ≤ completeEnd newline 0 [] (s.spool key).content := by
      have happ := completeEnd_append newline 0 []
        ((s.spool key).content.take (s.spool key).committedOffset)
        ((s.spool key).content.drop (s.spool key).committedOffset)
      rw [List.take_append_drop, hbound.take.1, hbound.take.2] at happ
      rw [happ]
      exact le_completeEnd ..
    omega

theorem hasLine_of_committed (h : Bounded s) (hnot : ¬ Queued c s o)
    (hfound : found c o (s.spool key) ≠ []) : HasLine c s o := by
  obtain ⟨above, habove⟩ := List.exists_mem_of_ne_nil _ hfound
  obtain ⟨line, hline, hdec, rfl⟩ := mem_found.1 habove
  rcases mem_streamed.1 hline with ⟨record, hrec, rfl⟩ | ⟨htorn, rfl⟩
  · exact ⟨key, record, hrec, hdec⟩
  · refine absurd ⟨key, ?_⟩ hnot
    rwa [decide_eq_true (committedOffset_lt_length h htorn)] at habove

theorem deliverable_of_queued (h : Bounded s) (ho : Queued c s o)
    (htail : ∀ key, torn newline [] (s.spool key).content ≠ [] →
      c.decode (torn newline [] (s.spool key).content) ≠ .recovered o) :
    Deliverable c s o := by
  obtain ⟨key, habove⟩ := ho
  obtain ⟨line, hline, hdec, hlt⟩ := mem_found.1 habove
  rcases mem_streamed.1 hline with ⟨record, hrec, rfl⟩ | ⟨hne, rfl⟩
  · exact ⟨key, record, (mem_uncommitted_iff h).2 ⟨hrec, of_decide_eq_true hlt.symm⟩, hdec⟩
  · exact absurd hdec (htail key hne)

section Same

variable {s' : State}

theorem SameLogs.hasLine (h : SameLogs s s') : HasLine c s' o ↔ HasLine c s o := by
  simp only [HasLine, Spool.records, h.content]

theorem SameLogs.deliverable (h : SameLogs s s') : Deliverable c s' o ↔ Deliverable c s o := by
  simp only [Deliverable, Spool.uncommitted, h.content, h.committedOffset]

theorem SameLogs.queued (h : SameLogs s s') : Queued c s' o ↔ Queued c s o := by
  simp only [Queued, found, h.content, h.committedOffset]

theorem SameLogs.bounded (h : SameLogs s s') (hs : Bounded s) : Bounded s' := by
  intro key
  rw [(h key).1, h.content, h.committedOffset]
  exact hs key

end Same

/-! ## The invariant -/

def Known (s : State) (o : Origin) : Prop := ∃ r, s.receipt o.key = some r ∧ originOf o.key r = o

def Closed (s : State) (key : ReceiptKey) : Prop :=
  ∀ r, s.receipt key = some r → r.state.pending = false

variable (c)

def Settled (s : State) (record : Record) : Prop :=
  ∀ o, c.decode record.raw = .recovered o → Closed s o.key

def Sane (s : State) (o : Origin) : ReceiptState → Prop
  | .pendingEnqueue => o ∈ s.flushed ∨ Deliverable c s o ∨ ¬ HasLine c s o
  | .retryPending => True
  | .enqueued => Deliverable c s o
  | .committedPending => False
  | .written => o ∈ s.flushed
  | .quarantined => True

/-- Records of a log that a worker read when `start` was committed. -/
structure Batch (sp : Spool) (start : ℕ) (records : List Record) : Prop where
  boundary : Boundary newline sp.content start
  start_le : start ≤ sp.committedOffset
  read : records <+: recordsFrom newline sp.content start

def WorkerOk (sp : Spool) : Worker → Prop
  | .idle => True
  | .holding start records => Batch sp start records
  | .condemned start record rest => Batch sp start (record :: rest)

def Section.checked (sec : Section) : List Record :=
  match sec.stage with
  | .checking checked _ => checked
  | .receipt checked _ _ => checked
  | .marking _ _ => sec.dispatched

def QueuedRecord (s : State) (record : Record) : Prop :=
  ∃ o, c.decode record.raw = .recovered o ∧ Queued c s o

def StageOk (s : State) (sec : Section) : Stage → Prop
  | .checking checked todo => checked ++ todo = sec.dispatched
  | .receipt checked record todo =>
    checked ++ record :: todo = sec.dispatched ∧ QueuedRecord c s record
  | .marking marked todo =>
    marked ++ todo = sec.dispatched.take sec.count
      ∧ (∀ o ∈ originsOf c sec.dispatched, o ∈ s.flushed) ∧ ∀ record ∈ marked, Settled c s record

/-- A flush works on the first records of its worker's batch, and what it has checked stays queued
until it commits. -/
structure SectionOk (s : State) (sec : Section) : Prop where
  batch : ∃ start records, s.workers sec.key = .holding start records ∧ sec.dispatched <+: records
  queued : ∀ record ∈ sec.checked, QueuedRecord c s record
  stage : StageOk c s sec sec.stage

structure Consistent (s : State) : Prop where
  known : ∀ o, HasLine c s o → Known s o
  flushed : ∀ o ∈ s.flushed, Known s o
  inflight : ∀ o ∈ s.inflight, o ∈ s.flushed
  bounded : Bounded s
  valid : ∀ key r, s.receipt key = some r → (originOf key r).valid = true
  sane : ∀ key r, s.receipt key = some r → Sane c s (originOf key r) r.state
  workers : ∀ key, WorkerOk (s.spool key) (s.workers key)
  section_ok : ∀ sec, s.guard = .flush sec → SectionOk c s sec

variable {c}

theorem Known.unique {o o' : Origin} (h : Known s o) (h' : Known s o')
    (hkey : o.key = o'.key) : o = o' := by
  obtain ⟨r, hget, ho⟩ := h
  obtain ⟨r', hget', ho'⟩ := h'
  rw [hkey, hget'] at hget
  cases hget
  rw [← ho, ← ho', hkey]

theorem Known.originOf_eq (h : Known s o) {r : Receipt}
    (hget : s.receipt o.key = some r) : originOf o.key r = o := by
  obtain ⟨r', hget', ho⟩ := h
  rw [hget'] at hget
  cases hget
  exact ho

theorem originsOf_mem {records : List Record} :
    o ∈ originsOf c records ↔ ∃ record ∈ records, c.decode record.raw = .recovered o := by
  rw [originsOf, List.mem_filterMap]
  constructor
  · rintro ⟨record, hrec, heq⟩
    split at heq
    · next o' hdec =>
      cases heq
      exact ⟨record, hrec, hdec⟩
    · cases heq
  · rintro ⟨record, hrec, hdec⟩
    exact ⟨record, hrec, by rw [hdec]⟩

theorem Batch.mem_records {sp : Spool} {start : ℕ} {rs : List Record} (h : Batch sp start rs)
    (hrec : record ∈ rs) : record ∈ sp.records :=
  ((mem_recordsFrom_iff h.boundary).1 (h.read.subset hrec)).1

variable {sec : Section}

theorem Consistent.section_batch (h : Consistent c s) (hguard : s.guard = .flush sec) :
    ∃ start records, s.workers sec.key = .holding start records ∧ sec.dispatched <+: records
      ∧ Batch (s.spool sec.key) start records := by
  obtain ⟨start, records, hworkers, hinit⟩ := (h.section_ok sec hguard).batch
  have hok := h.workers sec.key
  rw [hworkers] at hok
  exact ⟨start, records, hworkers, hinit, hok⟩

theorem SectionOk.checked_subset (h : SectionOk c s sec) : sec.checked ⊆ sec.dispatched := by
  have hstage := h.stage
  unfold Section.checked
  cases hcase : sec.stage with
  | checking checked todo =>
    rw [hcase] at hstage
    exact fun x hx => hstage ▸ List.mem_append_left _ hx
  | receipt checked record todo =>
    rw [hcase] at hstage
    exact fun x hx => hstage.1 ▸ List.mem_append_left _ hx
  | marking marked todo => exact fun x hx => hx

theorem Consistent.known_of_dispatched (h : Consistent c s)
    (hguard : s.guard = .flush sec) (hrec : record ∈ sec.dispatched)
    (hdec : c.decode record.raw = .recovered o) : Known s o := by
  obtain ⟨start, records, -, hinit, hbatch⟩ := h.section_batch hguard
  exact h.known o ⟨sec.key, record, hbatch.mem_records (hinit.subset hrec), hdec⟩

theorem SectionOk.mono {s s' : State} (h : SectionOk c s sec)
    (hworkers : s'.workers sec.key = s.workers sec.key)
    (hq : ∀ o, Queued c s o → Queued c s' o) (hflush : s.flushed ⊆ s'.flushed)
    (hsettle : ∀ record ∈ sec.checked, Settled c s record → Settled c s' record) :
    SectionOk c s' sec := by
  have hrec : ∀ record, QueuedRecord c s record → QueuedRecord c s' record := by
    rintro record ⟨o, hdec, ho⟩
    exact ⟨o, hdec, hq o ho⟩
  refine ⟨hworkers ▸ h.batch, fun record hmem => hrec record (h.queued record hmem), ?_⟩
  have hstage := h.stage
  unfold Section.checked at hsettle
  cases hcase : sec.stage with
  | checking checked todo =>
    rw [hcase] at hstage
    exact hstage
  | receipt checked record todo =>
    rw [hcase] at hstage
    exact ⟨hstage.1, hrec record hstage.2⟩
  | marking marked todo =>
    rw [hcase] at hstage hsettle
    obtain ⟨hsplit, hdone, hmark⟩ := hstage
    refine ⟨hsplit, fun o ho => hflush (hdone o ho), fun record hmem => ?_⟩
    -- a marked record is dispatched, and all that is dispatched is checked
    have hdispatch : record ∈ sec.dispatched.take sec.count := by
      rw [← hsplit]
      exact List.mem_append_left _ hmem
    exact hsettle record (List.mem_of_mem_take hdispatch) (hmark record hmem)

/-! ## Changes of the receipts -/

def Checked (c : Codec) (s : State) (key : ReceiptKey) : Prop :=
  ∃ sec record o, s.guard = .flush sec ∧ record ∈ sec.checked
    ∧ c.decode record.raw = .recovered o ∧ o.key = key

/-- No receipt is lost or changes its line. A state stays, or an outstanding receipt is quarantined
while the file is opened, or the call moves it. -/
structure LedgerStep (move : ReceiptKey → ReceiptState → ReceiptState → Prop) (t t' : Tables) :
    Prop where
  kept : ∀ key r, t.receipts.get key = some r → ∃ r', t'.receipts.get key = some r'
    ∧ r'.sourceLineSha256 = r.sourceLineSha256
    ∧ (r'.state = r.state ∨ r.state.pending = true ∧ r'.state = .quarantined
      ∨ move key r.state r'.state)
  old : ∀ key r', t'.receipts.get key = some r' → ∃ r, t.receipts.get key = some r

def stays (_ : ReceiptKey) (_ _ : ReceiptState) : Prop := False

theorem LedgerStep.refl (move : ReceiptKey → ReceiptState → ReceiptState → Prop) (t : Tables) :
    LedgerStep move t t :=
  ⟨fun _ r hget => ⟨r, hget, rfl, Or.inl rfl⟩, fun _ r hget => ⟨r, hget⟩⟩

theorem LedgerStep.before {move : ReceiptKey → ReceiptState → ReceiptState → Prop} {t t' : Tables}
    (h : LedgerStep move t t') {key : ReceiptKey} {r' : Receipt}
    (hget' : t'.receipts.get key = some r') :
    ∃ r, t.receipts.get key = some r ∧ originOf key r' = originOf key r
      ∧ (r'.state = r.state ∨ r.state.pending = true ∧ r'.state = .quarantined
        ∨ move key r.state r'.state) := by
  obtain ⟨r, hget⟩ := h.old key r' hget'
  obtain ⟨r'', hget'', hline, hstate⟩ := h.kept key r hget
  rw [hget'] at hget''
  cases hget''
  exact ⟨r, hget, by rw [originOf, originOf, hline], hstate⟩

theorem LedgerStep.known {s : State} {l : Ledger}
    {move : ReceiptKey → ReceiptState → ReceiptState → Prop}
    (h : LedgerStep move s.ledger.tables l.tables) {o : Origin} (ho : Known s o) :
    Known { s with ledger := l } o := by
  obtain ⟨r, hget, horig⟩ := ho
  obtain ⟨r', hget', hline, -⟩ := h.kept o.key r hget
  refine ⟨r', hget', ?_⟩
  rw [originOf, hline]
  exact horig

theorem LedgerStep.closed {s : State} {l : Ledger}
    {move : ReceiptKey → ReceiptState → ReceiptState → Prop}
    (h : LedgerStep move s.ledger.tables l.tables) {key : ReceiptKey}
    (hmove : ∀ old new, move key old new → new.pending = true → old.pending = true)
    (hclosed : Closed s key) : Closed { s with ledger := l } key := by
  intro r' hget'
  obtain ⟨r, hget, -, hstate⟩ := h.before hget'
  have hr := hclosed r hget
  rcases hstate with hsame | ⟨-, hquar⟩ | hmoved
  · rw [hsame, hr]
  · rw [hquar]
    rfl
  · by_contra hpend
    rw [Bool.not_eq_false] at hpend
    rw [hmove _ _ hmoved hpend] at hr
    cases hr

section

variable (h : Consistent c s)
include h

/-- A call on the ledger keeps the agreement if what it moves a receipt to is right, and if it does
not reopen a receipt that a flush has checked. -/
theorem Consistent.ledger {l : Ledger} {move : ReceiptKey → ReceiptState → ReceiptState → Prop}
    (hstep : LedgerStep move s.ledger.tables l.tables)
    (hsane : ∀ key r new, s.receipt key = some r → move key r.state new →
      Sane c s (originOf key r) new)
    (hclosed : ∀ key old new, move key old new → new.pending = true →
      old.pending = true ∨ ¬ Checked c s key) :
    Consistent c { s with ledger := l } := by
  have hlogs : SameLogs s { s with ledger := l } := SameLogs.of_queue rfl
  constructor
  · exact fun o ho => hstep.known (h.known o (hlogs.hasLine.1 ho))
  · exact fun o ho => hstep.known (h.flushed o ho)
  · exact h.inflight
  · exact hlogs.bounded h.bounded
  · intro key r' hget'
    obtain ⟨r, hget, horig, -⟩ := hstep.before hget'
    rw [horig]
    exact h.valid key r hget
  · intro key r' hget'
    obtain ⟨r, hget, horig, hstate⟩ := hstep.before hget'
    rw [horig]
    rcases hstate with hsame | ⟨-, hquar⟩ | hmoved
    · rw [hsame]
      exact h.sane key r hget
    · rw [hquar]
      trivial
    · exact hsane key r r'.state hget hmoved
  · exact h.workers
  · intro sec hguard
    refine (h.section_ok sec hguard).mono rfl (fun _ ho => ho) (fun _ ho => ho) ?_
    intro record hrec hsettle o hdec
    refine hstep.closed (fun old new hmove hpend => ?_) (hsettle o hdec)
    have hcheck : Checked c s o.key := ⟨sec, record, o, hguard, hrec, hdec, rfl⟩
    exact (hclosed o.key old new hmove hpend).resolve_right fun hnot => hnot hcheck

/-! ## Changes of the logs -/

/-- A change of the logs keeps the agreement if each new line is that of a known origin and can be
delivered, and if no outstanding receipt loses its record. -/
theorem Consistent.logs {s' : State} (hledger : s'.ledger = s.ledger)
    (hflush : s'.flushed = s.flushed) (hinflight : s'.inflight = s.inflight)
    (hlines : ∀ o, HasLine c s' o → HasLine c s o ∨ Known s o ∧ Deliverable c s' o)
    (hbound : Bounded s')
    (hdel : ∀ o r, s.receipt o.key = some r → r.state.pending = true → Deliverable c s o →
      Deliverable c s' o)
    (hwork : ∀ key, WorkerOk (s'.spool key) (s'.workers key))
    (hsection : ∀ sec, s'.guard = .flush sec → SectionOk c s' sec) : Consistent c s' := by
  have hreceipt : ∀ key, s'.receipt key = s.receipt key := fun key => by
    rw [State.receipt, State.receipt, hledger]
  have hknown : ∀ o, Known s o → Known s' o := fun o ho => by
    simp only [Known, hreceipt]
    exact ho
  constructor
  · intro o ho
    rcases hlines o ho with hold | ⟨hnew, -⟩
    · exact hknown o (h.known o hold)
    · exact hknown o hnew
  · rw [hflush]
    exact fun o ho => hknown o (h.flushed o ho)
  · rw [hflush, hinflight]
    exact h.inflight
  · exact hbound
  · simp only [hreceipt]
    exact h.valid
  · intro key r hget
    rw [hreceipt] at hget
    have hsane := h.sane key r hget
    cases hstate : r.state with
    | pendingEnqueue =>
      rw [hstate] at hsane
      rcases hsane with hdone | hdeliver | hnone
      · exact .inl (hflush ▸ hdone)
      · exact .inr (Or.inl
          (hdel (originOf key r) r hget (by rw [hstate]; rfl) hdeliver))
      · -- a line that was not there before is a new one, and can be delivered
        by_cases hline : HasLine c s' (originOf key r)
        · exact .inr (.inl ((hlines _ hline).resolve_left hnone).2)
        · exact .inr (.inr hline)
    | retryPending => trivial
    | enqueued =>
      rw [hstate] at hsane
      exact hdel (originOf key r) r hget (by rw [hstate]; rfl) hsane
    | committedPending =>
      rw [hstate] at hsane
      exact hsane
    | written =>
      rw [hstate] at hsane
      rw [Sane, hflush]
      exact hsane
    | quarantined => trivial
  · exact hwork
  · exact hsection

omit h in
theorem WorkerOk.congr {sp sp' : Spool} {w : Worker} (h : WorkerOk sp w)
    (hcont : sp'.content = sp.content) (hoffset : sp'.committedOffset = sp.committedOffset) :
    WorkerOk sp' w := by
  have hbatch : ∀ start rs, Batch sp start rs → Batch sp' start rs := by
    rintro start rs ⟨hbound, hle, hread⟩
    exact ⟨hcont ▸ hbound, hoffset ▸ hle, hcont ▸ hread⟩
  cases w with
  | idle => trivial
  | holding start records => exact hbatch _ _ h
  | condemned start record rest => exact hbatch _ _ h

theorem Consistent.parties {s' : State} (hledger : s'.ledger = s.ledger)
    (hflush : s'.flushed = s.flushed) (hinflight : s'.inflight = s.inflight)
    (hlogs : SameLogs s s') (hwork : ∀ key, WorkerOk (s.spool key) (s'.workers key))
    (hsection : ∀ sec, s'.guard = .flush sec → SectionOk c s' sec) : Consistent c s' := by
  refine h.logs hledger hflush hinflight (fun o ho => Or.inl (hlogs.hasLine.1 ho))
    (hlogs.bounded h.bounded) (fun o r _ _ ho => hlogs.deliverable.2 ho) (fun key => ?_) hsection
  exact (hwork key).congr (hlogs.content key) (hlogs.committedOffset key)

theorem Consistent.rest {s' : State} (hledger : s'.ledger = s.ledger)
    (hflush : s'.flushed = s.flushed) (hinflight : s'.inflight = s.inflight)
    (hlogs : SameLogs s s') (hwork : s'.workers = s.workers) (hguard : s'.guard = s.guard) :
    Consistent c s' := by
  refine h.parties hledger hflush hinflight hlogs (hwork ▸ h.workers) fun sec hsec => ?_
  have hreceipt : ∀ key, s'.receipt key = s.receipt key := fun key => by
    rw [State.receipt, State.receipt, hledger]
  refine (h.section_ok sec (hguard ▸ hsec)).mono (by rw [hwork])
    (fun o ho => hlogs.queued.2 ho) (by rw [hflush]; exact fun _ ho => ho)
    fun record _ hsettle => ?_
  simpa only [Settled, Closed, hreceipt] using hsettle

theorem Consistent.setGuard {g : Guard}
    (hsection : ∀ sec, g = .flush sec → SectionOk c s sec) :
      Consistent c { s with guard := g } := by
  refine h.parties rfl rfl rfl (SameLogs.of_queue rfl) h.workers fun sec hsec => ?_
  exact (hsection sec hsec).mono rfl (fun o ho => ho) (fun _ ho => ho) fun _ _ hsettle => hsettle

theorem Consistent.freeGuard : Consistent c { s with guard := .free } :=
  h.setGuard nofun

theorem Consistent.setWorker {w : Worker}
    (hw : WorkerOk (s.spool key) w) (hout : ∀ sec, s.guard = .flush sec → sec.key ≠ key) :
    Consistent c (s.setWorker key w) := by
  refine h.parties rfl rfl rfl (SameLogs.of_queue rfl) (fun key' => ?_) fun sec hsec => ?_
  · by_cases hkey : key' = key
    · subst hkey
      rwa [State.workers_setWorker_self]
    · rw [State.workers_setWorker_of_ne s hkey]
      exact h.workers key'
  · have hne := hout sec hsec
    exact (h.section_ok sec hsec).mono (s.workers_setWorker_of_ne hne w) (fun o ho => ho)
      (fun _ ho => ho) fun _ _ hsettle => hsettle

end

/-! ## Writing a record -/

def closing (log bytes : Bytes) : List Record :=
  scan newline (completeEnd newline 0 [] log) (torn newline [] log) bytes

/-- The bytes close at most records of the origin, and if the rest of the log already passes for a
record they close it. -/
structure Extends (c : Codec) (log bytes : Bytes) (o : Origin) : Prop where
  fresh : ∀ record ∈ closing log bytes, ∀ o', c.decode record.raw = .recovered o' → o' = o
  tail : ∀ o', c.decode (torn newline [] log) = .recovered o' → bytes = []
    ∨ ∃ record ∈ closing log bytes, c.decode record.raw = .recovered o'

section Write

variable {bytes : Bytes}

theorem records_writeLog (sp : Spool) :
    (sp.writeLog bytes).records = sp.records ++ closing sp.content bytes :=
  scan_append newline 0 [] sp.content bytes

theorem uncommitted_writeLog {sp : Spool}
    (hbound : Boundary newline sp.content sp.committedOffset) :
    (sp.writeLog bytes).uncommitted = sp.uncommitted ++ closing sp.content bytes :=
  recordsFrom_append_eq hbound bytes

theorem WorkerOk.writeLog {sp : Spool} {w : Worker} (h : WorkerOk sp w) :
    WorkerOk (sp.writeLog bytes) w := by
  have hbatch : ∀ start rs, Batch sp start rs → Batch (sp.writeLog bytes) start rs := by
    rintro start rs ⟨hbound, hle, hread⟩
    exact ⟨hbound.append bytes, hle, hread.trans (recordsFrom_append bytes)⟩
  cases w with
  | idle => trivial
  | holding start records => exact hbatch _ _ h
  | condemned start record rest => exact hbatch _ _ h

theorem bounded_writeLog (h : Bounded s)
    (hbound : Boundary newline (s.spool key).content (s.spool key).committedOffset) :
    Bounded (s.modifySpool key (Spool.writeLog bytes)) := by
  intro key'
  by_cases hkey : key = key'
  · subst hkey
    rw [State.spool_modifySpool_self]
    exact .inr (hbound.append bytes)
  · rw [State.spool_modifySpool_of_ne s hkey]
    exact h key'

theorem Deliverable.writeLog {o : Origin} (h : Deliverable c s o)
    (hbound : Boundary newline (s.spool key).content (s.spool key).committedOffset) :
    Deliverable c (s.modifySpool key (Spool.writeLog bytes)) o := by
  obtain ⟨key', record, hrec, hdec⟩ := h
  refine ⟨key', record, ?_, hdec⟩
  by_cases hkey : key = key'
  · subst hkey
    rw [State.spool_modifySpool_self, uncommitted_writeLog hbound]
    exact List.mem_append_left _ hrec
  · rwa [State.spool_modifySpool_of_ne s hkey]

theorem deliverable_of_closing
    (hbound : Boundary newline (s.spool key).content (s.spool key).committedOffset)
    {record : Record} (hrec : record ∈ closing (s.spool key).content bytes) {o : Origin}
    (hdec : c.decode record.raw = .recovered o) :
    Deliverable c (s.modifySpool key (Spool.writeLog bytes)) o := by
  refine ⟨key, record, ?_, hdec⟩
  rw [State.spool_modifySpool_self, uncommitted_writeLog hbound]
  exact List.mem_append_right _ hrec

theorem Queued.writeLog {o o' : Origin} (h : Queued c s o') (hbounded : Bounded s)
    (hbound : Boundary newline (s.spool key).content (s.spool key).committedOffset)
    (hext : Extends c (s.spool key).content bytes o) :
    Queued c (s.modifySpool key (Spool.writeLog bytes)) o' := by
  obtain ⟨key', habove⟩ := h
  by_cases hkey : key = key'
  · subst hkey
    obtain ⟨line, hline, hdec, hlt⟩ := mem_found.1 habove
    rcases mem_streamed.1 hline with ⟨record, hrec, rfl⟩ | ⟨hne, rfl⟩
    · refine ⟨key, mem_found.2 ⟨(record.raw, record.stop), ?_, hdec, ?_⟩⟩
      · rw [State.spool_modifySpool_self]
        refine mem_streamed.2 (.inl ⟨record, ?_, rfl⟩)
        have hrecs : ((s.spool key).writeLog bytes).records = _ := records_writeLog (s.spool key)
        rw [Spool.records] at hrecs
        rw [hrecs]
        exact List.mem_append_left _ hrec
      · rw [State.spool_modifySpool_self]
        exact hlt
    · -- the rest that passed for a record is left alone or closed
      rcases hext.tail o' hdec with rfl | ⟨record, hrec, hdec'⟩
      · refine ⟨key, ?_⟩
        have hsame : (s.modifySpool key (Spool.writeLog [])).spool key
            = (s.spool key).writeLog [] := State.spool_modifySpool_self ..
        rw [hsame, found, Spool.content_writeLog, List.append_nil]
        exact habove
      · exact (deliverable_of_closing hbound hrec hdec').queued
          (bounded_writeLog hbounded hbound)
  · refine ⟨key', ?_⟩
    rwa [State.spool_modifySpool_of_ne s hkey]

theorem Consistent.write (h : Consistent c s) {o : Origin}
    (hext : Extends c (s.spool key).content bytes o) (hknown : Known s o)
    (hbound : Boundary newline (s.spool key).content (s.spool key).committedOffset) :
    Consistent c (s.modifySpool key (Spool.writeLog bytes)) := by
  refine h.logs rfl rfl rfl (fun o' ho' => ?_) (bounded_writeLog h.bounded hbound)
    (fun o' r _ _ ho' => ho'.writeLog hbound) (fun key' => ?_) fun sec hsec => ?_
  · obtain ⟨key', record, hrec, hdec⟩ := ho'
    by_cases hkey : key = key'
    · subst hkey
      rw [State.spool_modifySpool_self, records_writeLog, List.mem_append] at hrec
      rcases hrec with hold | hnew
      · exact .inl ⟨key, record, hold, hdec⟩
      · obtain rfl := hext.fresh record hnew o' hdec
        exact .inr ⟨hknown, deliverable_of_closing hbound hnew hdec⟩
    · rw [State.spool_modifySpool_of_ne s hkey] at hrec
      exact .inl ⟨key', record, hrec, hdec⟩
  · by_cases hkey : key = key'
    · subst hkey
      rw [State.spool_modifySpool_self]
      exact (h.workers key).writeLog
    · rw [State.spool_modifySpool_of_ne s hkey]
      exact h.workers key'
  · exact (h.section_ok sec hsec).mono rfl
      (fun o' ho' => ho'.writeLog h.bounded hbound hext) (fun _ ho => ho)
      fun _ _ hsettle => hsettle

end Write

/-! ## Committing and trimming -/

section Commit

variable {s' : State}

theorem Consistent.commit (h : Consistent c s) {start : ℕ} {acked post : List Record}
    (hbound : Boundary newline (s.spool key).content start)
    (hle : start ≤ (s.spool key).committedOffset)
    (hread : recordsFrom newline (s.spool key).content start = acked ++ post)
    (hsettle : ∀ record ∈ acked, Settled c s record)
    (hledger : s'.ledger = s.ledger) (hflush : s'.flushed = s.flushed)
    (hinflight : s'.inflight = s.inflight)
    (hspool : s'.spool key = (s.spool key).commit (endOf start acked))
    (hspools : ∀ key', key' ≠ key → s'.spool key' = s.spool key')
    (hworkers : WorkerOk (s'.spool key) (s'.workers key))
    (hwork : ∀ key', key' ≠ key → s'.workers key' = s.workers key')
    (hguard : ∀ sec, s'.guard ≠ .flush sec) : Consistent c s' := by
  have hstop := boundary_endOf hbound hread
  have hbounded : Bounded s' := by
    intro key'
    by_cases hkey : key' = key
    · subst hkey
      rw [hspool]
      exact .inr hstop
    · rw [hspools key' hkey]
      exact h.bounded key'
  refine h.logs hledger hflush hinflight (fun o ho => Or.inl ?_) hbounded
    (fun o r hget hpend ho => ?_) (fun key' => ?_) fun sec hsec => absurd hsec (hguard sec)
  · obtain ⟨key', record, hrec, hdec⟩ := ho
    refine ⟨key', record, ?_, hdec⟩
    by_cases hkey : key' = key
    · subst hkey
      rwa [hspool] at hrec
    · rwa [hspools key' hkey] at hrec
  · obtain ⟨key', record, hrec, hdec⟩ := ho
    refine ⟨key', record, ?_, hdec⟩
    by_cases hkey : key' = key
    · subst hkey
      obtain ⟨hmem, hlt⟩ := (mem_uncommitted_iff h.bounded).1 hrec
      apply (mem_uncommitted_iff hbounded).2
      rw [hspool]
      refine ⟨hmem, ?_⟩
      rw [Spool.committedOffset_commit]
      by_contra hbelow
      rcases mem_records_below_endOf hbound hread hmem (by omega) with hold | hack
      · omega
      · -- what is acknowledged is not outstanding
        have hnot := hsettle record hack o hdec r hget
        rw [hpend] at hnot
        cases hnot
    · rwa [hspools key' hkey]
  · by_cases hkey : key' = key
    · subst hkey
      exact hworkers
    · rw [hspools key' hkey, hwork key' hkey]
      exact h.workers key'

theorem trim_cases (cut : Option ℕ) (sp : Spool) : sp.deleteDrainedCut cut = sp
    ∨ sp.content.length ≤ sp.committedOffset ∧ (sp.deleteDrainedCut cut).log = none := by
  by_cases hlt : sp.committedOffset < sp.content.length
  · exact .inl (Spool.deleteDrainedCut_of_lt hlt cut)
  · rcases Spool.deleteDrainedCut_cases cut sp with hsame | hrem
    · exact .inl hsame
    · exact .inr ⟨Nat.not_lt.1 hlt, hrem.log⟩

theorem not_found_above {sp : Spool} (h : sp.content.length ≤ sp.committedOffset) (o : Origin) :
    true ∉ found c o sp := by
  intro habove
  obtain ⟨line, hline, -, hlt⟩ := mem_found.1 habove
  have hlt := of_decide_eq_true hlt.symm
  have hlen := completeEnd_add_torn_length newline 0 [] sp.content
  simp only [List.length_nil, Nat.add_zero, Nat.zero_add] at hlen
  rcases mem_streamed.1 hline with ⟨record, hrec, rfl⟩ | ⟨-, rfl⟩
  · have hstop := (mem_scan_bounds newline hrec).2.2
    simp only at hlt
    omega
  · simp only at hlt
    omega

theorem Consistent.trim (h : Consistent c s) (cut : Option ℕ) (hidle : s.workers key = .idle) :
    Consistent c (s.modifySpool key (Spool.deleteDrainedCut cut)) := by
  rcases trim_cases cut (s.spool key) with hsame | ⟨hle, hnone⟩
  · refine h.rest rfl rfl rfl (fun key' => ?_) rfl rfl
    by_cases hkey : key = key'
    · subst hkey
      rw [State.spool_modifySpool_self, hsame]
      exact ⟨rfl, rfl⟩
    · rw [State.spool_modifySpool_of_ne s hkey]
      exact ⟨rfl, rfl⟩
  · -- the log is gone, and nothing in it was above the offset
    have hcont := Spool.content_of_log_none hnone
    have hself := State.spool_modifySpool_self s key (Spool.deleteDrainedCut cut)
    refine h.logs rfl rfl rfl (fun o ho => Or.inl ?_) (fun key' => ?_)
      (fun o r _ _ ho => ?_) (fun key' => ?_) fun sec hsec => ?_
    · obtain ⟨key', record, hrec, hdec⟩ := ho
      by_cases hkey : key = key'
      · subst hkey
        rw [hself, Spool.records, hcont] at hrec
        cases hrec
      · rw [State.spool_modifySpool_of_ne s hkey] at hrec
        exact ⟨key', record, hrec, hdec⟩
    · by_cases hkey : key = key'
      · subst hkey
        rw [hself]
        exact .inl hnone
      · rw [State.spool_modifySpool_of_ne s hkey]
        exact h.bounded key'
    · obtain ⟨key', record, hrec, hdec⟩ := ho
      have hkey : key ≠ key' := by
        rintro rfl
        rw [Spool.uncommitted_eq_nil_of_le hle] at hrec
        cases hrec
      refine ⟨key', record, ?_, hdec⟩
      rwa [State.spool_modifySpool_of_ne s hkey]
    · by_cases hkey : key = key'
      · subst hkey
        rw [State.modifySpool, hidle]
        trivial
      · rw [State.spool_modifySpool_of_ne s hkey]
        exact h.workers key'
    · refine (h.section_ok sec hsec).mono rfl (fun o ho => ?_) (fun _ ho => ho)
        fun _ _ hsettle => hsettle
      obtain ⟨key', habove⟩ := ho
      have hkey : key ≠ key' := by
        rintro rfl
        exact not_found_above hle o habove
      refine ⟨key', ?_⟩
      rwa [State.spool_modifySpool_of_ne s hkey]

end Commit

end ContextIntelligence.Recovery.Outbox
