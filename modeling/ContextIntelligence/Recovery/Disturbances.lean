import ContextIntelligence.Recovery.Passes

/-!
# What happens outside of the lock

Workers, flushes, calls that open the ledger and threads of cancelled marks keep `Consistent` and
are calm: no task inside the lock loses a fact. A new process finds the files in agreement too.
-/

namespace ContextIntelligence.Recovery.Outbox

open Lib Lib.Lines ContextIntelligence.Graph Queue

variable {env : Surroundings} {c : Codec} {s s' : State}

/-- The step keeps the agreement and takes no fact away. -/
structure Harmless (c : Codec) (s s' : State) : Prop where
  consistent : Consistent c s'
  calm : Calm c s s'

theorem Harmless.refl (h : Consistent c s) : Harmless c s s := ⟨h, .refl s⟩

theorem Harmless.trans {s'' : State} (h : Harmless c s s') (h' : Harmless c s' s'') :
    Harmless c s s'' := ⟨h'.consistent, h.calm.trans h'.calm⟩

/-! ## The ledger -/

section Calls

theorem harmless_stays (h : Consistent c s) {l : Ledger}
    (hstep : LedgerStep stays s.ledger.tables l.tables) : Harmless c s { s with ledger := l } :=
  ⟨h.ledger hstep (fun _ _ _ _ hmove => hmove.elim) (fun _ _ _ hmove => hmove.elim),
    .ledger hstep fun _ _ _ hmove => hmove.elim⟩

theorem harmless_opened (env : Surroundings) (h : Consistent c s) (failure : Option Failure) :
    Harmless c s (s.opened env failure).2 :=
  harmless_stays h (ledgerStep_open env failure s.ledger)

theorem markMove_trans (key : ReceiptKey) (state : ReceiptState) (key' : ReceiptKey)
    (old new : ReceiptState) (h : markMove key state key' .quarantined new)
    (_ : old.pending = true) : new = .quarantined ∨ markMove key state key' old new := by
  obtain ⟨-, rfl, hpend | rfl⟩ := h
  · cases hpend
  · exact .inl rfl

theorem ledgerStep_mark (o : Origin) (state : ReceiptState) (failure : Option Failure) (s : State) :
    LedgerStep (markMove o.key state) s.ledger.tables
      (s.call (.mark o.sourceHandle o.ordinal state : Operation env) failure).2.ledger.tables :=
  ledgerStep_call (moves_mark o.sourceHandle o.ordinal state) (markMove_trans o.key state) failure s

/-- A mark that is sane keeps the agreement. -/
theorem Consistent.mark (h : Consistent c s) {o : Origin} (hknown : Known s o)
    {state : ReceiptState}
    (hsane : ∀ r, s.receipt o.key = some r → r.state.pending = true → Sane c s o state)
    (failure : Option Failure) :
    Consistent c (s.call (.mark o.sourceHandle o.ordinal state : Operation env) failure).2 := by
  refine h.ledger (ledgerStep_mark o state failure s) ?_ ?_
  · rintro key r new hget ⟨rfl, rfl, hold⟩
    have horig := hknown.originOf_eq hget
    rw [horig]
    rcases hold with hpend | hsame
    · exact hsane r hget hpend
    · have hr := h.sane o.key r hget
      rwa [horig, hsame] at hr
  · rintro key old new ⟨rfl, rfl, hold⟩ hpend
    rcases hold with hbefore | rfl
    · exact .inl hbefore
    · exact .inl hpend

theorem calm_mark (o : Origin) {state : ReceiptState} (hstate : state.pending = false)
    (failure : Option Failure) :
    Calm c s (s.call (.mark o.sourceHandle o.ordinal state : Operation env) failure).2 := by
  refine .ledger (ledgerStep_mark o state failure s) ?_
  rintro key old new ⟨-, rfl, hpend | rfl⟩
  · exact .inr ⟨hpend, hstate⟩
  · exact .inl rfl

theorem harmless_markWritten (env : Surroundings) (h : Consistent c s) {o : Origin}
    (ho : o ∈ s.flushed) (failure : Option Failure) :
    Harmless c s
      (s.call (.mark o.sourceHandle o.ordinal .written : Operation env) failure).2 :=
  ⟨h.mark (h.flushed o ho) (fun _ _ _ => show Sane c s o .written from ho) failure,
    calm_mark o rfl failure⟩

theorem harmless_markQuarantined (env : Surroundings) (h : Consistent c s) {o : Origin}
    (ho : Known s o) (failure : Option Failure) :
    Harmless c s
      (s.call (.mark o.sourceHandle o.ordinal .quarantined : Operation env) failure).2 :=
  ⟨h.mark ho (fun _ _ _ => show Sane c s o .quarantined from trivial) failure,
    calm_mark o rfl failure⟩

theorem settled_mark {record : Record} {o : Origin} (hdec : c.decode record.raw = .recovered o)
    {state : ReceiptState} (hstate : state.pending = false) {failure : Option Failure}
    (hrets : (s.call (.mark o.sourceHandle o.ordinal state : Operation env) failure).1 ≠ .raised) :
    Settled c (s.call (.mark o.sourceHandle o.ordinal state : Operation env) failure).2 record := by
  intro o' hdec'
  rw [hdec] at hdec'
  cases hdec'
  exact closed_call (closes_mark o.sourceHandle o.ordinal hstate) hrets

end Calls

/-! ## Workers -/

section Workers

variable {key : String}

def Guard.entered : Guard → Bool
  | .operator entered => entered
  | .poison _ entered => entered
  | _ => false

theorem ne_operator_of_not_entered (h : s.guard.entered = false) : s.guard ≠ .operator true := by
  intro hguard
  rw [hguard] at h
  cases h

theorem ne_poison_of_not_entered (h : s.guard.entered = false) (key : String) :
    s.guard ≠ .poison key true := by
  intro hguard
  rw [hguard] at h
  cases h

theorem not_checked (h : ∀ sec, s.guard ≠ .flush sec) (key : ReceiptKey) : ¬ Checked c s key := by
  rintro ⟨sec, -, -, hguard, -⟩
  exact h sec hguard

theorem not_engaged (h : engaged s key ≠ true) :
    (∀ sec, s.guard = .flush sec → sec.key ≠ key)
      ∧ ∀ key' entered, s.guard = .poison key' entered → key' ≠ key := by
  constructor
  · rintro sec hguard rfl
    exact h (by rw [engaged, hguard]; exact decide_eq_true rfl)
  · rintro key' entered hguard rfl
    exact h (by rw [engaged, hguard]; exact decide_eq_true rfl)

theorem same_deadLetter (raw : Bytes) (sp : Spool) :
    (sp.deadLetter raw).log = sp.log ∧ (sp.deadLetter raw).offset = sp.offset := ⟨rfl, rfl⟩

theorem same_deadLetterPartial (residue : ℕ) (sp : Spool) :
    (sp.deadLetterPartial residue).log = sp.log
      ∧ (sp.deadLetterPartial residue).offset = sp.offset :=
  ⟨Spool.log_deadLetterPartial residue sp, Spool.offset_deadLetterPartial residue sp⟩

theorem boundary_of_uncommitted (h : Bounded s) (hne : (s.spool key).uncommitted ≠ []) :
    Boundary newline (s.spool key).content (s.spool key).committedOffset := by
  rcases h key with hnone | hbound
  · refine absurd ?_ hne
    rw [Spool.uncommitted, Spool.content_of_log_none hnone, recordsFrom, List.drop_nil]
    rfl
  · exact hbound

/-- Deleting a drained log takes no fact away. -/
theorem calm_trim (cut : Option ℕ) (hwrite : s.writing ≠ some key) :
    Calm c s (s.modifySpool key (Spool.deleteDrainedCut cut)) := by
  have hself := State.spool_modifySpool_self s key (Spool.deleteDrainedCut cut)
  rcases trim_cases cut (s.spool key) with hsame | ⟨hle, hnone⟩
  · refine .rest rfl (fun key' => ?_) rfl rfl rfl rfl
    by_cases hkey : key = key'
    · subst hkey
      rw [hself, hsame]
      exact ⟨rfl, rfl⟩
    · rw [State.spool_modifySpool_of_ne s hkey]
      exact ⟨rfl, rfl⟩
  · -- a log with a record above its offset is not the one that goes
    have hkept : ∀ key', (s.spool key').uncommitted ≠ [] → key ≠ key' := by
      rintro _ hne rfl
      exact hne (Spool.uncommitted_eq_nil_of_le hle)
    constructor
    · exact fun _ r hget => ⟨r, hget, rfl, Or.inl rfl⟩
    · exact fun _ r hget => ⟨r, hget⟩
    · exact fun _ ho => ho
    · rintro o ⟨key', record, hrec, hdec⟩
      by_cases hkey : key = key'
      · subst hkey
        rw [hself, Spool.records, Spool.content_of_log_none hnone] at hrec
        cases hrec
      · rw [State.spool_modifySpool_of_ne s hkey] at hrec
        exact ⟨key', record, hrec, hdec⟩
    · rintro o ⟨key', record, hrec, hdec⟩
      refine .inl ⟨key', record, ?_, hdec⟩
      rwa [State.spool_modifySpool_of_ne s (hkept key' (List.ne_nil_of_mem hrec))]
    · intro key' hkey'
      have hkey : key ≠ key' := by
        rintro rfl
        exact hwrite hkey'
      exact ⟨hkey', by rw [State.spool_modifySpool_of_ne s hkey]⟩
    · exact fun _ _ _ _ hcheck => hcheck
    · refine fun hguard => ⟨hguard, fun key' record rest hhead => ?_⟩
      rwa [State.spool_modifySpool_of_ne s (hkept key' (by rw [hhead]; exact List.cons_ne_nil _ _))]
    · exact fun _ _ _ _ hguard hwork => ⟨hguard, hwork⟩

variable (h : Consistent c s)
include h

theorem harmless_setGuard {g : Guard} (hout : s.guard.entered = false)
    (hsection : ∀ sec, g = .flush sec → SectionOk c s sec)
    (hcheck : ∀ key r, s.receipt key = some r → r.state = .quarantined →
      Checked c { s with guard := g } key → Checked c s key) :
    Harmless c s { s with guard := g } :=
  ⟨h.setGuard hsection, .parties rfl (SameLogs.of_queue rfl) (fun _ ho => ho) rfl hcheck
    (fun hguard => absurd hguard (ne_operator_of_not_entered hout))
    fun key _ _ _ hguard => absurd hguard (ne_poison_of_not_entered hout key)⟩

theorem harmless_freeGuard (hout : s.guard.entered = false) :
    Harmless c s { s with guard := .free } :=
  harmless_setGuard h hout nofun fun key _ _ _ hcheck =>
    absurd hcheck (not_checked (s := { s with guard := .free }) nofun key)

theorem harmless_setWorker {w : Worker} (hw : WorkerOk (s.spool key) w)
    (hflush : ∀ sec, s.guard = .flush sec → sec.key ≠ key)
    (hpoison : ∀ key' start record rest, s.guard = .poison key' true →
      s.workers key' = .condemned start record rest → key' ≠ key) :
    Harmless c s (s.setWorker key w) := by
  refine ⟨h.setWorker hw hflush, .parties rfl (SameLogs.of_queue rfl) (fun _ ho => ho) rfl
    (fun _ _ _ _ hcheck => hcheck) (fun hguard => hguard) ?_⟩
  intro key' start record rest hguard hwork
  refine ⟨hguard, ?_⟩
  rw [State.workers_setWorker_of_ne s (hpoison key' start record rest hguard hwork)]
  exact hwork

theorem harmless_dead {f : Spool → Spool}
    (hf : ∀ sp : Spool, (f sp).log = sp.log ∧ (f sp).offset = sp.offset) :
    Harmless c s (s.modifySpool key f) :=
  ⟨h.rest rfl rfl rfl (SameLogs.modifySpool s key hf) rfl rfl,
    .rest rfl (SameLogs.modifySpool s key hf) rfl rfl rfl rfl⟩

theorem harmless_read (key : String) (maxItems : ℕ) : Harmless c s (readEvent key maxItems s) := by
  unfold readEvent
  cases hwork : s.workers key with
  | idle =>
    dsimp only
    split
    · exact .refl h
    · next hne =>
      rw [Spool.readBatch_records] at hne
      have hrest : (s.spool key).uncommitted ≠ [] := fun hnil => hne (by rw [hnil, List.take_nil])
      refine harmless_setWorker h ?_ ?_ ?_
      · refine ⟨boundary_of_uncommitted h.bounded hrest, le_rfl, ?_⟩
        rw [Spool.readBatch_records]
        exact List.take_prefix _ _
      · rintro sec hguard rfl
        obtain ⟨start, records, hhold, -⟩ := h.section_batch hguard
        rw [hwork] at hhold
        cases hhold
      · rintro key' start record rest - hcondemned rfl
        rw [hwork] at hcondemned
        cases hcondemned
  | holding start records => exact .refl h
  | condemned start record rest => exact .refl h

theorem harmless_drop (key : String) : Harmless c s (dropEvent key s) := by
  unfold dropEvent
  split
  · exact .refl h
  · next hout =>
    obtain ⟨hflush, hpoison⟩ := not_engaged hout
    exact harmless_setWorker h trivial hflush fun key' _ _ _ hguard _ => hpoison key' true hguard

theorem harmless_condemn (key : String) (residue : Option ℕ) :
    Harmless c s (condemnEvent key residue s) := by
  unfold condemnEvent
  split
  · exact .refl h
  · next hout =>
    obtain ⟨hflush, hpoison⟩ := not_engaged hout
    have hok := h.workers key
    split
    · next start record rest hwork =>
      rw [hwork] at hok
      cases residue with
      | none =>
        have hset : Harmless c s (s.setWorker key (.condemned start record rest)) :=
          harmless_setWorker h hok hflush fun key' _ _ _ hguard _ => hpoison key' true hguard
        exact hset.trans (harmless_dead hset.consistent (same_deadLetter record.raw))
      | some residue =>
        have hset : Harmless c s (s.setWorker key .idle) :=
          harmless_setWorker h trivial hflush fun key' _ _ _ hguard _ => hpoison key' true hguard
        exact hset.trans (harmless_dead hset.consistent (same_deadLetterPartial residue))
    · exact .refl h

theorem harmless_trim (key : String) (cut : Option ℕ) : Harmless c s (trimEvent key cut s) := by
  unfold trimEvent
  split
  · next hfree => exact ⟨h.trim cut hfree.1, calm_trim cut hfree.2⟩
  · exact .refl h

end Workers

/-! ## The pause condition -/

section Condition

variable (h : Consistent c s)
include h

theorem harmless_pause (paused : Bool) :
    Harmless c s (if s.guard = .free then { s with paused := paused } else s) := by
  split
  · exact ⟨h.rest rfl rfl rfl (SameLogs.of_queue rfl) rfl rfl,
      .rest rfl (SameLogs.of_queue rfl) rfl rfl rfl rfl⟩
  · exact .refl h

theorem harmless_take {g : Guard} (hfree : s.guard = .free)
    (hsection : ∀ sec, g = .flush sec → SectionOk c s sec ∧ sec.checked = []) :
    Harmless c s { s with guard := g } := by
  refine harmless_setGuard h (by rw [hfree]; rfl) (fun sec hsec => (hsection sec hsec).1) ?_
  rintro key r - - ⟨sec, record, o, hguard, hrec, -⟩
  rw [(hsection sec hguard).2] at hrec
  cases hrec

theorem harmless_takeFlush (key : String) (dispatched count : ℕ) :
    Harmless c s (takeFlushEvent key dispatched count s) := by
  unfold takeFlushEvent
  split
  · next hfree =>
    split
    · next start records hwork =>
      refine harmless_take h hfree.1 ?_
      rintro _ ⟨⟩
      exact ⟨⟨⟨start, records, hwork, List.take_prefix _ _⟩, nofun, rfl⟩, rfl⟩
    · exact .refl h
  · exact .refl h

theorem harmless_takeOperator : Harmless c s (takeOperatorEvent s) := by
  unfold takeOperatorEvent
  split
  · next hfree => exact harmless_take h hfree.1 nofun
  · exact .refl h

theorem harmless_takePoison (key : String) : Harmless c s (takePoisonEvent key s) := by
  unfold takePoisonEvent
  split
  · next hfree =>
    split
    · exact harmless_take h hfree.1 nofun
    · exact .refl h
  · exact .refl h

theorem harmless_giveUp : Harmless c s (giveUpEvent s) := by
  unfold giveUpEvent
  split
  · next hguard => exact harmless_freeGuard h (by rw [hguard]; rfl)
  · next hguard => exact harmless_freeGuard h (by rw [hguard]; rfl)
  · next hguard => exact harmless_freeGuard h (by rw [hguard]; rfl)
  · exact .refl h

end Condition

/-! ## A flush -/

section Flush

theorem not_quarantined_of_isFlushable {t : Tables} {key : ReceiptKey}
    (h : isFlushable t key = true)
    {r : Receipt} (hget : t.receipts.get key = some r) : r.state ≠ .quarantined := by
  intro hstate
  rw [isFlushable, hget, Option.any_some, hstate] at h
  cases h

theorem Sane.flushed {o : Origin} {state : ReceiptState} (h : Sane c s o state)
    {more : List Origin} : Sane c { s with flushed := s.flushed ++ more } o state := by
  cases state with
  | pendingEnqueue => exact h.imp_left fun ho => List.mem_append_left _ ho
  | written => exact List.mem_append_left _ h
  | retryPending => trivial
  | enqueued => exact h
  | committedPending => exact h
  | quarantined => trivial

/-- Nor does committing records that are settled. -/
theorem calm_commit (hbounded : Bounded s) {key : String} {start : ℕ} {acked post : List Record}
    (hbound : Boundary newline (s.spool key).content start)
    (hle : start ≤ (s.spool key).committedOffset)
    (hread : recordsFrom newline (s.spool key).content start = acked ++ post)
    (hsettle : ∀ record ∈ acked, Settled c s record) (hledger : s'.ledger = s.ledger)
    (hflush : s'.flushed = s.flushed) (hwrite : s'.writing = s.writing)
    (hspool : s'.spool key = (s.spool key).commit (endOf start acked))
    (hspools : ∀ key', key' ≠ key → s'.spool key' = s.spool key')
    (hout : s.guard.entered = false) (hguard : ∀ sec, s'.guard ≠ .flush sec) : Calm c s s' := by
  have hreceipt : ∀ key, s'.receipt key = s.receipt key := fun key => by
    rw [State.receipt, State.receipt, hledger]
  constructor
  · exact fun key r hget => ⟨r, (hreceipt key).trans hget, rfl, Or.inl rfl⟩
  · exact fun key r hget => ⟨r, (hreceipt key).symm.trans hget⟩
  · rw [hflush]
    exact fun _ ho => ho
  · rintro o ⟨key', record, hrec, hdec⟩
    refine ⟨key', record, ?_, hdec⟩
    by_cases hkey : key' = key
    · subst hkey
      rwa [hspool] at hrec
    · rwa [hspools key' hkey] at hrec
  · rintro o ⟨key', record, hrec, hdec⟩
    by_cases hkey : key' = key
    · subst hkey
      obtain ⟨hmem, hlt⟩ := (mem_uncommitted_iff hbounded).1 hrec
      -- what the commit passes over was committed before, or is acknowledged and so closed
      by_cases hbelow : record.stop ≤ endOf start acked
      · rcases mem_records_below_endOf hbound hread hmem hbelow with hold | hack
        · omega
        · refine .inr fun r hget => hsettle record hack o hdec r ?_
          rwa [hreceipt] at hget
      · refine .inl ⟨key', record, ?_, hdec⟩
        rw [hspool]
        exact (mem_recordsFrom_iff (boundary_endOf hbound hread)).2
          ⟨hmem, Nat.lt_of_not_le hbelow⟩
    · refine .inl ⟨key', record, ?_, hdec⟩
      rwa [hspools key' hkey]
  · intro key' hkey'
    refine ⟨hwrite.trans hkey', ?_⟩
    by_cases hkey : key' = key
    · subst hkey
      rw [hspool]
      rfl
    · rw [hspools key' hkey]
  · exact fun key _ _ _ hcheck => absurd hcheck (not_checked hguard key)
  · exact fun h => absurd h (ne_operator_of_not_entered hout)
  · exact fun key _ _ _ h => absurd h (ne_poison_of_not_entered hout key)

theorem Batch.commit {sp : Spool} {start : ℕ} {acked post : List Record}
    (h : Batch sp start (acked ++ post)) :
    Batch (sp.commit (endOf start acked)) (endOf start acked) post := by
  obtain ⟨more, hread⟩ := h.read
  rw [List.append_assoc] at hread
  refine ⟨boundary_endOf h.boundary hread.symm, le_rfl, ?_⟩
  rw [Spool.content_commit, recordsFrom_endOf hread.symm]
  exact List.prefix_append _ _

variable (h : Consistent c s)
include h

theorem harmless_stage {sec next : Section} (hguard : s.guard = .flush sec)
    (hnext : SectionOk c s next)
    (hcheck : ∀ record ∈ next.checked, record ∈ sec.checked
      ∨ ∀ o r, c.decode record.raw = .recovered o → s.receipt o.key = some r →
        r.state ≠ .quarantined) : Harmless c s { s with guard := .flush next } := by
  refine harmless_setGuard h (by rw [hguard]; rfl) ?_ ?_
  · rintro _ ⟨⟩
    exact hnext
  · rintro key r hget hstate ⟨_, record, o, ⟨⟩, hrec, hdec, rfl⟩
    rcases hcheck record hrec with hold | hopen
    · exact ⟨sec, record, o, hguard, hold, hdec, rfl⟩
    · exact absurd hstate (hopen o r hdec hget)

theorem harmless_abandon {sec : Section} (hguard : s.guard = .flush sec) :
    Harmless c s { s with guard := .free } :=
  harmless_freeGuard h (by rw [hguard]; rfl)

theorem harmless_checkQueue (raises : Bool) : Harmless c s (checkQueueEvent c raises s) := by
  unfold checkQueueEvent
  split
  · next key dispatched count checked record todo hguard =>
    have hok := h.section_ok _ hguard
    split
    · next o hdec =>
      split
      · next hq =>
        refine harmless_stage h hguard ?_ fun record hrec => Or.inl hrec
        exact ⟨hok.batch, hok.queued,
          hok.stage, o, hdec, commitState_eq_queued.1 hq.2⟩
      · exact harmless_abandon h hguard
    · exact harmless_abandon h hguard
  · exact .refl h

theorem harmless_checkReceipt (failure : Option Failure) :
    Harmless c s (checkReceiptEvent c env failure s) := by
  unfold checkReceiptEvent
  split
  · next key dispatched count checked record todo hguard =>
    have hopened := harmless_opened env h failure
    have hguard' : (s.opened env failure).2.guard
        = .flush ⟨key, dispatched, count, .receipt checked record todo⟩ := hguard
    have hok := hopened.consistent.section_ok _ hguard'
    refine hopened.trans ?_
    dsimp only
    split
    · next o hdec =>
      split
      · next hflushable =>
        refine harmless_stage hopened.consistent hguard' ⟨hok.batch, ?_, ?_⟩ ?_
        · intro record' hrec'
          rcases List.mem_append.1 hrec' with hold | hnew
          · exact hok.queued record' hold
          · rw [List.mem_singleton.1 hnew]
            exact hok.stage.2
        · show (checked ++ [record]) ++ todo = dispatched
          rw [List.append_assoc]
          exact hok.stage.1
        · intro record' hrec'
          rcases List.mem_append.1 hrec' with hold | hnew
          · exact .inl hold
          · -- the receipt of the new record was found flushable, hence not quarantined
            refine .inr fun o' r hdec' hget => ?_
            rw [List.mem_singleton.1 hnew, hdec] at hdec'
            cases hdec'
            exact not_quarantined_of_isFlushable hflushable.2 hget
      · exact harmless_abandon hopened.consistent hguard'
    · exact harmless_abandon hopened.consistent hguard'
  · exact .refl h

theorem harmless_flushed {more : List Origin} (hmore : ∀ o ∈ more, Known s o) :
    Harmless c s { s with flushed := s.flushed ++ more } := by
  refine ⟨⟨h.known, ?_, ?_, h.bounded, h.valid, fun key r hget => (h.sane key r hget).flushed,
    h.workers, ?_⟩, .parties rfl (SameLogs.of_queue rfl) (List.subset_append_left _ _) rfl
    (fun _ _ _ _ hcheck => hcheck) (fun hguard => hguard)
    fun _ _ _ _ hguard hwork => ⟨hguard, hwork⟩⟩
  · intro o ho
    rcases List.mem_append.1 ho with hold | hnew
    · exact h.flushed o hold
    · exact hmore o hnew
  · exact fun o ho => List.mem_append_left _ (h.inflight o ho)
  · intro sec hguard
    exact (h.section_ok sec hguard).mono rfl (fun _ ho => ho) (List.subset_append_left _ _)
      fun _ _ hsettle => hsettle

theorem harmless_flush (returns : Bool) : Harmless c s (flushEvent c returns s) := by
  unfold flushEvent
  split
  · next key dispatched count checked hguard =>
    have hok := h.section_ok _ hguard
    split
    · have hflush : Harmless c s { s with flushed := s.flushed ++ originsOf c dispatched } := by
        refine harmless_flushed h fun o ho => ?_
        obtain ⟨record, hrec, hdec⟩ := originsOf_mem.1 ho
        exact h.known_of_dispatched hguard hrec hdec
      refine hflush.trans (harmless_stage hflush.consistent hguard ⟨hok.batch, ?_, ?_⟩ ?_)
      · intro record hrec
        have hall : checked ++ [] = dispatched := hok.stage
        rw [List.append_nil] at hall
        exact hok.queued record (hall ▸ hrec)
      · exact ⟨rfl, fun o ho => List.mem_append_right _ ho, nofun⟩
      · intro record hrec
        have hall : checked ++ [] = dispatched := hok.stage
        rw [List.append_nil] at hall
        exact .inl (hall ▸ hrec)
    · exact harmless_abandon h hguard
  · exact .refl h

theorem harmless_setInflight {inflight : List Origin}
    (hflush : ∀ o ∈ inflight, o ∈ s.flushed) : Harmless c s { s with inflight := inflight } := by
  refine ⟨⟨h.known, h.flushed, hflush, h.bounded, h.valid, h.sane, h.workers, fun sec hguard => ?_⟩,
    .rest rfl (SameLogs.of_queue rfl) rfl rfl rfl rfl⟩
  exact (h.section_ok sec hguard).mono rfl (fun _ ho => ho) (fun _ ho => ho)
    fun _ _ hsettle => hsettle

theorem harmless_mark (failure : Option Failure) : Harmless c s (markEvent c env failure s) := by
  unfold markEvent
  split
  · next key dispatched count marked record todo hguard =>
    obtain ⟨hbatch, hq, hsplit, hflush, hsettle⟩ := h.section_ok _ hguard
    split
    · next o hdec =>
      -- the record is one of those that were flushed
      have ho : o ∈ s.flushed := by
        refine hflush o (originsOf_mem.2 ⟨record, ?_, hdec⟩)
        apply List.mem_of_mem_take
        rw [← hsplit]
        exact List.mem_append_right _ (List.mem_cons_self ..)
      split
      · have hcancel := harmless_setInflight h (List.forall_mem_cons.2 ⟨ho, h.inflight⟩)
        exact hcancel.trans (harmless_abandon hcancel.consistent hguard)
      · have hmark := harmless_markWritten env h ho failure
        have hguard' : (s.call (.mark o.sourceHandle o.ordinal .written : Operation env)
          failure).2.guard = .flush
            ⟨key, dispatched, count, .marking marked (record :: todo)⟩ := hguard
        obtain ⟨hbatch', hq', hsplit', hflush', hsettle'⟩ :=
          hmark.consistent.section_ok _ hguard'
        refine hmark.trans ?_
        dsimp only
        split
        · exact harmless_abandon hmark.consistent hguard'
        · next hrets =>
          refine harmless_stage hmark.consistent hguard' ⟨hbatch', hq', ?_, hflush', ?_⟩
            fun record' hrec' => Or.inl hrec'
          · rw [List.append_assoc]
            exact hsplit'
          · intro record' hrec'
            rcases List.mem_append.1 hrec' with hold | hnew
            · exact hsettle' record' hold
            · rw [List.mem_singleton.1 hnew]
              exact settled_mark hdec rfl hrets
    · exact harmless_abandon h hguard
  · exact .refl h

theorem harmless_commit (applied returns : Bool) :
    Harmless c s (commitEvent applied returns s) := by
  unfold commitEvent
  split
  · next key dispatched count marked hguard =>
    obtain ⟨hbatch, hq, hsplit, hflush, hsettle⟩ := h.section_ok _ hguard
    obtain ⟨start, records, hwork, hinit, hread⟩ := h.section_batch hguard
    dsimp only at hwork hinit hread hsplit
    rw [List.append_nil] at hsplit
    simp only [hwork]
    -- the batch is what is acknowledged and a rest
    have hack : dispatched.take count <+: records := (List.take_prefix _ _).trans hinit
    have hrest :
        records = dispatched.take count ++ records.drop (dispatched.take count).length := by
      obtain ⟨rest, rfl⟩ := hack
      rw [List.drop_left]
    have hfront : Batch (s.spool key) start
        (dispatched.take count ++ records.drop (dispatched.take count).length) := hrest ▸ hread
    obtain ⟨more, hmore⟩ := hfront.read
    rw [List.append_assoc] at hmore
    split
    · refine ⟨h.commit hfront.boundary hfront.start_le hmore.symm (hsplit ▸ hsettle) rfl rfl rfl
        (State.spool_modifySpool_self ..)
        (fun key' hkey => State.spool_modifySpool_of_ne _ (Ne.symm hkey) _) ?_
        (fun key' hkey => State.workers_setWorker_of_ne s hkey _) nofun,
        calm_commit h.bounded hfront.boundary hfront.start_le hmore.symm (hsplit ▸ hsettle)
        rfl rfl rfl (State.spool_modifySpool_self ..)
        (fun key' hkey => State.spool_modifySpool_of_ne _ (Ne.symm hkey) _)
          (by rw [hguard]; rfl) nofun⟩
      rw [State.spool_modifySpool_self]
      show WorkerOk _ ((s.setWorker key _).workers key)
      rw [State.workers_setWorker_self]
      split
      · exact hfront.commit
      · trivial
    · next hnot =>
      have hrets : returns = false := by
        simp only [not_or, Bool.not_eq_true] at hnot
        exact hnot.2
      have hfree := harmless_abandon h hguard
      rw [hrets]
      exact hfree.trans (harmless_setWorker hfree.consistent trivial nofun nofun)
  · exact .refl h

theorem harmless_settle (o : Origin) (failure : Option Failure) :
    Harmless c s (settleEvent env o failure s) := by
  unfold settleEvent
  split
  · next ho =>
    have hmark := harmless_markWritten env h (h.inflight o ho) failure
    exact hmark.trans (harmless_setInflight hmark.consistent fun o' ho' =>
      h.inflight o' (List.mem_of_mem_erase ho'))
  · exact .refl h

end Flush

/-! ## Every event -/

/-- Nothing outside of the lock does harm. -/
theorem harmless_outside (h : Consistent c s) (event : Event) :
    Harmless c s (outside c env event s) := by
  cases event with
  | read key maxItems => exact harmless_read h key maxItems
  | drop key => exact harmless_drop h key
  | condemn key residue => exact harmless_condemn h key residue
  | trim key cut => exact harmless_trim h key cut
  | pause paused => exact harmless_pause h paused
  | takeFlush key dispatched count => exact harmless_takeFlush h key dispatched count
  | takeOperator => exact harmless_takeOperator h
  | takePoison key => exact harmless_takePoison h key
  | giveUp => exact harmless_giveUp h
  | checkQueue raises => exact harmless_checkQueue h raises
  | checkReceipt failure => exact harmless_checkReceipt h failure
  | flush returns => exact harmless_flush h returns
  | mark failure => exact harmless_mark h failure
  | commit applied returns => exact harmless_commit h applied returns
  | openLedger failure => exact harmless_opened env h failure
  | settle o failure => exact harmless_settle h o failure

theorem Consistent.restart (h : Consistent c s) : Consistent c (restart s) :=
  ⟨h.known, h.flushed, nofun, h.bounded, h.valid, h.sane, fun _ => trivial, nofun⟩

/-- The first process starts in agreement. -/
theorem consistent_boot (permitRequired : Bool) : Consistent c (State.boot permitRequired) := by
  have hspool : ∀ key, (State.boot permitRequired).spool key = Spool.empty := fun _ => rfl
  constructor
  · rintro o ⟨key, record, hrec, -⟩
    rw [hspool] at hrec
    cases hrec
  · exact nofun
  · exact nofun
  · exact fun key => Or.inl rfl
  · exact nofun
  · exact nofun
  · exact fun key => trivial
  · exact nofun

end ContextIntelligence.Recovery.Outbox
